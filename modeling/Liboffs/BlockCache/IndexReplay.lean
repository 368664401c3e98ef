import Liboffs.BlockCache.IndexRefinement

/-!
# Replaying the log of a run rebuilds the live index

A snapshot is decoded to the contents it was written from, and the replay of the live log rebuilds
the contents of the live index after every run of recorded mutations.

Not recorded are: the raise of a rank by `CACHE_PUT`; a change of an object that has left the
index, which goes to another object of the hash; and records behind the point where the size wraps
in its field.
-/

namespace Liboffs.BlockCache

open Library.ByteOrder Library.Cbor Library.BucketTrie Library.LoggedSystem List Option System

theorem cborToBucket_map : cborToBucket (bucket.map indexEntryToCbor) = .value bucket := by
  induction bucket with
  | nil => rfl
  | cons entry rest ih =>
    simp [cborToBucket, cborToIndexEntry_indexEntryToCbor, ih]

theorem cborToIndexNode_indexNodeToCbor (contents : Contents) :
    cborToIndexNode (indexNodeToCbor contents) = .value contents := by
  induction contents with
  | leaf bucket => simp only [indexNodeToCbor, cborToIndexNode, cborToBucket_map]
  | branch left right leftIH rightIH =>
    simp only [indexNodeToCbor, cborToIndexNode, leftIH, rightIH]

variable {contents : Contents}

theorem serializable_indexNodeToCbor {capacity : Nat} (within : contents.Within capacity)
    (small : capacity < 2 ^ 64) : Serializable (indexNodeToCbor contents) := by
  induction contents with
  | leaf bucket =>
    have length : bucket.length < 2 ^ 64 := lt_of_le_of_lt within small
    have entries : AllSerializable (bucket.map indexEntryToCbor) := by
      rw [allSerializable_iff]
      intro item member
      obtain ⟨entry, _, rfl⟩ := mem_map.mp member
      exact serializable_indexEntryToCbor entry
    simpa [indexNodeToCbor, Serializable, AllSerializable, entries] using length
  | branch left right leftIH rightIH =>
    simp [indexNodeToCbor, Serializable, AllSerializable, leftIH within.1, rightIH within.2]

theorem loadSnapshot_snapshotOf (env : Environment) {bucketSize : UInt64}
    (sound : Sound bucketSize.toNat contents) (id : Nat) :
    loadSnapshot env (snapshotOf env bucketSize id contents) = .loaded bucketSize contents := by
  have root := serializable_indexNodeToCbor sound.within bucketSize.toNat_lt
  have loaded := env.cborLoad_serialize (contentsToCbor bucketSize contents)
    (by simp [contentsToCbor, Serializable, AllSerializable, root])
  simp only [loadSnapshot, snapshotOf, loaded]
  simp [contentsToCbor, cborToIndex, cborGetAnyInt, cborGetInt, cborToIndexNode_indexNodeToCbor]

theorem toList_numberFrom :
    (numberFrom start contents).toList = List.range' start contents.toList.length := by
  induction contents generalizing start with
  | leaf bucket => rfl
  | branch left right leftIH rightIH =>
    simp only [numberFrom, Trie.toList, leftIH, rightIH, length_append]
    rw [range'_append_1]

/-- The numbers lead back to the entries. -/
theorem map_numberFrom (before after : List IndexEntry) (contents : Contents) :
    (numberFrom before.length contents).map (fun ref =>
          (before ++ contents.toList ++ after).getD ref unusedEntry) =
      contents := by
  induction contents generalizing before after with
  | leaf bucket =>
    simp only [numberFrom, Trie.map, Trie.toList, Trie.leaf.injEq]
    apply ext_getElem
    · simp
    · intro position _ inside
      simp [getElem?_append_left, getElem?_append_right, inside]
  | branch left right leftIH rightIH =>
    simp only [numberFrom, Trie.map, Trie.toList, Trie.branch.injEq]
    constructor
    · simpa only [append_assoc] using leftIH before (right.toList ++ after)
    · simpa only [append_assoc, length_append] using rightIH (before ++ left.toList) after

section
variable (files : IndexFiles) (bucketSize : UInt64) (root : Contents) (maxSnapshots maxWals : Nat)

@[simp]
theorem contents_indexCreateFrom :
    (indexCreateFrom files bucketSize root maxSnapshots maxWals).contents = root := by
  have numbered := map_numberFrom [] [] root
  rwa [nil_append, append_nil] at numbered

theorem wellFormed_indexCreateFrom (sound : Sound bucketSize.toNat root) :
    (indexCreateFrom files bucketSize root maxSnapshots maxWals).WellFormed where
  refs := by
    intro ref member
    change ref ∈ (numberFrom 0 root).toList at member
    rw [toList_numberFrom, mem_range'_1, zero_add] at member
    exact member.2
  sound := by
    rw [contents_indexCreateFrom]
    exact sound

@[simp]
theorem contents_startRebuilding (index : Index) :
    index.startRebuilding.contents = index.contents := rfl

theorem wellFormed_startRebuilding {index : Index} (wellFormed : index.WellFormed) :
    index.startRebuilding.WellFormed :=
  ⟨wellFormed.refs, wellFormed.sound⟩

end

/-- A mutation of the index through the cache, on entry objects by their references. -/
inductive Mutation where
  | add (entry : IndexEntry)
  | increment (ref : EntryRef)
  | setEjection (ref : EntryRef) (date : UInt64)
  | setMetadata (ref : EntryRef) (ephemeralCount : UInt16)
      (pinCount : UInt32)
  | remove (hash : Hash)
  | raiseFib (ref : EntryRef) (incomingFib : UInt32)

/-- Set the claims and pins of an entry object, and log it. -/
def setEntryMetadata (env : Environment) (index : Index) (ref : EntryRef)
    (ephemeralCount : UInt16) (pinCount : UInt32) : Index :=
  indexWriteEntryMetadata env (index.setEntry ref
      (indexEntrySetMetadata (index.entries ref) ephemeralCount pinCount))
    ref

/-- The raise of the rank of a known block in `CACHE_PUT`. -/
def raiseEntryFib (index : Index) (ref : EntryRef) (incomingFib : UInt32) : Index :=
  if (index.entries ref).counter.fib < incomingFib then
    index.setEntry ref
      { index.entries ref with
        counter := { (index.entries ref).counter with fib := incomingFib } }
  else
    index

/-- The effect of a mutation on the live index. -/
def mutate (env : Environment) (index : Index) : Mutation → Option Index
  | .add entry => indexAdd env (index.allocEntry entry) index.nextRef
  | .increment ref => some (indexIncrement env index ref)
  | .setEjection ref date => some (indexSetEntryEjection env index ref date)
  | .setMetadata ref ephemeralCount pinCount =>
    some (setEntryMetadata env index ref ephemeralCount pinCount)
  | .remove hash => some (indexRemove env index hash)
  | .raiseFib ref incomingFib => some (raiseEntryFib index ref incomingFib)

/-- The effect of a sequence of mutations. -/
def mutateAll (env : Environment) : Index → List Mutation → Option Index
  | index, [] => some index
  | index, mutation :: rest => (mutate env index mutation).bind fun next => mutateAll env next rest

/-- The mutation does not raise a rank, and changes the object that the index holds, if any. -/
def Recorded (index : Index) : Mutation → Prop
  | .add _ | .remove _ => True
  | .increment ref | .setEjection ref _ | .setMetadata ref _ _ => index.Current ref
  | .raiseFib ref incomingFib => incomingFib ≤ (index.entries ref).counter.fib

/-- Every mutation of a sequence is recorded where it happens. -/
def AllRecorded (env : Environment) : Index → List Mutation → Prop
  | _, [] => True
  | index, mutation :: rest =>
    Recorded index mutation ∧ ∀ next, mutate env index mutation = some next →
        AllRecorded env next rest

/-- The operations of the logged map that a recorded mutation performs. -/
def mutationChanges (index : Index) : Mutation → List Change
  | .add entry => [.add entry]
  | .increment ref => [.increment (index.entries ref)]
  | .setEjection ref date => [.setEjection (index.hashOf ref) date]
  | .setMetadata ref ephemeralCount pinCount =>
    [.setMetadata (indexEntrySetMetadata (index.entries ref) ephemeralCount pinCount)]
  | .remove hash => [.remove hash]
  | .raiseFib _ _ => []

section
variable (env : Environment) {index next : Index}

/-- What a recorded mutation does, seen as operations of the logged map. -/
structure Performs (before after : Index) (changes : List Change) : Prop where
  wellFormed : after.WellFormed
  ran : (contentsSystem before.bucketSize.toNat).run before.contents changes = some after.contents
  extends_ : Extends env before after
    ((contentsSystem before.bucketSize.toNat).log before.contents changes)

theorem performs_nil (wellFormed : index.WellFormed) : Performs env index index [] :=
  ⟨wellFormed, rfl, Extends.refl index⟩

theorem performs_add (wellFormed : index.WellFormed) (idle : index.isRebuilding = false)
    {entry : IndexEntry} (added : indexAdd env (index.allocEntry entry) index.nextRef = some next) :
    Performs env index next [.add entry] := by
  have allocated := wellFormed_allocEntry wellFormed entry
  have extends_ := extends_allocEntry env index entry
  have same := contents_allocEntry wellFormed entry
  have object := entries_allocEntry index entry
  have hash := hashOf_allocEntry index entry
  have known := lookup_contents (index.allocEntry entry) entry.hash
  rw [same] at known
  cases found : indexFind (index.allocEntry entry) entry.hash with
  | some old =>
    rw [found, map_some] at known
    have current := current_of_indexFind allocated found
    have oldHash := ((indexFind_eq_some_iff allocated).mp found).2
    rw [indexAdd_of_known env allocated (by rw [hash, found])] at added
    have awake : ¬ (index.allocEntry entry).isRebuilding = true := by
      change ¬ index.isRebuilding = true
      simp [idle]
    rw [indexVisit, if_neg awake] at added
    cases added
    refine ⟨wellFormed_indexIncrement env allocated, ?_, ?_⟩
    · simp only [run, contentsSystem, applyChange, known, bind_some]
      rw [contents_indexIncrement env current, same, oldHash]
    · simp only [log, contentsSystem, changeRecords, known, applyChange, append_nil]
      exact extends_.trans (extends_indexIncrement env _)
  | none =>
    rw [found, map_none] at known
    obtain ⟨wellFormed', visits, stored, grown⟩ :=
      indexAdd_of_absent env allocated (Nat.lt_succ_self _) (by rw [hash, found]) added
    rw [object, same] at stored
    change insertEntry index.bucketSize.toNat entry index.contents =
      some (next.contents, visits) at stored
    refine ⟨wellFormed', ?_, ?_⟩
    · simp [run, contentsSystem, applyChange, known, stored]
    · simp only [log, contentsSystem, changeRecords, known,
        applyChange, stored, map_some, append_nil]
      exact extends_.trans grown

variable {ref : EntryRef}

section
variable (wellFormed : index.WellFormed)
include wellFormed

theorem performs_setEjection (current : index.Current ref) :
    Performs env index (indexSetEntryEjection env index ref date)
      [.setEjection (index.hashOf ref) date] := by
  have same : SameEntries (index.setEntry ref (indexEntrySetEjectionDate (index.entries ref) date))
      (indexSetEntryEjection env index ref date) := by
    have logged := sameEntries_logRecord env index (.ejection (index.hashOf ref) date)
    exact { logged with entries := congrArg (Function.update · ref _) logged.entries }
  have extends_ : Extends env index (indexSetEntryEjection env index ref date)
      [.ejection (index.hashOf ref) date] :=
    (extends_logRecord env index _).trans (extends_setEntry env _ ref _)
  refine ⟨wellFormed_of_sameEntries (wellFormed_setEntry wellFormed ref
      (hash_indexEntrySetEjectionDate _ date)) same
    extends_.bucketSize, ?_, extends_⟩
  simp only [run, contentsSystem, applyChange, bind_some, same.contents]
  rw [contents_setEntry current (indexEntrySetEjectionDate · date)]

theorem performs_setMetadata
    (current : index.Current ref) (ephemeralCount : UInt16) (pinCount : UInt32) :
    Performs env index (setEntryMetadata env index ref ephemeralCount pinCount) [.setMetadata
        (indexEntrySetMetadata (index.entries ref) ephemeralCount pinCount)] := by
  let entry := indexEntrySetMetadata (index.entries ref) ephemeralCount pinCount
  have equal : setEntryMetadata env index ref ephemeralCount pinCount =
        (index.setEntry ref entry).logRecord env (.metadata entry) := by
    simp [setEntryMetadata, indexWriteEntryMetadata, Index.setEntry, entry]
  have same := sameEntries_logRecord env (index.setEntry ref entry) (.metadata entry)
  have extends_ := (extends_setEntry env index ref entry).trans
    (extends_logRecord env _ (.metadata entry))
  rw [← equal] at same extends_
  have changed := wellFormed_setEntry wellFormed ref (show entry.hash = index.hashOf ref from rfl)
  refine ⟨wellFormed_of_sameEntries changed same extends_.bucketSize, ?_, extends_⟩
  simp only [run, contentsSystem, applyChange, bind_some, same.contents]
  exact congrArg some (contents_setEntry current (indexEntryCopyMetadata entry)).symm

theorem performs_mutate (idle : index.isRebuilding = false) {mutation : Mutation}
    (recorded : Recorded index mutation) (mutated : mutate env index mutation = some next) :
    Performs env index next (mutationChanges index mutation) := by
  cases mutation with
  | add entry => exact performs_add env wellFormed idle mutated
  | increment ref =>
    cases mutated
    refine ⟨wellFormed_indexIncrement env wellFormed, ?_, extends_indexIncrement env index⟩
    rw [contents_indexIncrement env recorded]
    rfl
  | setEjection ref date =>
    cases mutated
    exact performs_setEjection env wellFormed recorded
  | setMetadata ref ephemeralCount pinCount =>
    cases mutated
    exact performs_setMetadata env wellFormed recorded ephemeralCount pinCount
  | remove hash =>
    cases mutated
    refine ⟨wellFormed_indexRemove env wellFormed hash, ?_, ?_⟩
    · simp [mutationChanges, System.run, contentsSystem, applyChange, contents_indexRemove]
    · simpa only [mutationChanges, System.log, contentsSystem, applyChange,
        append_nil] using extends_indexRemove env index hash
  | raiseFib ref incomingFib =>
    cases mutated
    have unraised : ¬ (index.entries ref).counter.fib < incomingFib := UInt32.not_lt.mpr recorded
    rw [raiseEntryFib, if_neg unraised]
    exact performs_nil env wellFormed

end

theorem Performs.trans {env : Environment} {first second third : Index} {early late : List Change}
    (before : Performs env first second early) (after : Performs env second third late) :
    Performs env first third (early ++ late) := by
  have ran := after.ran
  have extends_ := after.extends_
  rw [before.extends_.bucketSize] at ran extends_
  refine ⟨after.wellFormed, ?_, ?_⟩
  · rw [run_append, before.ran, bind_some, ran]
  · rw [log_append before.ran]
    exact before.extends_.trans extends_

theorem performs_mutateAll (wellFormed : index.WellFormed) (idle : index.isRebuilding = false)
    {mutations : List Mutation} (recorded : AllRecorded env index mutations)
    (mutated : mutateAll env index mutations = some next) :
    ∃ changes, Performs env index next changes := by
  induction mutations generalizing index with
  | nil =>
    cases mutated
    exact ⟨[], performs_nil env wellFormed⟩
  | cons mutation rest ih =>
    obtain ⟨middle, first, mutated⟩ := bind_eq_some_iff.mp mutated
    have step := performs_mutate env wellFormed idle recorded.1 first
    obtain ⟨changes, steps⟩ :=
      ih step.wellFormed (step.extends_.isRebuilding.trans idle) (recorded.2 middle first) mutated
    exact ⟨_, step.trans steps⟩

end

section
variable (index : Index)

/-- Pruning changes files only. -/
theorem indexPrune_eq : indexPrune index = { index with files := (indexPrune index).files } := by
  simp only [indexPrune, indexPruneOldSnapshots, indexPruneOldWals]
  split_ifs <;> rfl

theorem sameEntries_indexPrune : SameEntries index (indexPrune index) := by
  rw [indexPrune_eq]
  exact ⟨rfl, rfl, rfl⟩

theorem wellFormed_indexPrune {index : Index} (wellFormed : index.WellFormed) :
    (indexPrune index).WellFormed :=
  wellFormed_of_sameEntries wellFormed (sameEntries_indexPrune index) (by rw [indexPrune_eq])

theorem wals_indexPrune (id : Nat) :
    (indexPrune index).files.wals id =
      if index.maxWals ≠ 0 ∧ id < (indexPruneOldSnapshots index).2 then
        none
      else
        index.files.wals id := by
  simp only [indexPrune, indexPruneOldSnapshots, indexPruneOldWals]
  split_ifs <;> simp_all

theorem walBytes_indexPrune_of_nil {id : Nat} (empty : index.walBytes id = []) :
    (indexPrune index).walBytes id = [] := by
  rw [Index.walBytes, wals_indexPrune]
  split
  · rfl
  · exact empty

/-- The index behind a rollover, before old files are pruned. -/
def rolledOver (env : Environment) (index : Index) : Index :=
  { index with
    lastFile := some index.currentFile
    currentFile := index.nextId
    nextId := index.nextId + 1
    wal := index.wal + 1
    files :=
      { index.files with
        snapshots := writeSnapshot (indexSnapshot env index) index.files.snapshots } }

theorem indexDebounce_complete (env : Environment) :
    indexDebounce env .complete index = indexPrune (rolledOver env index) := rfl

theorem sameEntries_indexDebounce (env : Environment) :
    SameEntries index (indexDebounce env .complete index) := by
  have pruned := sameEntries_indexPrune (rolledOver env index)
  exact { pruned with }

end

/-- The finite map that an index represents. -/
def Index.entryOf (index : Index) (hash : Hash) : Option IndexEntry :=
  (indexFind index hash).map index.entries

theorem entryOf_eq_lookup (index : Index) (hash : Hash) :
    index.entryOf hash = lookup index.contents hash :=
  (lookup_contents index hash).symm

/-- The replay of the log on the saved and decoded snapshot gives the map of the live index. -/
def ReplayMatches (env : Environment) (saved : Index) (mutations : List Mutation) : Prop :=
  ∀ live,
    mutateAll env (indexDebounce env .complete saved) mutations = some live →
      ∃ decoded replayed stop legacy,
        loadSnapshot env (indexSnapshot env saved) = .loaded saved.bucketSize decoded ∧
          indexReplayWal env (indexCreateFrom live.files saved.bucketSize decoded
                live.maxSnapshots live.maxWals).startRebuilding
              live.wal = some (replayed, stop, legacy) ∧
          ∀ hash, replayed.entryOf hash = live.entryOf hash

/--
The replay of the live log on the snapshot gives the live map, if the log does not outgrow the
field of its size.
-/
theorem replayMatches_of_recorded (env : Environment) {saved : Index} {mutations : List Mutation}
    (wellFormed : saved.WellFormed) (idle : saved.isRebuilding = false)
    (fresh : saved.walBytes (saved.wal + 1) = []) (recorded :
      AllRecorded env (indexDebounce env .complete saved) mutations)
    (fits : ∀ live, mutateAll env (indexDebounce env .complete saved) mutations = some live →
      (live.walBytes live.wal).length ≤ walSizeField (live.walBytes live.wal).length) :
    ReplayMatches env saved mutations := by
  intro live mutated
  have same := sameEntries_indexDebounce saved env
  have started : (indexDebounce env .complete saved).WellFormed := by
    refine wellFormed_of_sameEntries wellFormed same ?_
    rw [indexDebounce_complete, indexPrune_eq]
    rfl
  have awake : (indexDebounce env .complete saved).isRebuilding = false := by
    rw [indexDebounce_complete, indexPrune_eq]
    exact idle
  have size : (indexDebounce env .complete saved).bucketSize = saved.bucketSize := by
    rw [indexDebounce_complete, indexPrune_eq]
    rfl
  have empty : (indexDebounce env .complete saved).walBytes
      (indexDebounce env .complete saved).wal = [] := by
    have wal : (indexDebounce env .complete saved).wal = saved.wal + 1 := by
      rw [indexDebounce_complete, indexPrune_eq]
      rfl
    rw [wal, indexDebounce_complete]
    exact walBytes_indexPrune_of_nil _ fresh
  obtain ⟨changes, performed⟩ := performs_mutateAll env started awake recorded mutated
  have log := performed.extends_.log
  rw [empty, awake, nil_append] at log
  simp only [reduceCtorEq, if_false] at log
  have replays := faithful_contentsSystem.replayAll_log started.sound performed.ran
  rw [← performed.extends_.wal] at log
  rw [same.contents, size] at replays log
  rw [← append_nil (walLog _ _)] at log
  obtain ⟨replayed, done, spec⟩ :=
    indexReplayWal_spec env (wellFormed_startRebuilding
        (wellFormed_indexCreateFrom live.files saved.bucketSize
          saved.contents live.maxSnapshots live.maxWals wellFormed.sound))
      rfl live.wal log rfl (fits live mutated)
      (by rwa [contents_startRebuilding, contents_indexCreateFrom])
  refine ⟨saved.contents, replayed, _, _,
    loadSnapshot_snapshotOf env wellFormed.sound _, done, fun hash => ?_⟩
  rw [entryOf_eq_lookup, entryOf_eq_lookup, spec.contents]

/-- An index with one entry, as it is loaded from a snapshot. -/
def singleEntryIndex : Index :=
  indexCreateFrom IndexFiles.empty 25 (.leaf [indexEntryCreate zeroHash]) 3 3

theorem wellFormed_singleEntryIndex : singleEntryIndex.WellFormed := by
  refine wellFormed_indexCreateFrom _ _ _ _ _ ⟨trivial, ?_, ?_, ?_⟩
  · exact nodup_singleton _
  · exact Nat.zero_le _
  · change 1 ≤ (25 : UInt64).toNat
    decide

/-- A hit and an ejection are rebuilt from the log. -/
theorem replayMatches_hit_and_ejection :
    ReplayMatches referenceEnvironment singleEntryIndex [.increment 0, .setEjection 0 7] := by
  refine replayMatches_of_recorded referenceEnvironment wellFormed_singleEntryIndex rfl rfl ?_ ?_
  · have only (index : Index) (root : index.root = .leaf [0]) : index.Current 0 := by
      intro other member _
      rw [root] at member
      exact mem_singleton.mp member
    refine ⟨only _ rfl, fun next mutated => ?_⟩
    cases mutated
    exact ⟨only _ rfl, fun next _ => trivial⟩
  · intro live mutated
    cases mutated
    decide +kernel

/-- The raise of the rank of a known block is not rebuilt from the log. -/
theorem raise_is_not_replayed : ¬ ∃ env, ReplayMatches env singleEntryIndex [.raiseFib 0 5] := by
  rintro ⟨env, replayMatches⟩
  obtain ⟨decoded, replayed, stop, legacy, loaded, done, same⟩ := replayMatches _ rfl
  rw [indexSnapshot, loadSnapshot_snapshotOf env wellFormed_singleEntryIndex.sound] at loaded
  obtain ⟨_, rfl⟩ := SnapshotLoad.loaded.inj loaded
  have unchanged : replayed.entryOf zeroHash = some (indexEntryCreate zeroHash) := by
    cases done
    rfl
  have raised := unchanged.symm.trans (same zeroHash)
  have ranks := congrArg (Option.map fun entry => entry.counter.fib) raised
  change some (0 : UInt32) = some 5 at ranks
  exact absurd ranks (by decide)

end Liboffs.BlockCache

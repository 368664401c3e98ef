import Liboffs.BlockCache.IndexPersistence

/-!
# The index refines the logged map

The operations of the index act on its contents as the operations of the
logged map do, and they append exactly the records of the logged map to the
live log.  While the index is rebuilding they append nothing, and the replay
of a record acts on the contents as the logged map replays it.
-/

namespace Liboffs.BlockCache

open Library.ByteOrder Library.BucketTrie List Option Function Record Trie

/-- The later state has the settings, the snapshots and the other logs of
the earlier one, and its live log has grown by some records. -/
structure Extends (env : Environment) (before after : Index) (records : List Record) : Prop where
  bucketSize : after.bucketSize = before.bucketSize
  currentFile : after.currentFile = before.currentFile
  lastFile : after.lastFile = before.lastFile
  nextId : after.nextId = before.nextId
  wal : after.wal = before.wal
  isRebuilding : after.isRebuilding = before.isRebuilding
  maxSnapshots : after.maxSnapshots = before.maxSnapshots
  maxWals : after.maxWals = before.maxWals
  snapshots : after.files.snapshots = before.files.snapshots
  others : ∀ id ≠ before.wal, after.walBytes id = before.walBytes id
  log : after.walBytes before.wal = before.walBytes before.wal ++
    walLog env.xxh32 (if before.isRebuilding then [] else records.map Record.frame)

/-- The later state has the trie and the objects of the earlier one. -/
structure SameEntries (before after : Index) : Prop where
  root : after.root = before.root
  entries : after.entries = before.entries
  nextRef : after.nextRef = before.nextRef

namespace Extends

variable {env : Environment} {first second third : Index}

theorem refl (index : Index) : Extends env index index [] := by
  constructor <;> simp

theorem trans {early late : List Record} (before : Extends env first second early)
    (after : Extends env second third late) : Extends env first third (early ++ late) where
  bucketSize := after.bucketSize.trans before.bucketSize
  currentFile := after.currentFile.trans before.currentFile
  lastFile := after.lastFile.trans before.lastFile
  nextId := after.nextId.trans before.nextId
  wal := after.wal.trans before.wal
  isRebuilding := after.isRebuilding.trans before.isRebuilding
  maxSnapshots := after.maxSnapshots.trans before.maxSnapshots
  maxWals := after.maxWals.trans before.maxWals
  snapshots := after.snapshots.trans before.snapshots
  others := fun id other =>
    (after.others id (by rw [before.wal]; exact other)).trans (before.others id other)
  log := by
    have late := after.log
    rw [before.wal, before.isRebuilding, before.log, append_assoc, ← walLog_append] at late
    rw [late]
    cases first.isRebuilding <;> simp

end Extends

variable {after before : Index} {entry : IndexEntry} {ref : EntryRef}

theorem SameEntries.contents (same : SameEntries before after) :
    after.contents = before.contents := by
  rw [Index.contents, Index.contents, same.root, same.entries]

theorem SameEntries.trans {first second third : Index} (before : SameEntries first second)
    (after : SameEntries second third) : SameEntries first third :=
  ⟨after.root.trans before.root, after.entries.trans before.entries,
    after.nextRef.trans before.nextRef⟩

section
variable (env : Environment) (index : Index)

theorem extends_logRecord (record : Record) :
    Extends env index (index.logRecord env record) [record] := by
  unfold Index.logRecord
  split
  · constructor <;> simp [*]
  · constructor <;> simp_all [Index.appendWal, Index.walBytes, Function.update]

theorem sameEntries_logRecord (record : Record) :
    SameEntries index (index.logRecord env record) := by
  unfold Index.logRecord
  split <;> exact ⟨rfl, rfl, rfl⟩

/-- A state that differs only in the entries and the ranks. -/
theorem extends_of_files_eq (same : { after with
      root := index.root
      entries := index.entries
      nextRef := index.nextRef
      ranks := index.ranks
      lastIncrementPromoted := index.lastIncrementPromoted } = index) :
    Extends env index after [] := by
  cases after
  cases index
  constructor <;> simp_all [Index.walBytes]

theorem extends_setEntry (ref : EntryRef) (entry : IndexEntry) :
    Extends env index (index.setEntry ref entry) [] :=
  extends_of_files_eq env index rfl

theorem extends_allocEntry (entry : IndexEntry) : Extends env index (index.allocEntry entry) [] :=
  extends_of_files_eq env index rfl

theorem extends_rankNewEntry (ref : EntryRef) : Extends env index (rankNewEntry index ref) [] := by
  unfold rankNewEntry
  split
  · exact extends_of_files_eq env index rfl
  · exact Extends.refl index

theorem sameEntries_rankNewEntry (ref : EntryRef) : SameEntries index (rankNewEntry index ref) := by
  unfold rankNewEntry
  split <;> exact ⟨rfl, rfl, rfl⟩

theorem extends_indexIncrement :
    Extends env index (indexIncrement env index ref) [.increment (index.entries ref)] := by
  have logged := extends_logRecord env index (.increment (index.entries ref))
  unfold indexIncrement
  simp only
  split
  · exact logged.trans (extends_of_files_eq env _ rfl)
  · exact logged.trans (extends_of_files_eq env _ rfl)

/-- Counting a hit changes one entry object. -/
theorem sameEntries_indexIncrement :
    SameEntries (index.setEntry ref (indexEntryIncrement (index.entries ref)))
      (indexIncrement env index ref) := by
  have logged := sameEntries_logRecord env index (.increment (index.entries ref))
  unfold indexIncrement
  simp only
  split <;>
    exact { logged with entries := congrArg (Function.update · ref _) logged.entries }

end

/-- The references are to created objects, and the contents are sound. -/
structure Index.WellFormed (index : Index) : Prop where
  refs : ∀ ref ∈ index.root.toList, ref < index.nextRef
  sound : Sound index.bucketSize.toNat index.contents

open Index

/-- The object is the one that the index holds for its hash, if any. -/
def Index.Current (index : Index) (ref : EntryRef) : Prop :=
  ∀ other ∈ index.root.toList, index.hashOf other = index.hashOf ref → other = ref

variable {hash : Hash}

section
variable {index : Index}

theorem lookup_contents (index : Index) (hash : Hash) :
    lookup index.contents hash = (indexFind index hash).map index.entries :=
  find_map Hash.bit IndexEntry.hash index.entries index.root

theorem insertEntry_contents :
    insertEntry index.bucketSize.toNat (index.entries ref) index.contents =
      (index.root.insert Hash.bit index.hashOf index.bucketSize.toNat
        hashBits ref 0).map (Trie.mapStored index.entries) :=
  insert_map Hash.bit IndexEntry.hash ref index.root 0

section
variable (wellFormed : index.WellFormed)
include wellFormed

theorem Index.WellFormed.routed : index.root.Routed Hash.bit index.hashOf 0 :=
  (routed_map Hash.bit IndexEntry.hash index.entries index.root).mp wellFormed.sound.routed

theorem Index.WellFormed.distinct : (index.root.toList.map index.hashOf).Nodup := by
  have distinct := wellFormed.sound.distinct
  rw [contents, Trie.toList_map, List.map_map] at distinct
  exact distinct

theorem indexFind_eq_some_iff :
    indexFind index hash = some ref ↔ ref ∈ index.root.toList ∧ index.hashOf ref = hash :=
  find_eq_some_iff wellFormed.routed wellFormed.distinct

theorem current_of_mem (member : ref ∈ index.root.toList) : index.Current ref :=
  fun _ otherMember equal => inj_on_of_nodup_map wellFormed.distinct otherMember member equal

theorem current_of_indexFind (found : indexFind index hash = some ref) : index.Current ref :=
  current_of_mem wellFormed ((indexFind_eq_some_iff wellFormed).mp found).1

end

theorem contents_setEntry (current : index.Current ref) (change : IndexEntry → IndexEntry) :
    (index.setEntry ref (change (index.entries ref))).contents =
      modify (index.hashOf ref) change index.contents := by
  rw [modify, contents, contents, Trie.map_map]
  apply Trie.map_congr
  intro other member
  simp only [setEntry, update_apply]
  by_cases same : other = ref
  · subst same
    simp [hashOf]
  · have different : ¬ (index.entries other).hash = index.hashOf ref :=
      fun equal => same (current other member equal)
    rw [if_neg same, if_neg different]

theorem wellFormed_of_sameEntries (wellFormed : before.WellFormed) (same : SameEntries before after)
    (bucketSize : after.bucketSize = before.bucketSize) : after.WellFormed where
  refs := by
    rw [same.root, same.nextRef]
    exact wellFormed.refs
  sound := by
    rw [same.contents, bucketSize]
    exact wellFormed.sound

theorem hashOf_setEntry (keeps : entry.hash = index.hashOf ref) :
    (index.setEntry ref entry).hashOf = index.hashOf := by
  funext other
  simp only [hashOf, setEntry, update_apply]
  split
  · rename_i same
    rw [same, keeps, hashOf]
  · rfl

variable (wellFormed : index.WellFormed)
include wellFormed

/-- A new object does not belong to the contents. -/
theorem contents_allocEntry (entry : IndexEntry) :
    (index.allocEntry entry).contents = index.contents := by
  apply Trie.map_congr
  intro ref member
  exact update_of_ne (ne_of_lt (wellFormed.refs ref member)) _ _

theorem wellFormed_allocEntry (entry : IndexEntry) : (index.allocEntry entry).WellFormed where
  refs := fun ref member => Nat.lt_succ_of_lt (wellFormed.refs ref member)
  sound := by
    rw [contents_allocEntry wellFormed]
    exact wellFormed.sound

/-- A state depends on its objects only through their hashes. -/
theorem wellFormed_of_hashOf (root : after.root = index.root)
    (nextRef : after.nextRef = index.nextRef) (bucketSize : after.bucketSize = index.bucketSize)
    (hashes : after.hashOf = index.hashOf) : after.WellFormed := by
  refine ⟨by rw [root, nextRef]; exact wellFormed.refs, ?_, ?_, ?_, ?_⟩
  · rw [contents, Trie.routed_map]
    change after.root.Routed Hash.bit after.hashOf 0
    rw [hashes, root]
    exact wellFormed.routed
  · rw [contents, Trie.toList_map, List.map_map]
    change (after.root.toList.map after.hashOf).Nodup
    rw [hashes, root]
    exact wellFormed.distinct
  · have low := wellFormed.sound.low
    rw [contents, Trie.height_map] at low ⊢
    rwa [root]
  · have within := wellFormed.sound.within
    rw [contents, Trie.within_map] at within ⊢
    rwa [root, bucketSize]

theorem wellFormed_setEntry (ref : EntryRef) (keeps : entry.hash = index.hashOf ref) :
    (index.setEntry ref entry).WellFormed :=
  wellFormed_of_hashOf wellFormed rfl rfl rfl (hashOf_setEntry keeps)

end

section
variable (env : Environment) {index : Index}

theorem contents_indexIncrement (current : index.Current ref) :
    (indexIncrement env index ref).contents =
      modify (index.hashOf ref) indexEntryIncrement index.contents := by
  rw [(sameEntries_indexIncrement env index).contents]
  exact contents_setEntry current indexEntryIncrement

theorem wellFormed_indexIncrement (wellFormed : index.WellFormed) :
    (indexIncrement env index ref).WellFormed :=
  wellFormed_of_sameEntries (wellFormed_setEntry wellFormed ref (hash_indexEntryIncrement _))
    (sameEntries_indexIncrement env index) (extends_indexIncrement env index).bucketSize

end

section
variable (env : Environment) {index : Index}

/-- Visits that find nothing store and log, and keep the objects. -/
theorem foldl_indexVisit (index : Index) {visits : List (Visit EntryRef)}
    (noneFound : Visit.NoneFound visits) :
    SameEntries index (visits.foldl (indexVisit env) index) ∧
      Extends env index (visits.foldl (indexVisit env) index)
        (storedRecords (visits.map (Visit.map index.entries))) := by
  induction visits generalizing index with
  | nil => exact ⟨⟨rfl, rfl, rfl⟩, Extends.refl index⟩
  | cons visit rest ih =>
    have later : Visit.NoneFound rest := fun old member => noneFound old (mem_cons_of_mem _ member)
    cases visit with
    | found old => exact absurd mem_cons_self (noneFound old)
    | stored ref =>
      have logged := extends_logRecord env (rankNewEntry index ref) (.addition (index.entries ref))
      have same : SameEntries index (indexVisit env index (.stored ref)) :=
        (sameEntries_rankNewEntry index ref).trans (sameEntries_logRecord env _ _)
      have rest := ih (indexVisit env index (.stored ref)) later
      rw [same.entries] at rest
      refine ⟨same.trans rest.1, ?_⟩
      have whole := ((extends_rankNewEntry env index ref).trans logged).trans rest.2
      simpa [storedRecords, Visit.map] using whole
    | overflowed ref =>
      have same := sameEntries_rankNewEntry index ref
      have step := extends_rankNewEntry env index ref
      have rest := ih (rankNewEntry index ref) later
      rw [same.entries] at rest
      refine ⟨same.trans rest.1, ?_⟩
      simpa [storedRecords, Visit.map, indexVisit] using step.trans rest.2

theorem indexAdd_of_known (wellFormed : index.WellFormed) {old : EntryRef}
    (known : indexFind index (index.hashOf ref) = some old) :
    indexAdd env index ref = some (indexVisit env index (.found old)) := by
  have low : index.root.height ≤ hashBits := by
    have bound := wellFormed.sound.low
    rwa [contents, height_map] at bound
  rw [indexAdd, insert_of_found known low]
  rfl

theorem indexAdd_objects (wellFormed : index.WellFormed)
    (absent : indexFind index (index.hashOf ref) = none)
    (added : indexAdd env index ref = some after) :
    ∃ root visits, index.root.insert Hash.bit index.hashOf index.bucketSize.toNat
          hashBits ref 0 = some (root, visits) ∧
        Trie.Inserted Hash.bit index.hashOf 0 ref index.root root visits ∧
        SameEntries { index with root := root } after ∧
        Extends env index after (storedRecords (visits.map (Visit.map index.entries))) := by
  obtain ⟨⟨root, visits⟩, inserted, rfl⟩ := map_eq_some_iff.mp added
  have accepts : Trie.Accepts Hash.bit index.hashOf 0 ref index.root := by
    refine ⟨wellFormed.routed, nodup_cons.mpr ⟨?_, wellFormed.distinct⟩⟩
    intro member
    obtain ⟨other, otherMember, equal⟩ := mem_map.mp member
    exact (find_eq_none_iff wellFormed.routed).mp absent other otherMember equal
  have spec := insert_inserts inserted accepts
  obtain ⟨same, extends_⟩ := foldl_indexVisit env { index with root := root } spec.noneFound
  have grown : Extends env index { index with root := root } [] := extends_of_files_eq env index rfl
  exact ⟨root, visits, inserted, spec, same, grown.trans extends_⟩

theorem indexAdd_of_absent (wellFormed : index.WellFormed)
    (created : ref < index.nextRef) (absent : indexFind index (index.hashOf ref) = none)
    (added : indexAdd env index ref = some after) :
    after.WellFormed ∧ ∃ visits, insertEntry index.bucketSize.toNat (index.entries ref)
          index.contents = some (after.contents, visits) ∧
        Extends env index after (storedRecords visits) := by
  obtain ⟨root, visits, inserted, spec, same, extends_⟩ :=
    indexAdd_objects env wellFormed absent added
  have stored : insertEntry index.bucketSize.toNat (index.entries ref) index.contents =
        some (root.map index.entries, visits.map (Visit.map index.entries)) := by
    rw [insertEntry_contents, inserted]
    rfl
  refine ⟨⟨?_, ?_⟩, _, ?_, extends_⟩
  · rw [same.root, same.nextRef]
    intro other member
    rcases spec.mem_iff.mp member with rfl | member
    · exact created
    · exact wellFormed.refs other member
  · rw [same.contents, extends_.bucketSize]
    exact sound_insertEntry wellFormed.sound stored
  · rw [same.contents]
    exact stored

theorem indexAdd_isSome (index : Index) (ref : EntryRef)
    {result : Contents × List (Visit IndexEntry)}
    (inserted : insertEntry index.bucketSize.toNat (index.entries ref)
      index.contents = some result) : ∃ after, indexAdd env index ref = some after := by
  rw [insertEntry_contents] at inserted
  obtain ⟨placed, placedEq, _⟩ := map_eq_some_iff.mp inserted
  exact ⟨_, by rw [indexAdd, placedEq]; rfl⟩

end

section
variable (env : Environment) {index : Index}

theorem contents_indexRemove (index : Index) (hash : Hash) :
    (indexRemove env index hash).contents = eraseHash hash index.contents := by
  have known := lookup_contents index hash
  unfold indexRemove
  split
  · refine Eq.trans ?_ (erase_map Hash.bit IndexEntry.hash index.entries index.root).symm
    have logged := sameEntries_logRecord env index (.removal hash)
    simp only [contents, dropRank, logged.entries]
    rfl
  · rename_i absent
    rw [absent, map_none] at known
    rw [eraseHash, erase_of_absent known]

theorem extends_indexRemove (index : Index) (hash : Hash) :
    Extends env index (indexRemove env index hash)
      (changeRecords index.bucketSize.toNat index.contents (.remove hash)) := by
  have known := lookup_contents index hash
  unfold indexRemove
  split
  · rename_i ref found
    rw [found, map_some] at known
    have logged := extends_logRecord env index (.removal hash)
    simp only [changeRecords, known]
    exact logged.trans (extends_of_files_eq env _ rfl)
  · rename_i absent
    rw [absent, map_none] at known
    simp only [changeRecords, known]
    exact Extends.refl index

theorem wellFormed_indexRemove (wellFormed : index.WellFormed) (hash : Hash) :
    (indexRemove env index hash).WellFormed := by
  refine ⟨?_, ?_⟩
  · unfold indexRemove
    split
    · have logged := sameEntries_logRecord env index (.removal hash)
      intro ref member
      simp only [dropRank, logged.nextRef]
      exact wellFormed.refs ref ((toList_erase_sublist hash index.root 0).subset member)
    · exact wellFormed.refs
  · rw [contents_indexRemove, (extends_indexRemove env index hash).bucketSize]
    exact sound_eraseHash wellFormed.sound

end

variable {change : IndexEntry → IndexEntry}

section
variable (env : Environment) {index : Index} {records : List Record} {result : Contents}

theorem Extends.of_rebuilding {env : Environment} (extends_ : Extends env before after records)
    (rebuilding : before.isRebuilding = true) : Extends env before after [] :=
  { extends_ with
    log := by
      have log := extends_.log
      simpa [rebuilding] using log }

/-- What the replay of records on an index gives. -/
structure Replayed (env : Environment) (before after : Index) (contents : Contents) : Prop where
  contents : after.contents = contents
  wellFormed : after.WellFormed
  extends_ : Extends env before after []

theorem entries_allocEntry (index : Index) (entry : IndexEntry) :
    (index.allocEntry entry).entries index.nextRef = entry :=
  update_self _ _ _

theorem hashOf_allocEntry (index : Index) (entry : IndexEntry) :
    (index.allocEntry entry).hashOf index.nextRef = entry.hash := by
  rw [hashOf, entries_allocEntry]

theorem withRecordedHash_hash : withRecordedHash index hash.bytes act = some (act hash) := by
  rw [withRecordedHash, dif_pos hash.size]

theorem Replayed.trans {env : Environment} {first second third : Index} {middle final : Contents}
    (before : Replayed env first second middle) (after : Replayed env second third final) :
    Replayed env first third final :=
  { after with extends_ := before.extends_.trans after.extends_ }

section
variable (wellFormed : index.WellFormed)
include wellFormed

/-- A record about an entry changes it, if the hash is known. -/
theorem replayed_withRecordedEntry {act : EntryRef → Index}
    (acts : ∀ ref, index.Current ref → index.hashOf ref = hash →
      Replayed env index (act ref) (modify hash change index.contents)) :
    Replayed env index (withRecordedEntry index hash act) (modify hash change index.contents) := by
  have known := lookup_contents index hash
  unfold withRecordedEntry
  split
  · rename_i ref found
    exact acts ref (current_of_indexFind wellFormed found)
      ((indexFind_eq_some_iff wellFormed).mp found).2
  · rename_i absent
    rw [absent, map_none] at known
    have other := (lookup_eq_none_iff wellFormed.sound).mp known
    refine ⟨?_, wellFormed, Extends.refl index⟩
    rw [modify, map_congr (fun entry member => if_neg (other entry member))]
    exact (Trie.map_id _).symm

theorem replayed_setEntry (keeps : ∀ entry, (change entry).hash = entry.hash) :
    Replayed env index (withRecordedEntry index hash fun ref =>
        index.setEntry ref (change (index.entries ref))) (modify hash change index.contents) := by
  apply replayed_withRecordedEntry env wellFormed
  rintro ref current rfl
  exact ⟨contents_setEntry current change, wellFormed_setEntry wellFormed ref (keeps _),
    extends_setEntry env index ref _⟩

variable (rebuilding : index.isRebuilding = true)
include rebuilding

/-- The replay of an addition adds a new object, unless the hash is known. -/
theorem replayed_addition (replayed : replayRecord index.bucketSize.toNat index.contents
      (.addition entry) = some result) :
    ∃ after, indexAdd env (index.allocEntry entry) index.nextRef =
        some after ∧ Replayed env index after result := by
  obtain ⟨⟨contents, visits⟩, inserted, rfl⟩ := map_eq_some_iff.mp replayed
  have allocated := wellFormed_allocEntry wellFormed entry
  have extends_ := extends_allocEntry env index entry
  have same := contents_allocEntry wellFormed entry
  have object := entries_allocEntry index entry
  have hash := hashOf_allocEntry index entry
  have known := lookup_contents (index.allocEntry entry) entry.hash
  rw [same] at known
  cases found : indexFind (index.allocEntry entry) entry.hash with
  | some old =>
    rw [found, map_some] at known
    rw [insertEntry_of_known wellFormed.sound known] at inserted
    simp only [Option.some.injEq, Prod.mk.injEq] at inserted
    refine ⟨_, indexAdd_of_known env allocated (by rw [hash, found]), ?_⟩
    have still : (index.allocEntry entry).isRebuilding = true := rebuilding
    rw [indexVisit, if_pos still, ← inserted.1]
    exact ⟨same, allocated, extends_⟩
  | none =>
    obtain ⟨after, added⟩ :=
      indexAdd_isSome env (index.allocEntry entry) index.nextRef
        (by rw [object, same]; exact inserted)
    obtain ⟨wellFormed', visits', stored, grown⟩ :=
      indexAdd_of_absent env allocated (Nat.lt_succ_self _) (by rw [hash, found]) added
    rw [object, same] at stored
    have equal := inserted.symm.trans stored
    simp only [Option.some.injEq, Prod.mk.injEq] at equal
    exact ⟨after, added, equal.1.symm, wellFormed', (extends_.trans grown).of_rebuilding rebuilding⟩

/-- The replay of a written record acts as the logged map replays it. -/
theorem indexReplayRecord_frame {record : Record}
    (replayed : replayRecord index.bucketSize.toNat index.contents record = some result) :
    ∃ after, indexReplayRecord env index record.frame.1 record.frame.2 = some after ∧
        Replayed env index after result := by
  have loaded := env.cborLoad_serialize record.item (serializable_item record)
  cases record with
  | addition entry =>
    obtain ⟨after, added, spec⟩ := replayed_addition env wellFormed rebuilding replayed
    refine ⟨after, ?_, spec⟩
    simp only [item] at loaded
    simp [frame, type, item, indexReplayRecord, withDecodedEntry, loaded,
      cborToIndexEntry_indexEntryToCbor, added]
  | increment entry =>
    cases replayed
    refine ⟨withRecordedEntry index entry.hash (indexIncrement env index), ?_, ?_⟩
    · simp only [item] at loaded
      simp [frame, type, item, indexReplayRecord, withDecodedEntry, loaded,
        cborToIndexEntry_indexEntryToCbor]
    · refine replayed_withRecordedEntry env wellFormed fun ref current same =>
        ⟨?_, wellFormed_indexIncrement env wellFormed,
          (extends_indexIncrement env index).of_rebuilding rebuilding⟩
      rw [contents_indexIncrement env current, same]
  | metadata entry =>
    cases replayed
    refine ⟨_, ?_, replayed_setEntry env wellFormed (hash_indexEntryCopyMetadata entry)⟩
    simp only [item] at loaded
    simp [frame, type, item, indexReplayRecord, withDecodedEntry, loaded,
      cborToIndexEntry_indexEntryToCbor]
  | ejection hash date =>
    cases replayed
    refine ⟨_, ?_, replayed_setEntry env wellFormed (hash_indexEntrySetEjectionDate · date)⟩
    simp only [item] at loaded
    simp [frame, type, item, indexReplayRecord, loaded, cborGetInt, withRecordedHash_hash]
  | removal hash =>
    cases replayed
    refine ⟨_, ?_, contents_indexRemove env index hash, wellFormed_indexRemove env wellFormed hash,
      (extends_indexRemove env index hash).of_rebuilding rebuilding⟩
    simp only [item] at loaded
    simp [frame, type, item, indexReplayRecord, loaded, withRecordedHash_hash]

/-- The replay of several written records. -/
theorem actAll_indexReplayRecord (replayed : (contentsSystem index.bucketSize.toNat).replayAll
      index.contents records = some result) :
    ∃ after, actAll (indexReplayRecord env) index (records.map Record.frame) = some after ∧
        Replayed env index after result := by
  induction records generalizing index with
  | nil =>
    cases replayed
    exact ⟨index, rfl, rfl, wellFormed, Extends.refl index⟩
  | cons record rest ih =>
    obtain ⟨middle, first, others⟩ := bind_eq_some_iff.mp replayed
    obtain ⟨next, stepped, spec⟩ := indexReplayRecord_frame env wellFormed rebuilding first
    have still : next.isRebuilding = true := spec.extends_.isRebuilding.trans rebuilding
    rw [← spec.contents, ← spec.extends_.bucketSize] at others
    obtain ⟨after, acted, final⟩ := ih spec.wellFormed still others
    refine ⟨after, ?_, spec.trans final⟩
    rw [map_cons, actAll_cons, stepped, bind_some, acted]

end

omit env in
theorem walBytes_openWal : (index.openWal walId).walBytes = index.walBytes := by
  funext id
  simp only [walBytes, openWal, update_apply]
  split
  · simp [*]
  · rfl

theorem extends_openWal (index : Index) (walId : Nat) :
    Extends env index (index.openWal walId) [] := by
  have bytes (id : Nat) : (index.openWal walId).walBytes id = index.walBytes id :=
    congrFun walBytes_openWal id
  exact
    { bucketSize := rfl
      currentFile := rfl
      lastFile := rfl
      nextId := rfl
      wal := rfl
      isRebuilding := rfl
      maxSnapshots := rfl
      maxWals := rfl
      snapshots := rfl
      others := fun id _ => bytes id
      log := by simp [bytes] }

theorem indexReplayWal_spec (wellFormed : index.WellFormed)
    (rebuilding : index.isRebuilding = true) (walId : Nat) {tail : Bytes} {stop : WalStop}
    (file : index.walBytes walId = walLog env.xxh32 (records.map Record.frame) ++ tail)
    (damaged : walRead env.xxh32 false tail = .error stop)
    (fits : (index.walBytes walId).length ≤ walSizeField (index.walBytes walId).length)
    (replayed : (contentsSystem index.bucketSize.toNat).replayAll
      index.contents records = some result) :
    ∃ after, indexReplayWal env index walId = some (after,
            if records ≠ [] ∧
                walSizeField (index.walBytes walId).length ≤
                  (walLog env.xxh32 (records.map Record.frame)).length then
              .endOfLog
            else
              stop,
            false) ∧
        Replayed env index after result := by
  have opened := extends_openWal env index walId
  have same : SameEntries index (index.openWal walId) := ⟨rfl, rfl, rfl⟩
  obtain ⟨after, acted, spec⟩ :=
    actAll_indexReplayRecord env (wellFormed_of_sameEntries wellFormed same opened.bucketSize)
      (opened.isRebuilding.trans rebuilding) replayed
  refine ⟨after, ?_, spec.contents, spec.wellFormed, opened.trans spec.extends_⟩
  have sized := sized_frames records
  rw [file] at fits
  rw [indexReplayWal, file, walReplay_walLog env.xxh32
    (indexReplayRecord env) sized damaged fits, acted]
  simp

end

end Liboffs.BlockCache

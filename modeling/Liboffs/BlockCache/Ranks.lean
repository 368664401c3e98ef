import Liboffs.BlockCache.IndexReplay
import Liboffs.Library.Runs

/-!
# The ranks mirror the entries

The index lists its entries by the ranks of their counters.  A new entry is
listed at every leaf that it reaches, so that a split lists entries again; an
entry that comes with hits is not listed; and an entry whose rank is raised
by `CACHE_PUT` stays in its list.
-/

namespace Liboffs.BlockCache

open Library.ByteOrder Library.BucketTrie Library.Runs List Option Function

section

variable {Rank Object : Type*} {ranks : Rank → List Object} {live lives : Object → Prop}
  {rankOf ranksOf : Object → Rank} {object : Object}

/-- Each live object is once in the list of its rank, and no other object is in a list. -/
structure Mirrors (ranks : Rank → List Object) (live : Object → Prop) (rankOf : Object → Rank) :
    Prop where
  once : ∀ rank, (ranks rank).Nodup
  mem_iff : ∀ rank object, object ∈ ranks rank ↔ live object ∧ rankOf object = rank

variable (mirrors : Mirrors ranks live rankOf)
include mirrors

theorem Mirrors.congr (same : ∀ object, lives object ↔ live object)
    (still : ∀ object, live object → ranksOf object = rankOf object) :
    Mirrors ranks lives ranksOf := by
  refine ⟨mirrors.once, fun rank object => ?_⟩
  rw [mirrors.mem_iff, same]
  exact and_congr_right fun here => by rw [still object here]

variable [DecidableEq Rank] [DecidableEq Object]

theorem Mirrors.push (new : ¬ live object) (rank : Rank) :
    Mirrors (update ranks rank (ranks rank ++ [object])) (fun other => other = object ∨ live other)
      (update rankOf object rank) := by
  have once := mirrors.once
  have mem_iff := mirrors.mem_iff
  constructor <;> grind

theorem Mirrors.drop (object : Object) (own : rankOf object = rank)
    (only : ∀ other, live other → (picks other ↔ other = object)) :
    Mirrors (update ranks rank ((ranks rank).eraseP picks))
      (fun other => live other ∧ other ≠ object) rankOf := by
  have once := mirrors.once
  have mem_iff := mirrors.mem_iff
  have erased (list : List Object) (all : ∀ other ∈ list, live other) :
      list.eraseP picks = list.erase object := by
    induction list with
    | nil => rfl
    | cons first rest ih => grind
  rw [erased _ fun other member => ((mem_iff _ other).mp member).1]
  constructor <;> grind [Nodup.mem_erase_iff, Nodup.erase]

end

/-- The ranks mirror the entries of the index and the ranks of their counters. -/
def Index.RanksMirror (index : Index) : Prop :=
  Mirrors index.ranks (· ∈ indexToArray index) fun ref => (index.entries ref).counter.fib

/-- A well-formed index whose ranks mirror its entries. -/
structure Index.Ranked (index : Index) : Prop extends index.WellFormed where
  mirrors : index.RanksMirror

open Index

/-- A mutation, the replay of a record, or the begin or end of a replay. -/
inductive RankStep where
  | mutate (mutation : Mutation)
  | replay (type : WalType) (payload : Bytes)
  | rebuild (isRebuilding : Bool)

variable (env : Environment) {index next : Index} {ref : EntryRef} {entry : IndexEntry}

/-- The effect of a step on the index. -/
def rankStep (index : Index) : RankStep → Option Index
  | .mutate mutation => mutate env index mutation
  | .replay type payload => indexReplayRecord env index type payload
  | .rebuild isRebuilding => some { index with isRebuilding }

/-- A new entry comes without hits, and is stored in the first leaf that it reaches. -/
def AddsOnce (index : Index) (entry : IndexEntry) : Prop :=
  indexFind (index.allocEntry entry) entry.hash = none →
    entry.counter.fib = 0 ∧ entry.counter.count = 0 ∧
      ∀ root visits, index.root.insert Hash.bit (index.allocEntry entry).hashOf
          index.bucketSize.toNat hashBits index.nextRef 0 = some (root, visits) →
        visits = [.stored index.nextRef]

/-- Additions add once, hits are counted on live entries, and no rank is raised. -/
def KeepsRanks (index : Index) : RankStep → Prop
  | .mutate (.add entry) => AddsOnce index entry
  | .mutate (.increment ref) => ref ∈ indexToArray index
  | .mutate (.raiseFib ref incomingFib) => incomingFib ≤ (index.entries ref).counter.fib
  | .replay .addition payload => ∀ item entry, env.cborLoad payload = some item →
      cborToIndexEntry item = .value entry → AddsOnce index entry
  | _ => True

theorem logRecord_eq (index : Index) : index.logRecord env record =
    { index with files := (index.logRecord env record).files } := by
  unfold logRecord
  split <;> rfl

section

variable (ranked : index.Ranked)
include ranked

theorem ranked_logRecord (record : Record) : (index.logRecord env record).Ranked := by
  rw [logRecord_eq]
  exact ⟨⟨ranked.refs, ranked.sound⟩, ranked.mirrors⟩

theorem ranked_setEntry (hash : entry.hash = index.hashOf ref)
    (fib : entry.counter.fib = (index.entries ref).counter.fib) :
    (index.setEntry ref entry).Ranked := by
  refine ⟨wellFormed_setEntry ranked.toWellFormed ref hash,
    ranked.mirrors.congr (fun _ => Iff.rfl) fun other _ => ?_⟩
  simp only [setEntry]
  grind

theorem ranked_indexIncrement (live : ref ∈ indexToArray index) :
    (indexIncrement env index ref).Ranked := by
  refine ⟨wellFormed_indexIncrement env ranked.toWellFormed, ?_⟩
  unfold indexIncrement
  rw [logRecord_eq]
  simp only
  split
  · rename_i promoted
    refine ((ranked.mirrors.drop ref ?_ fun other here => ?_).push (fun here => here.2 rfl) _).congr
      (fun other => ?_) fun other _ => ?_
    · grind [indexEntryIncrement, fibonacciHitCounterIncrement]
    · have alone := current_of_mem ranked.toWellFormed live other here
      simp only [hashOf, setEntry] at alone ⊢
      grind [hash_indexEntryIncrement]
    · simp only [indexToArray, pushRank, dropRank, setEntry] at live ⊢
      grind
    · simp only [pushRank, dropRank, setEntry]
      grind
  · refine (ranked_setEntry ranked (hash_indexEntryIncrement _) ?_).mirrors
    grind [indexEntryIncrement, fibonacciHitCounterIncrement]

theorem ranked_indexRemove (hash : Hash) : (indexRemove env index hash).Ranked := by
  refine ⟨wellFormed_indexRemove env ranked.toWellFormed hash, ?_⟩
  unfold indexRemove
  rw [logRecord_eq]
  split
  · rename_i ref found
    have perm := Trie.perm_cons_erase found
    have known := (indexFind_eq_some_iff ranked.toWellFormed).mp found
    have nodup := perm.nodup_iff.mp ranked.distinct.of_map
    refine (ranked.mirrors.drop ref rfl fun other here => ?_).congr (fun other => ?_)
      fun other here => rfl
    · have alone := current_of_mem ranked.toWellFormed known.1 other here
      simp only [hashOf] at known alone ⊢
      grind
    · have mem : other ∈ _ ↔ other ∈ _ := perm.mem_iff
      simp only [indexToArray, dropRank]
      grind
  · exact ranked.mirrors

theorem ranked_indexAdd (once : AddsOnce index entry)
    (added : indexAdd env (index.allocEntry entry) index.nextRef = some next) : next.Ranked := by
  have hash := hashOf_allocEntry index entry
  have allocated : (index.allocEntry entry).Ranked := by
    refine ⟨wellFormed_allocEntry ranked.toWellFormed entry,
      ranked.mirrors.congr (fun _ => Iff.rfl) fun other here => ?_⟩
    simp [allocEntry, (ranked.refs other here).ne]
  cases found : indexFind (index.allocEntry entry) entry.hash with
  | some old =>
    rw [indexAdd_of_known env allocated.toWellFormed (by rw [hash, found])] at added
    cases added
    rw [indexVisit]
    split
    · exact allocated
    · exact ranked_indexIncrement env allocated
        ((indexFind_eq_some_iff allocated.toWellFormed).mp found).1
  | none =>
    rw [← hash] at found
    obtain ⟨fib, count, stored⟩ := once (hash ▸ found)
    obtain ⟨root, visits, inserted, spec, -⟩ :=
      indexAdd_objects env allocated.toWellFormed found added
    refine ⟨(indexAdd_of_absent env allocated.toWellFormed (Nat.lt_succ_self _) found added).1, ?_⟩
    cases stored root visits inserted
    rw [indexAdd, inserted] at added
    cases added
    simp only [foldl_cons, foldl_nil, indexVisit]
    rw [logRecord_eq, rankNewEntry, if_pos (by simp [allocEntry, fib, count])]
    refine (allocated.mirrors.push (fun here => (ranked.refs _ here).false) _).congr
      (fun _ => spec.mem_iff) fun other _ => ?_
    simp only [pushRank]
    grind

theorem ranked_withRecordedEntry {hash : Hash} {act : EntryRef → Index}
    (acts : ∀ ref ∈ indexToArray index, (act ref).Ranked) :
    (withRecordedEntry index hash act).Ranked := by
  unfold withRecordedEntry
  split
  · rename_i ref found
    exact acts ref ((indexFind_eq_some_iff ranked.toWellFormed).mp found).1
  · exact ranked

theorem ranked_mutate (keeps : KeepsRanks env index (.mutate mutation))
    (mutated : mutate env index mutation = some next) : next.Ranked := by
  cases mutation with
  | add entry => exact ranked_indexAdd env ranked keeps mutated
  | increment ref =>
    cases mutated
    exact ranked_indexIncrement env ranked keeps
  | setEjection ref date =>
    cases mutated
    rw [indexSetEntryEjection, logRecord_eq]
    exact ranked_setEntry ⟨⟨ranked.refs, ranked.sound⟩, ranked.mirrors⟩ rfl rfl
  | setMetadata ref ephemeralCount pinCount =>
    cases mutated
    refine ranked_logRecord env (ranked_setEntry ranked ?_ ?_) _ <;> rfl
  | remove hash =>
    cases mutated
    exact ranked_indexRemove env ranked hash
  | raiseFib ref incomingFib =>
    cases mutated
    rw [raiseEntryFib, if_neg (UInt32.not_lt.mpr keeps)]
    exact ranked

theorem ranked_indexReplayRecord (keeps : KeepsRanks env index (.replay type payload))
    (replayed : indexReplayRecord env index type payload = some next) : next.Ranked := by
  have counted (hash : Hash) : (withRecordedEntry index hash (indexIncrement env index)).Ranked :=
    ranked_withRecordedEntry ranked fun _ => ranked_indexIncrement env ranked
  have copied (entry : IndexEntry) : (withRecordedEntry index entry.hash fun ref =>
      index.setEntry ref (indexEntryCopyMetadata entry (index.entries ref))).Ranked :=
    ranked_withRecordedEntry ranked fun ref _ => ranked_setEntry ranked rfl rfl
  cases type with
  | addition => grind [indexReplayRecord, withDecodedEntry, KeepsRanks, ranked_indexAdd]
  | increment => grind [indexReplayRecord, withDecodedEntry]
  | metadata => grind [indexReplayRecord, withDecodedEntry]
  | ejection =>
    simp only [indexReplayRecord] at replayed
    split at replayed
    · split at replayed
      · unfold withRecordedHash at replayed
        split at replayed
        · cases replayed
          exact ranked_withRecordedEntry ranked fun _ _ => ranked_setEntry ranked rfl rfl
        · grind
      · grind
    · grind
  | removal => grind [indexReplayRecord, withRecordedHash, ranked_indexRemove]

/-- The ranks mirror the entries in every state of a run whose steps keep the ranks. -/
theorem ranks_mirror_entries {steps : List RankStep}
    (each : EachStep (rankStep env) (KeepsRanks env) index steps) :
    Throughout (rankStep env) Index.RanksMirror index steps :=
  each.throughout (fun _ step _ ranked keeps stepped => by
    cases step with
    | mutate mutation => exact ranked_mutate env ranked keeps stepped
    | replay type payload => exact ranked_indexReplayRecord env ranked keeps stepped
    | rebuild isRebuilding =>
      cases stepped
      exact ⟨⟨ranked.refs, ranked.sound⟩, ranked.mirrors⟩) (fun _ => Index.Ranked.mirrors) ranked

end

/-- A block is added to a loaded index, and read. -/
theorem read_block_is_ranked : Throughout (rankStep referenceEnvironment) Index.RanksMirror
    (indexCreateFrom .empty 25 (.leaf []) 3 3)
    [.mutate (.add (indexEntryCreate zeroHash)), .mutate (.increment 0)] := by
  refine ranks_mirror_entries _ ⟨wellFormed_indexCreateFrom _ _ _ _ _ (sound_empty _),
    fun rank => nodup_range.filter _, fun rank ref => ?_⟩ fun next added => ?_
  · simp [indexCreateFrom, indexToArray, toList_numberFrom]
  · cases added
    refine ⟨fun _ => ⟨rfl, rfl, fun root visits inserted => ?_⟩, fun next _ => ⟨?_, trivial⟩⟩
    · cases inserted
      rfl
    · exact mem_cons_self

/-- Two additions of which the second splits a leaf. -/
def splittingAdds : List Mutation :=
  [.add (indexEntryCreate zeroHash), .add (indexEntryCreate ⟨replicate 32 255, rfl⟩)]

/-- A split puts an entry twice into the lowest rank. -/
theorem split_ranks_entries_twice : ∃ index, mutateAll referenceEnvironment
    (indexNewEmpty .empty 1 3 3) splittingAdds = some index ∧ ¬ index.RanksMirror := by
  obtain ⟨index, reached, twice⟩ : ∃ index, mutateAll referenceEnvironment
      (indexNewEmpty .empty 1 3 3) splittingAdds = some index ∧ ¬ (index.ranks 0).Nodup := by
    decide +kernel
  exact ⟨index, reached, fun mirrors => twice (mirrors.once 0)⟩

end Liboffs.BlockCache

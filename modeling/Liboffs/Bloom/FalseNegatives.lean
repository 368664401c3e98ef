import Liboffs.Bloom.ElasticBloomFilter
import Liboffs.Library.Runs

/-!
# False negatives of elastic Bloom filters

An element whose last operation was an addition should be found.  Additions
lose nothing, but a removal takes away pairs that other elements share, and
when the array is doubled or halved the stored fingerprints are not moved to
where the elements are looked up afterwards.

For every run it is stated exactly which operations lose an element, in
terms of the pairs that are stored before the operation.
-/

namespace Liboffs.Bloom

open Library Library.ByteOrder Library.Multiplicity Library.Runs List Buckets Bool

/-- The calls that change a filter. -/
inductive FilterOp where
  | add (data : Bytes)
  | remove (data : Bytes)

/-- A filter with the elements whose last operation was an addition. -/
structure FilterState (Single : Type) where
  filter : ElasticBloomFilter Single
  live : List Bytes

section
variable {Single : Type} (float : SinglePrecision Single) (xxh3 : Bytes → UInt64 → UInt64)

/-- One call. -/
def FilterState.step (state : FilterState Single) : FilterOp → Option (FilterState Single)
  | .add data => some
      { filter := (elasticBloomFilterAdd float xxh3 state.filter data).1
        live := data :: state.live }
  | .remove data => some
      { filter := (elasticBloomFilterRemove float xxh3 state.filter data).1
        live := state.live.filter fun kept => kept ≠ data }

/-- Every live element is found. -/
def FilterState.Finds (state : FilterState Single) : Prop :=
  ∀ data ∈ state.live, elasticBloomFilterContains xxh3 state.filter data = true

/-- The filter grows when the element is added. -/
def ElasticBloomFilter.expandsOn (filter : ElasticBloomFilter Single) (data : Bytes) : Bool :=
  (addPairs (filter.hashPairs xxh3 filter.bucketCount data) filter.buckets).2 &&
    overfull float (filter.filled xxh3 data)

/-- The filter shrinks when the element is removed. -/
def ElasticBloomFilter.compressesOn (filter : ElasticBloomFilter Single) (data : Bytes) : Bool :=
  (removePairs (filter.hashPairs xxh3 filter.bucketCount data) filter.buckets).2 &&
    underfull float (filter.emptied xxh3 data)

/--
After a doubling, a pair at which an element is looked up comes from a stored or an added pair.
-/
def ElasticBloomFilter.SparedByExpansion
    (filter : ElasticBloomFilter Single) (adding kept : Bytes) : Prop :=
  ∀ pair ∈ filter.hashPairs xxh3 (filter.bucketCount * 2) kept,
    ∃ stored, stored.index < filter.bucketCount ∧
      (stored ∈ filter.hashPairs xxh3 filter.bucketCount adding ∨
        0 < filter.buckets.copies stored) ∧
      expandedPair stored = pair

/-- Every pair of an element is stored more often than it is removed. -/
def ElasticBloomFilter.SparedByRemoval
    (filter : ElasticBloomFilter Single) (removing kept : Bytes) : Prop :=
  ∀ pair ∈ filter.hashPairs xxh3 filter.bucketCount kept,
    (filter.hashPairs xxh3 filter.bucketCount removing).count pair < filter.buckets.copies pair

/-- After a halving, a pair at which an element is looked up was stored more often than removed. -/
def ElasticBloomFilter.SparedByCompression
    (filter : ElasticBloomFilter Single) (removing kept : Bytes) : Prop :=
  ∀ pair ∈ filter.hashPairs xxh3 (filter.bucketCount / 2) kept,
    ∃ stored, stored.index < filter.bucketCount ∧
      (filter.hashPairs xxh3 filter.bucketCount removing).count stored <
        filter.buckets.copies stored ∧ compressedPair (filter.bucketCount / 2) stored = pair

/-- A call loses none of the elements that are live after it. -/
def FilterState.Spares (state : FilterState Single) : FilterOp → Prop
  | .add data =>
    state.filter.expandsOn float xxh3 data = true → ∀ kept ∈ data :: state.live,
        state.filter.SparedByExpansion xxh3 data kept
  | .remove data =>
    ∀ kept ∈ state.live, kept ≠ data →
      if state.filter.compressesOn float xxh3 data then
        state.filter.SparedByCompression xxh3 data kept
      else
        state.filter.SparedByRemoval xxh3 data kept

variable {float xxh3} {filter : ElasticBloomFilter Single} {data kept : Bytes}

theorem buckets_elasticBloomFilterAdd (stays : filter.expandsOn float xxh3 data = false) :
    ∃ count, (elasticBloomFilterAdd float xxh3 filter data).1 =
      { filter.filled xxh3 data with count := count } := by
  rw [elasticBloomFilterAdd]
  split
  · rename_i wasNew
    rw [ElasticBloomFilter.expandsOn, wasNew, Bool.true_and] at stays
    exact ⟨_, if_neg (Bool.eq_false_iff.mp stays)⟩
  · exact ⟨_, rfl⟩

section
variable (stays : filter.expandsOn float xxh3 data = false)
include stays

theorem contains_add_iff :
    elasticBloomFilterContains xxh3 (elasticBloomFilterAdd float xxh3 filter data).1 kept = true ↔
      Covers (enterAll filter.buckets.copies (filter.hashPairs xxh3 filter.bucketCount data))
        (filter.hashPairs xxh3 filter.bucketCount kept) := by
  rcases buckets_elasticBloomFilterAdd stays with ⟨count, added⟩
  rw [added, elasticBloomFilterContains_iff]
  change Covers (addPairs _ filter.buckets).1.copies _ ↔ _
  rw [copies_addPairs]
  rfl

/-- An addition without growth loses nothing. -/
theorem contains_add_of_contains (found : elasticBloomFilterContains xxh3 filter kept = true) :
    elasticBloomFilterContains xxh3 (elasticBloomFilterAdd float xxh3 filter data).1 kept = true :=
  (contains_add_iff stays).mpr ((elasticBloomFilterContains_iff.mp found).enterAll _)

theorem contains_add_self :
    elasticBloomFilterContains xxh3 (elasticBloomFilterAdd float xxh3 filter data).1 data = true :=
  (contains_add_iff stays).mpr (fun _ member => enterAll_pos_iff.mpr (.inl member))

end

/-- With the threshold one a filter never grows. -/
theorem not_expandsOn_of_omega_one (one : filter.omega = float.ofNat 1) :
    filter.expandsOn float xxh3 data = false := by
  apply and_eq_false_iff.mpr
  right
  change float.lt filter.omega (float.div (float.ofNat _) (float.ofNat filter.bucketCount)) = false
  rw [one]
  apply float.share_le_one
  · exact countP_le_length.trans_eq length_range
  · exact filter.bucketCount_pos

theorem contains_add_of_expands_iff (expands : filter.expandsOn float xxh3 data = true) :
    elasticBloomFilterContains xxh3 (elasticBloomFilterAdd float xxh3 filter data).1 kept = true ↔
      filter.SparedByExpansion xxh3 data kept := by
  rcases and_eq_true_iff.mp expands with ⟨wasNew, overfull⟩
  rw [elasticBloomFilterAdd, if_pos wasNew]
  dsimp only
  rw [if_pos (by exact overfull), elasticBloomFilterContains_iff]
  apply forall₂_congr
  intro pair _
  change 0 < ((addPairs _ filter.buckets).1.redistribute expandedPair
    filter.bucketCount).copies pair ↔ _
  simp only [copies_redistribute_pos_iff, copies_addPairs, enterAll_pos_iff]

theorem contains_remove_iff (stays : filter.compressesOn float xxh3 data = false) :
    elasticBloomFilterContains xxh3
        (elasticBloomFilterRemove float xxh3 filter data).1 kept = true ↔
      filter.SparedByRemoval xxh3 data kept := by
  obtain ⟨count, removed⟩ : ∃ count, (elasticBloomFilterRemove float xxh3 filter data).1 =
      { filter.emptied xxh3 data with count := count } := by
    rw [elasticBloomFilterRemove]
    split
    · rename_i removed
      rw [ElasticBloomFilter.compressesOn, removed, Bool.true_and] at stays
      exact ⟨_, if_neg (Bool.eq_false_iff.mp stays)⟩
    · exact ⟨_, rfl⟩
  rw [removed, elasticBloomFilterContains_iff]
  apply forall₂_congr
  intro pair _
  change 0 < (removePairs _ filter.buckets).1.copies pair ↔ _
  rw [copies_removePairs, withdrawAll_pos_iff]

theorem contains_remove_of_compresses_iff
    (compresses : filter.compressesOn float xxh3 data = true) :
    elasticBloomFilterContains xxh3
        (elasticBloomFilterRemove float xxh3 filter data).1 kept = true ↔
      filter.SparedByCompression xxh3 data kept := by
  rcases and_eq_true_iff.mp compresses with ⟨removed, underfull⟩
  have large : 16 < filter.bucketCount := of_decide_eq_true (and_eq_true_iff.mp underfull).2
  rw [elasticBloomFilterRemove, if_pos removed]
  dsimp only
  rw [if_pos (by exact underfull), elasticBloomFilterCompress, dif_pos (by exact large),
    elasticBloomFilterContains_iff]
  apply forall₂_congr
  intro pair _
  change 0 < ((removePairs _ filter.buckets).1.redistribute
    (compressedPair (filter.bucketCount / 2)) filter.bucketCount).copies pair ↔ _
  simp only [copies_redistribute_pos_iff, copies_removePairs, withdrawAll_pos_iff]

/-- One call loses no live element exactly when it spares them. -/
theorem FilterState.finds_step_iff {state next : FilterState Single} {op : FilterOp}
    (finds : state.Finds xxh3) (stepped : state.step float xxh3 op = some next) :
    next.Finds xxh3 ↔ state.Spares float xxh3 op := by
  cases op with
  | add data =>
    cases Option.some.inj stepped
    cases expands : state.filter.expandsOn float xxh3 data with
    | false =>
      constructor
      · intro _ grows
        rw [expands] at grows
        cases grows
      · intro _ kept member
        rcases mem_cons.mp member with rfl | old
        · exact contains_add_self expands
        · exact contains_add_of_contains expands (finds kept old)
    | true =>
      rw [Spares]
      simp only [expands, true_implies]
      apply forall₂_congr
      intro kept _
      exact contains_add_of_expands_iff expands
  | remove data =>
    cases Option.some.inj stepped
    rw [Finds, Spares]
    simp only [mem_filter, decide_eq_true_eq, and_imp]
    apply forall₃_congr
    intro kept _ _
    split
    · rename_i compresses
      exact contains_remove_of_compresses_iff compresses
    · rename_i stays
      exact contains_remove_iff (eq_false_iff.mpr stays)

variable (float xxh3) in
/-- `elastic_bloom_filter_create` without elements. -/
def FilterState.create (size : Nat) (hashCount : UInt32) (omega : Single)
    (fpBits : UInt32) : FilterState Single where
  filter := elasticBloomFilterCreate float size hashCount omega fpBits
  live := []

/--
An element whose last operation was an addition is found in every state reached exactly when every
call spares the elements that are live after it.
-/
theorem no_false_negatives_iff (float : SinglePrecision Single) (xxh3 : Bytes → UInt64 → UInt64)
    (size : Nat) (hashCount : UInt32) (omega : Single) (fpBits : UInt32) (ops : List FilterOp) :
    Throughout (FilterState.step float xxh3) (FilterState.Finds xxh3)
        (FilterState.create float size hashCount omega fpBits) ops ↔
      EachStep (FilterState.step float xxh3) (FilterState.Spares float xxh3)
        (FilterState.create float size hashCount omega fpBits) ops := by
  apply throughout_iff_eachStep (fun _ _ _ (_ : True) _ => trivial)
  · intro state op next _ finds stepped
    exact FilterState.finds_step_iff finds stepped
  · trivial
  · intro data member
    cases member

end

/-- A hash function that gives the first byte of the data. -/
def firstByte (data : Bytes) (_ : UInt64) : UInt64 :=
  (data.headD 0).toUInt64

/-- A filter with one hash function and fingerprints of eight bits. -/
def createSimple (size : Nat) : FilterState ℚ :=
  FilterState.create exactArithmetic size 1 (3 / 4) 8

/-- An element is lost by a doubling, by the removal of its pair, and by a halving. -/
theorem added_elements_are_lost :
    ¬ Throughout (FilterState.step exactArithmetic firstByte)
        (FilterState.Finds firstByte) (createSimple 2) [.add [2], .add [1]] ∧
      ¬ Throughout (FilterState.step exactArithmetic firstByte)
        (FilterState.Finds firstByte) (createSimple 4) [.add [4], .add [0], .remove [0]] ∧
      ¬ Throughout (FilterState.step exactArithmetic firstByte)
        (FilterState.Finds firstByte) (createSimple 32) [.add [5], .add [6], .remove [6]] := by
  refine ⟨?_, ?_, ?_⟩
  · intro throughout
    have doubled := (throughout.2 _ rfl).2 _ rfl
    have found := doubled [2] (by decide +kernel)
    revert found
    decide +kernel
  · intro throughout
    have removed := ((throughout.2 _ rfl).2 _ rfl).2 _ rfl
    have found := removed [4] (by decide +kernel)
    revert found
    decide +kernel
  · intro throughout
    have halved := ((throughout.2 _ rfl).2 _ rfl).2 _ rfl
    have found := halved [5] (by decide +kernel)
    revert found
    decide +kernel

end Liboffs.Bloom

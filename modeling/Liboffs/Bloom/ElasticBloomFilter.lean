import Liboffs.Library.ByteOrder
import Liboffs.Library.Multiplicity
import Mathlib.Tactic.Positivity

/-!
# Elastic Bloom filters

An array of buckets, each a chain of fingerprints, and a bitset of the buckets in use.  A hash
value gives a bucket by its remainder and a fingerprint by its quotient.  The array is doubled and
halved, and then the fingerprints are redistributed without the elements they came from.

The hash function is any, and the arithmetic of single precision is given by what the filter needs
of it.
-/

namespace Liboffs.Bloom

open Library Library.ByteOrder List Function

/-- The arithmetic of `float` that a filter uses; a share of a whole is never above one. -/
structure SinglePrecision (Single : Type) where
  ofNat : Nat → Single
  div : Single → Single → Single
  lt : Single → Single → Bool
  le : Single → Single → Bool
  one_pos : le (ofNat 1) (ofNat 0) = false
  share_le_one : ∀ part whole, part ≤ whole → 0 < whole →
    lt (ofNat 1) (div (ofNat part) (ofNat whole)) = false

/-- The arithmetic without rounding. -/
def exactArithmetic : SinglePrecision ℚ where
  ofNat := fun number => number
  div := fun dividend divisor => dividend / divisor
  lt := fun left right => decide (left < right)
  le := fun left right => decide (left ≤ right)
  one_pos := by
    rw [decide_eq_false_iff_not, not_le, Nat.cast_zero, Nat.cast_one]
    exact zero_lt_one
  share_le_one := by
    intro part whole within positive
    rw [decide_eq_false_iff_not, not_lt, Nat.cast_one]
    apply div_le_one_of_le₀
    · exact Nat.cast_le.mpr within
    · positivity

/-- The bucket and the fingerprint of a hash value. -/
@[ext]
structure HashPair where
  index : Nat
  fingerprint : Nat
deriving DecidableEq

/-- `bucket_insert`. -/
def bucketInsert (chain : List Nat) (fingerprint : Nat) : List Nat :=
  fingerprint :: chain

/-- `bucket_remove`, with whether an entry was removed. -/
def bucketRemove : List Nat → Nat → List Nat × Bool
  | [], _ => ([], false)
  | first :: next, fingerprint =>
    if first = fingerprint then
      (next, true)
    else
      let rest := bucketRemove next fingerprint
      (first :: rest.1, rest.2)

/-- `bucket_contains`. -/
def bucketContains : List Nat → Nat → Bool
  | [], _ => false
  | first :: next, fingerprint =>
    if first = fingerprint then true
    else bucketContains next fingerprint

/-- `bucket_is_empty`. -/
def bucketIsEmpty (chain : List Nat) : Bool :=
  chain.isEmpty

/-- The chains of an array with the bitset of those in use. -/
structure Buckets where
  chains : Nat → List Nat
  bits : Nat → Bool
  marked : ∀ index, bits index = !bucketIsEmpty (chains index)

variable {chain : List Nat} {fingerprint : Nat}

namespace Buckets

/-- Cleared memory. -/
def empty : Buckets where
  chains := fun _ => []
  bits := fun _ => false
  marked := fun _ => rfl

/-- Put a fingerprint in front of a chain and mark the bucket. -/
def insert (buckets : Buckets) (pair : HashPair) : Buckets where
  chains := Function.update buckets.chains pair.index
    (bucketInsert (buckets.chains pair.index) pair.fingerprint)
  bits := Function.update buckets.bits pair.index true
  marked := by
    intro index
    by_cases same : index = pair.index
    · rw [same, update_self, update_self]
      rfl
    · rw [update_of_ne same, update_of_ne same]
      exact buckets.marked index

/-- The body of the loop of `elastic_bloom_filter_add`. -/
def add (buckets : Buckets) (pair : HashPair) : Buckets × Bool :=
  if bucketContains (buckets.chains pair.index) pair.fingerprint then
    (buckets, false)
  else
    (buckets.insert pair, true)

/-- The body of the loop of `elastic_bloom_filter_contains`. -/
def contains (buckets : Buckets) (pair : HashPair) : Bool :=
  buckets.bits pair.index && bucketContains (buckets.chains pair.index) pair.fingerprint

theorem bucketRemove_of_not_removed (kept : (bucketRemove chain fingerprint).2 = false) :
    (bucketRemove chain fingerprint).1 = chain := by
  induction chain with
  | nil => rfl
  | cons first next ih =>
    by_cases same : first = fingerprint
    · simp [bucketRemove, same] at kept
    · simp only [bucketRemove, if_neg same] at kept ⊢
      rw [ih kept]

theorem bucketRemove_of_removed (removed : (bucketRemove chain fingerprint).2 = true) :
    bucketIsEmpty chain = false := by
  cases chain with
  | nil => cases removed
  | cons first next => rfl

/-- The loop of `elastic_bloom_filter_remove`; a bit is cleared where the last entry goes. -/
def remove (buckets : Buckets) (pair : HashPair) : Buckets × Bool :=
  let result := bucketRemove (buckets.chains pair.index) pair.fingerprint
  ({  chains := Function.update buckets.chains pair.index result.1
      bits :=
        if result.2 && bucketIsEmpty result.1 then
          Function.update buckets.bits pair.index false
        else
          buckets.bits
      marked := by
        intro index
        by_cases same : index = pair.index
        · rw [same, update_self]
          cases removed : result.2 with
          | false =>
            rw [Bool.false_and, if_neg Bool.false_ne_true, bucketRemove_of_not_removed removed]
            exact buckets.marked pair.index
          | true =>
            have used := bucketRemove_of_removed removed
            cases left : bucketIsEmpty result.1 with
            | false =>
              rw [Bool.and_false, if_neg Bool.false_ne_true, buckets.marked, used]
            | true =>
              rw [Bool.and_true, if_pos rfl, update_self]
              rfl
        · rw [update_of_ne same]
          split
          · rw [update_of_ne same]
            exact buckets.marked index
          · exact buckets.marked index },
    result.2)

/-- Redistribute the fingerprints of a chain. -/
def spread (move : HashPair → HashPair) (index : Nat) (fresh : Buckets)
    (chain : List Nat) : Buckets :=
  chain.foldl (fun fresh fingerprint => fresh.insert (move ⟨index, fingerprint⟩)) fresh

/-- Redistribute all fingerprints of an array over cleared buckets. -/
def redistribute (move : HashPair → HashPair) (bucketCount : Nat) (buckets : Buckets) : Buckets :=
  (List.range bucketCount).foldl (fun fresh index =>
    fresh.spread move index (buckets.chains index)) empty

end Buckets

/-- `elastic_bloom_filter_t`; its `size` is always the number of buckets. -/
structure ElasticBloomFilter (Single : Type) where
  bucketCount : Nat
  buckets : Buckets
  hashCount : UInt32
  seedA : UInt64
  seedB : UInt64
  omega : Single
  fpBits : UInt32
  count : UInt64
  bucketCount_pos : 0 < bucketCount

/-- A fingerprint 0 means empty and is replaced. -/
def nonzero (fingerprint : Nat) : Nat :=
  if fingerprint = 0 then 1 else fingerprint

section
variable {Single : Type} (float : SinglePrecision Single) (xxh3 : Bytes → UInt64 → UInt64)

/-- `EBF_DEFAULT_FP_BITS`. -/
def ebfDefaultFpBits : UInt32 := 8

/-- `elastic_bloom_filter_create`. -/
def elasticBloomFilterCreate (size : Nat) (hashCount : UInt32)
    (omega : Single) (fpBits : UInt32) : ElasticBloomFilter Single where
  bucketCount := if size = 0 then 256 else size
  buckets := .empty
  hashCount := if hashCount = 0 then 3 else hashCount
  seedA := 1
  seedB := 2
  omega :=
    if float.le omega (float.ofNat 0) then
      float.div (float.ofNat 3) (float.ofNat 4)
    else
      omega
  fpBits := if fpBits = 0 then ebfDefaultFpBits else fpBits
  count := 0
  bucketCount_pos := by split <;> omega

/-- `compute_hash_pair`; the fingerprint is cut to its bits and to the width of its field. -/
def ElasticBloomFilter.computeHashPair (filter : ElasticBloomFilter Single) (bucketCount : Nat)
    (data : Bytes) (hashIndex : Nat) : HashPair :=
  let hash := (xxh3 data (filter.seedA + UInt64.ofNat hashIndex * filter.seedB)).toNat
  { index := hash % bucketCount
    fingerprint := nonzero (hash / bucketCount %
        ((1 : UInt64) <<< filter.fpBits.toUInt64).toNat % 2 ^ 32) }

/-- The pairs of an element, in the order of the loops. -/
def ElasticBloomFilter.hashPairs (filter : ElasticBloomFilter Single) (bucketCount : Nat)
    (data : Bytes) : List HashPair :=
  (List.range filter.hashCount.toNat).map (filter.computeHashPair xxh3 bucketCount data)

/-- `elastic_bloom_filter_ratio`. -/
def elasticBloomFilterRatio (filter : ElasticBloomFilter Single) : Single :=
  let occupied := (List.range filter.bucketCount).countP fun index =>
    !bucketIsEmpty (filter.buckets.chains index)
  float.div (float.ofNat occupied) (float.ofNat filter.bucketCount)

/-- The new place of a fingerprint in `elastic_bloom_filter_expand`. -/
def expandedPair (pair : HashPair) : HashPair where
  index := pair.index * 2 + pair.fingerprint % 2
  fingerprint := nonzero (pair.fingerprint / 2)

/-- `elastic_bloom_filter_expand`. -/
def elasticBloomFilterExpand (filter : ElasticBloomFilter Single) : ElasticBloomFilter Single :=
  { filter with
    bucketCount := filter.bucketCount * 2
    buckets := filter.buckets.redistribute expandedPair filter.bucketCount
    bucketCount_pos := mul_pos filter.bucketCount_pos Nat.zero_lt_two }

/-- The new place of a fingerprint in `elastic_bloom_filter_compress`. -/
def compressedPair (newBucketCount : Nat) (pair : HashPair) : HashPair where
  index := pair.index % newBucketCount
  fingerprint := pair.fingerprint * 2 % 2 ^ 32 + if newBucketCount ≤ pair.index then 1 else 0

/-- `elastic_bloom_filter_compress`. -/
def elasticBloomFilterCompress (filter : ElasticBloomFilter Single) : ElasticBloomFilter Single :=
  if large : 16 < filter.bucketCount then
    { filter with
      bucketCount := filter.bucketCount / 2
      buckets := filter.buckets.redistribute
        (compressedPair (filter.bucketCount / 2)) filter.bucketCount
      bucketCount_pos := by omega }
  else
    filter

/-- The loop of `elastic_bloom_filter_add`, with `was_new`. -/
def addPairs : List HashPair → Buckets → Buckets × Bool
  | [], buckets => (buckets, false)
  | pair :: rest, buckets =>
    let added := buckets.add pair
    let result := addPairs rest added.1
    (result.1, added.2 || result.2)

/-- The loop of `elastic_bloom_filter_remove`, with `removed`. -/
def removePairs : List HashPair → Buckets → Buckets × Bool
  | [], buckets => (buckets, false)
  | pair :: rest, buckets =>
    let removed := buckets.remove pair
    let result := removePairs rest removed.1
    (result.1, removed.2 || result.2)

/-- The filter is too full. -/
def overfull (filter : ElasticBloomFilter Single) : Bool :=
  float.lt filter.omega (elasticBloomFilterRatio float filter)

/-- The filter is too empty and may be halved. -/
def underfull (filter : ElasticBloomFilter Single) : Bool :=
  float.lt (elasticBloomFilterRatio float filter) (float.div filter.omega (float.ofNat 4)) &&
    decide (16 < filter.bucketCount)

/-- The filter once the pairs of an element are entered. -/
def ElasticBloomFilter.filled (filter : ElasticBloomFilter Single) (data : Bytes) :
    ElasticBloomFilter Single :=
  { filter with
    buckets := (addPairs (filter.hashPairs xxh3 filter.bucketCount data) filter.buckets).1 }

/-- `elastic_bloom_filter_add`. -/
def elasticBloomFilterAdd (filter : ElasticBloomFilter Single)
    (data : Bytes) : ElasticBloomFilter Single × Bool :=
  let wasNew := (addPairs (filter.hashPairs xxh3 filter.bucketCount data) filter.buckets).2
  let filled := filter.filled xxh3 data
  if wasNew then
    let counted := { filled with count := filled.count + 1 }
    (if overfull float counted then elasticBloomFilterExpand counted
      else counted, true)
  else
    (filled, false)

/-- `elastic_bloom_filter_contains`. -/
def elasticBloomFilterContains (filter : ElasticBloomFilter Single) (data : Bytes) : Bool :=
  (filter.hashPairs xxh3 filter.bucketCount data).all filter.buckets.contains

/-- The filter once the pairs of an element are removed. -/
def ElasticBloomFilter.emptied (filter : ElasticBloomFilter Single) (data : Bytes) :
    ElasticBloomFilter Single :=
  { filter with
    buckets := (removePairs (filter.hashPairs xxh3 filter.bucketCount data) filter.buckets).1 }

/-- `elastic_bloom_filter_remove`. -/
def elasticBloomFilterRemove (filter : ElasticBloomFilter Single)
    (data : Bytes) : ElasticBloomFilter Single × Bool :=
  let removed := (removePairs (filter.hashPairs xxh3 filter.bucketCount data) filter.buckets).2
  let emptied := filter.emptied xxh3 data
  if removed then
    let counted := { emptied with count := emptied.count - 1 }
    (if underfull float counted then elasticBloomFilterCompress counted
      else counted, true)
  else
    (emptied, false)

end

theorem bucketRemove_eq_erase : (bucketRemove chain fingerprint).1 = chain.erase fingerprint := by
  induction chain with
  | nil => rfl
  | cons first next ih =>
    rw [bucketRemove, erase_cons]
    by_cases same : first = fingerprint
    · simp [same]
    · simp [same, ih]

theorem bucketContains_iff : bucketContains chain fingerprint = true ↔ fingerprint ∈ chain := by
  induction chain with
  | nil => simp [bucketContains]
  | cons first next ih =>
    by_cases same : first = fingerprint
    · simp [bucketContains, same]
    · simp [bucketContains, same, Ne.symm same, ih]

namespace Buckets

open Library.Multiplicity

/-- How often a bucket holds a fingerprint. -/
def copies (buckets : Buckets) (pair : HashPair) : Nat :=
  (buckets.chains pair.index).count pair.fingerprint

variable {buckets : Buckets} {pair : HashPair}

theorem copies_pos_iff : 0 < buckets.copies pair ↔ pair.fingerprint ∈ buckets.chains pair.index :=
  count_pos_iff

/-- The bit of a bucket in use is set, so the chain alone decides. -/
theorem contains_iff : buckets.contains pair = true ↔ 0 < buckets.copies pair := by
  rw [contains, Bool.and_eq_true, bucketContains_iff, copies_pos_iff, buckets.marked]
  constructor
  · exact And.right
  · intro member
    constructor
    · cases chain : buckets.chains pair.index with
      | nil =>
        rw [chain] at member
        cases member
      | cons first next => rfl
    · exact member

theorem copies_insert (buckets : Buckets) :
    (buckets.insert pair).copies other = buckets.copies other + if other = pair then 1 else 0 := by
  rw [copies, copies]
  change (Function.update buckets.chains pair.index
    (pair.fingerprint :: buckets.chains pair.index) other.index).count _ = _
  by_cases same : other.index = pair.index
  · rw [same, update_self, count_cons]
    simp only [beq_iff_eq, HashPair.ext_iff, same, true_and, @eq_comm _ pair.fingerprint]
  · rw [update_of_ne same, if_neg]
    · rfl
    · rintro rfl
      exact same rfl

theorem copies_insert_pos_iff {other : HashPair} :
    0 < (buckets.insert pair).copies other ↔ other = pair ∨ 0 < buckets.copies other := by
  rw [copies_insert]
  split <;> simp_all

theorem copies_add (buckets : Buckets) :
    (buckets.add pair).1.copies = enter buckets.copies pair := by
  ext other
  rw [add, enter]
  by_cases held : bucketContains (buckets.chains pair.index) pair.fingerprint = true
  · rw [if_pos held]
    have positive := copies_pos_iff.mpr (bucketContains_iff.mp held)
    change buckets.copies other = _
    split
    · rename_i same
      rw [same]
      omega
    · rfl
  · rw [if_neg held, copies_insert]
    have missing : ¬ 0 < buckets.copies pair :=
      fun positive => held (bucketContains_iff.mpr (copies_pos_iff.mp positive))
    split
    · rename_i same
      rw [same]
      omega
    · rfl

theorem copies_remove (buckets : Buckets) :
    (buckets.remove pair).1.copies = withdraw buckets.copies pair := by
  ext other
  rw [withdraw, copies, copies]
  change (Function.update buckets.chains pair.index
    (bucketRemove (buckets.chains pair.index) pair.fingerprint).1 other.index).count _ = _
  by_cases same : other.index = pair.index
  · rw [same, update_self, bucketRemove_eq_erase, count_erase]
    simp only [beq_iff_eq, HashPair.ext_iff, same, true_and, @eq_comm _ pair.fingerprint]
    split <;> simp_all
  · rw [update_of_ne same, if_neg]
    rintro rfl
    exact same rfl

theorem copies_addPairs (buckets : Buckets) :
    (addPairs pairs buckets).1.copies = enterAll buckets.copies pairs := by
  induction pairs generalizing buckets with
  | nil => rfl
  | cons pair rest ih =>
    change (addPairs rest (buckets.add pair).1).1.copies = _
    rw [ih, copies_add]
    rfl

theorem copies_removePairs (buckets : Buckets) :
    (removePairs pairs buckets).1.copies = withdrawAll buckets.copies pairs := by
  induction pairs generalizing buckets with
  | nil => rfl
  | cons pair rest ih =>
    change (removePairs rest (buckets.remove pair).1).1.copies = _
    rw [ih, copies_remove]
    rfl

theorem copies_spread_pos_iff {index : Nat} {fresh : Buckets} :
    0 < (fresh.spread move index chain).copies pair ↔
      (∃ fingerprint ∈ chain, move ⟨index, fingerprint⟩ = pair) ∨ 0 < fresh.copies pair := by
  induction chain generalizing fresh with
  | nil => simp [spread]
  | cons first next ih =>
    change 0 < ((fresh.insert (move ⟨index, first⟩)).spread move index next).copies pair ↔ _
    rw [ih, copies_insert_pos_iff, @eq_comm _ pair]
    simp only [mem_cons, exists_eq_or_imp]
    rw [or_left_comm, or_assoc]

theorem copies_redistribute_pos_iff {bucketCount : Nat} :
    0 < (buckets.redistribute move bucketCount).copies pair ↔
      ∃ stored, stored.index < bucketCount ∧ 0 < buckets.copies stored ∧ move stored = pair := by
  induction bucketCount with
  | zero => simp [redistribute, copies, empty]
  | succ count ih =>
    rw [redistribute, range_succ, foldl_append]
    change 0 < ((buckets.redistribute move count).spread move count
      (buckets.chains count)).copies pair ↔ _
    rw [copies_spread_pos_iff, ih]
    constructor
    · rintro (⟨fingerprint, member, moved⟩ | ⟨stored, below, held, moved⟩)
      · exact ⟨⟨count, fingerprint⟩, Nat.lt_succ_self count, copies_pos_iff.mpr member, moved⟩
      · exact ⟨stored, Nat.lt_succ_of_lt below, held, moved⟩
    · rintro ⟨⟨index, fingerprint⟩, below, held, moved⟩
      rcases Nat.lt_succ_iff_lt_or_eq.mp below with lower | rfl
      · exact .inr ⟨_, lower, held, moved⟩
      · exact .inl ⟨fingerprint, copies_pos_iff.mp held, moved⟩

end Buckets

/-- An element is found exactly when all its pairs are held. -/
theorem elasticBloomFilterContains_iff {Single : Type} {xxh3 : Bytes → UInt64 → UInt64}
    {filter : ElasticBloomFilter Single} {data : Bytes} :
    elasticBloomFilterContains xxh3 filter data = true ↔ Multiplicity.Covers filter.buckets.copies
        (filter.hashPairs xxh3 filter.bucketCount data) := by
  rw [elasticBloomFilterContains, all_eq_true]
  apply forall₂_congr
  intro pair _
  exact Buckets.contains_iff

end Liboffs.Bloom

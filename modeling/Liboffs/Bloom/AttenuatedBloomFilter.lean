import Liboffs.Bloom.FalseNegatives

/-!
# Attenuated Bloom filters

An attenuated filter has an elastic filter for every distance in hops.  The
filter of a peer is merged one hop further away, and every topic should go
along.  The merge reports success also where the arrays of two levels differ
in size, and such a level is left as it is.
-/

namespace Liboffs.Bloom

open Library Library.ByteOrder Library.Multiplicity List

/-- `attenuated_bloom_filter_t`, with the local topics in the first level. -/
structure AttenuatedBloomFilter (Single : Type) where
  levels : List (ElasticBloomFilter Single)

section
variable {Single : Type} (float : SinglePrecision Single) (xxh3 : Bytes → UInt64 → UInt64)

/-- `attenuated_bloom_filter_create`. -/
def attenuatedBloomFilterCreate (levels : UInt32) (size : Nat) (hashCount : UInt32)
    (omega : Single) (fpBits : UInt32) : AttenuatedBloomFilter Single where
  levels := replicate (if levels = 0 then 4 else levels.toNat)
    (elasticBloomFilterCreate float size hashCount omega fpBits)

/-- `attenuated_bloom_filter_subscribe`. -/
def attenuatedBloomFilterSubscribe (filter : AttenuatedBloomFilter Single) (topic : Bytes) :
    AttenuatedBloomFilter Single × Bool :=
  match filter.levels with
  | [] => (filter, false)
  | own :: remote =>
    let added := elasticBloomFilterAdd float xxh3 own topic
    (⟨added.1 :: remote⟩, added.2)

/-- The stored fingerprints with their buckets, in the order of the loops. -/
def Buckets.pairs (buckets : Buckets) (bucketCount : Nat) : List HashPair :=
  (range bucketCount).flatMap fun index => (buckets.chains index).map (HashPair.mk index)

/-- `elastic_bloom_filter_merge`; the union of the bitsets marks the same buckets. -/
def elasticBloomFilterMerge (dest src : ElasticBloomFilter Single) :
    ElasticBloomFilter Single × Int :=
  if dest.bucketCount = src.bucketCount then
    ({ dest with
        buckets := (addPairs (src.buckets.pairs src.bucketCount) dest.buckets).1 }, 0)
  else
    (dest, -1)

/-- `attenuated_bloom_filter_merge`, which drops the results of the levels. -/
def attenuatedBloomFilterMerge (dest src : AttenuatedBloomFilter Single) :
    AttenuatedBloomFilter Single × Int :=
  if dest.levels.length = src.levels.length then
    (⟨dest.levels.take 1 ++ zipWith (fun level remote => (elasticBloomFilterMerge level remote).1)
      dest.levels.tail src.levels⟩, 0)
  else
    (dest, -1)

/-- Every topic of the first filter is in the second. -/
def Within (first second : ElasticBloomFilter Single) : Prop :=
  ∀ topic, elasticBloomFilterContains xxh3 first topic = true →
    elasticBloomFilterContains xxh3 second topic = true

/-- The topics have gone one level further, and none has been lost. -/
structure LosesNothing (dest src after : AttenuatedBloomFilter Single) : Prop where
  passed : Forall₂ (Within xxh3) src.levels.dropLast after.levels.tail
  kept : Forall₂ (Within xxh3) dest.levels after.levels
  unchanged : after.levels.head? = dest.levels.head?

/-- The pairs at which a topic is looked up are held, or by a source of the same size. -/
def Passes (src dest : ElasticBloomFilter Single) : Prop :=
  ∀ topic, elasticBloomFilterContains xxh3 src topic = true →
    ∀ pair ∈ dest.hashPairs xxh3 dest.bucketCount topic, 0 < dest.buckets.copies pair ∨
      dest.bucketCount = src.bucketCount ∧ 0 < src.buckets.copies pair

variable {float xxh3} {dest src : ElasticBloomFilter Single}

theorem mem_pairs_iff {buckets : Buckets} {bucketCount : Nat} {pair : HashPair} :
    pair ∈ buckets.pairs bucketCount ↔ pair.index < bucketCount ∧ 0 < buckets.copies pair := by
  rw [Buckets.copies_pos_iff]
  constructor
  · simp only [Buckets.pairs, mem_flatMap, mem_range, mem_map]
    rintro ⟨index, inside, fingerprint, member, rfl⟩
    exact ⟨inside, member⟩
  · rintro ⟨inside, member⟩
    exact mem_flatMap.mpr ⟨_, mem_range.mpr inside, mem_map.mpr ⟨_, member, rfl⟩⟩

theorem contains_merge_iff {topic : Bytes} :
    elasticBloomFilterContains xxh3 (elasticBloomFilterMerge dest src).1 topic = true ↔
      ∀ pair ∈ dest.hashPairs xxh3 dest.bucketCount topic, 0 < dest.buckets.copies pair ∨
        dest.bucketCount = src.bucketCount ∧ 0 < src.buckets.copies pair := by
  rw [elasticBloomFilterContains_iff, elasticBloomFilterMerge]
  split
  · rename_i same
    apply forall₂_congr
    intro pair member
    obtain ⟨hashIndex, _, rfl⟩ := mem_map.mp member
    have inside := Nat.mod_lt (xxh3 topic (dest.seedA + UInt64.ofNat hashIndex * dest.seedB)).toNat
      dest.bucketCount_pos
    rw [Buckets.copies_addPairs, enterAll_pos_iff, mem_pairs_iff, or_comm, ← same]
    exact or_congr_right (and_congr_left' (iff_of_true inside rfl))
  · rename_i different
    simp [Covers, different]

variable (xxh3) in
/-- A merge of levels keeps the topics, and passes them on where it can. -/
theorem merge_levels (length : sources.length = dests.length + 1) :
    Forall₂ (Within xxh3) dests
        (zipWith (fun level remote => (elasticBloomFilterMerge level remote).1) dests sources) ∧
      (Forall₂ (Within xxh3) sources.dropLast
          (zipWith (fun level remote => (elasticBloomFilterMerge level remote).1) dests sources) ↔
        Forall₂ (Passes xxh3) sources.dropLast dests) := by
  induction dests generalizing sources with
  | nil =>
    obtain ⟨last, rfl⟩ := length_eq_one_iff.mp length
    simp
  | cons dest dests ih =>
    obtain ⟨first, second, rest, rfl⟩ : ∃ first second rest, sources = first :: second :: rest := by
      match sources with
      | first :: second :: rest => exact ⟨first, second, rest, rfl⟩
    obtain ⟨kept, passed⟩ := ih (Nat.succ.inj length)
    constructor
    · refine .cons (fun topic contained => contains_merge_iff.mpr fun pair member => ?_) kept
      exact Or.inl (elasticBloomFilterContains_iff.mp contained pair member)
    · rw [dropLast_cons_cons, zipWith_cons_cons, forall₂_cons, forall₂_cons, passed]
      exact and_congr_left' (forall₂_congr fun _ _ => contains_merge_iff)

end

/-- A merge loses nothing exactly if every level passes the topics of the source on. -/
theorem merge_loses_nothing_iff {Single : Type} (xxh3 : Bytes → UInt64 → UInt64)
    (dest src : AttenuatedBloomFilter Single) :
    ((attenuatedBloomFilterMerge dest src).2 = 0 →
        LosesNothing xxh3 dest src (attenuatedBloomFilterMerge dest src).1) ↔
      (dest.levels.length = src.levels.length →
        Forall₂ (Passes xxh3) src.levels.dropLast dest.levels.tail) := by
  rcases dest with ⟨levels⟩
  rw [attenuatedBloomFilterMerge]
  split
  · rename_i length
    cases levels with
    | nil =>
      have empty : src.levels = [] := length_eq_zero_iff.mp length.symm
      exact iff_of_true (fun _ => ⟨by simp [empty], by simp, rfl⟩) (by simp [empty])
    | cons own remote =>
      obtain ⟨kept, passed⟩ := merge_levels xxh3 length.symm
      constructor
      · exact fun merged _ => passed.mp (merged rfl).passed
      · exact fun passes _ =>
          ⟨passed.mpr (passes length), .cons (fun _ contained => contained) kept, rfl⟩
  · rename_i different
    exact iff_of_true (fun success => by cases success) (fun same => absurd same different)

/-- Two levels of two buckets without topics. -/
def twoLevels : AttenuatedBloomFilter ℚ :=
  attenuatedBloomFilterCreate exactArithmetic 2 2 1 (3 / 4) 8

/-- The first level grows with its second topic. -/
def grownLevels : AttenuatedBloomFilter ℚ :=
  (attenuatedBloomFilterSubscribe exactArithmetic firstByte
    (attenuatedBloomFilterSubscribe exactArithmetic firstByte twoLevels [1]).1 [2]).1

/-- A merge reports success, and the topic of the peer is nowhere. -/
theorem grown_level_is_not_merged :
    (attenuatedBloomFilterMerge twoLevels grownLevels).2 = 0 ∧
      grownLevels.levels.map (elasticBloomFilterContains firstByte · [1]) = [true, false] ∧
      (attenuatedBloomFilterMerge twoLevels grownLevels).1.levels.map
        (elasticBloomFilterContains firstByte · [1]) = [false, false] := by
  decide +kernel

end Liboffs.Bloom

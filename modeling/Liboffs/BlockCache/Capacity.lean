import Liboffs.BlockCache.PendingGets

/-!
# The accounts of the cache

The cache counts its entries and their bytes itself, and corrects the counts
only when its capacity is set.  They are right in every state of a run exactly
if they were right at the start, no removal or release deletes a hash that
the index does not hold, and the bytes of all blocks fit the counter.
-/

namespace Liboffs.BlockCache

open Library Library.ByteOrder Library.FileSlots Option

/-- The counters tell the number of entries and the bytes of their blocks. -/
structure Exact (cache : Cache) : Prop where
  entries : cache.entryCount.toNat = indexCount cache.index
  bytes : cache.currentBytes.toNat = indexCount cache.index * cache.type.bytes

/-- The bytes of all blocks can be counted. -/
def Countable (cache : Cache) : Prop :=
  indexCount cache.index * cache.type.bytes < 2 ^ 64

instance (cache : Cache) : Decidable (Countable cache) :=
  Nat.decLt _ _

theorem bytes_lt (type : BlockSize) : type.bytes < 2 ^ 64 := by
  cases type <;> decide

/-- The counters as they are taken from the index. -/
theorem exact_iff_of_recount (entries : cache.entryCount = UInt64.ofNat (indexCount cache.index))
    (bytes : cache.currentBytes = UInt64.ofNat (indexCount cache.index) * cache.typeBytes) :
    Exact cache ↔ Countable cache := by
  constructor
  · intro right
    rw [Countable, ← right.bytes]
    exact cache.currentBytes.toNat_lt
  · intro countable
    have small := lt_of_le_of_lt (Nat.le_mul_of_pos_right _ cache.type.bytes_pos) countable
    constructor
    · rw [entries, UInt64.toNat_ofNat', Nat.mod_eq_of_lt small]
    · rw [bytes, UInt64.toNat_mul, UInt64.toNat_ofNat', Cache.typeBytes, UInt64.toNat_ofNat',
        Nat.mod_eq_of_lt (bytes_lt _),
        Nat.mod_eq_of_lt small, Nat.mod_eq_of_lt countable]

namespace Exact

variable {world : World} {cache after : Cache}

section
variable (right : Exact cache)
include right

/-- Exact counters are those that would be taken from the index. -/
theorem entryCount_eq : cache.entryCount = UInt64.ofNat (indexCount cache.index) := by
  rw [← right.entries, UInt64.ofNat_toNat]

theorem currentBytes_eq :
    cache.currentBytes = UInt64.ofNat (indexCount cache.index) * cache.typeBytes := by
  rw [Cache.typeBytes, ← UInt64.ofNat_mul, ← right.bytes, UInt64.ofNat_toNat]

theorem countable : Countable cache :=
  (exact_iff_of_recount right.entryCount_eq right.currentBytes_eq).mp right

theorem of_same (count : indexCount after.index = indexCount cache.index)
    (type : after.type = cache.type) (entries : after.entryCount = cache.entryCount)
    (bytes : after.currentBytes = cache.currentBytes) : Exact after := by
  constructor
  · rw [entries, count]
    exact right.entries
  · rw [bytes, count, type]
    exact right.bytes

theorem touched (touched : Touched cache after) : Exact after :=
  right.of_same touched.keys.indexCount touched.type touched.entryCount touched.currentBytes

end

variable {hash : Hash}

section
variable (right : Exact cache)
include right

/-- The deletion of a known hash. -/
theorem without (found : indexFind cache.index hash = some ref) :
    Exact (cache.without world hash) := by
  have fewer : indexCount (cache.without world hash).index + 1 = indexCount cache.index := by
    have root : (cache.without world hash).index.root =
        cache.index.root.erase Hash.bit cache.index.hashOf hash 0 := by
      simp only [Cache.without, indexRemove, found]
      rfl
    rw [indexCount, indexCount, root]
    exact (BucketTrie.Trie.perm_cons_erase found).length_eq.symm
  have small := right.countable
  rw [Countable, ← fewer, Nat.succ_mul] at small
  have later : Countable (cache.without world hash) :=
    Nat.lt_of_le_of_lt (Nat.le_add_right _ _) small
  apply (exact_iff_of_recount ?_ ?_).mpr later
  · change cache.entryCount - 1 = _
    rw [right.entryCount_eq, ← fewer, UInt64.ofNat_add]
    exact UInt64.add_sub_cancel _ _
  · change cache.currentBytes - cache.typeBytes = _
    rw [right.currentBytes_eq, ← fewer, UInt64.ofNat_add, UInt64.add_mul]
    change _ + 1 * cache.typeBytes - cache.typeBytes = _
    rw [UInt64.one_mul, UInt64.add_sub_cancel]
    rfl

/-- The deletion of an unknown hash. -/
theorem not_without (absent : indexFind cache.index hash = none) :
    ¬ Exact (cache.without world hash) := by
  intro wrong
  have same : (cache.without world hash).index = cache.index :=
    indexRemove_of_absent absent
  have entries := wrong.entryCount_eq
  rw [same, ← right.entryCount_eq] at entries
  have impossible : (1 : UInt64) = 0 := UInt64.left_eq_add.mp (UInt64.sub_eq_iff_eq_add.mp entries)
  cases impossible

/-- The addition of a new hash. -/
theorem stores_iff (wellFormed : cache.index.WellFormed) (stores : Stores cache after put) :
    Exact after ↔ Countable after := by
  rcases stores.index wellFormed with ⟨slot, adds⟩
  have more := adds.indexCount wellFormed
  have type : after.typeBytes = cache.typeBytes := by
    rw [Cache.typeBytes, stores.rest]
    rfl
  apply exact_iff_of_recount
  · rw [stores.entryCount, right.entryCount_eq, more, UInt64.ofNat_add]
    rfl
  · rw [stores.currentBytes, right.currentBytes_eq, more, UInt64.ofNat_add, UInt64.add_mul, type]
    change _ = _ + 1 * cache.typeBytes
    rw [UInt64.one_mul]

theorem resize : Exact (cacheResize cache maxCapacityBytes) := by
  unfold cacheResize
  split
  · exact (exact_iff_of_recount rfl rfl).mpr right.countable
  · exact right.of_same rfl rfl rfl rfl

theorem get {get : CacheGet} {outcome : GetOutcome}
    (effect : GetEffect world cache get after outcome) : Exact after := by
  cases effect with
  | answered reply plain => exact right
  | recalled | waiting | missed => exact right.of_same rfl rfl rfl rfl
  | loaded ref block store _ found hash reads remembers direct =>
    have kept : Exact { cache.withStore store with lru := after.lru } :=
      right.of_same rfl rfl rfl rfl
    exact kept.touched remembers.rest.toTouched

theorem receive (effect : ReceiveEffect world cache sectionId sectionIndex data after block) :
    Exact after := by
  cases effect with
  | ignored idle => exact right
  | mismatched bytes first found arrived wrong => exact right.of_same rfl rfl rfl rfl
  | verified bytes first value kept found arrived matched remembers =>
    have before : Exact
        { cache with
          pendingGets := cache.pendingGets.eraseP (waitsFor cache sectionId sectionIndex)
          lru := kept.lru } :=
      right.of_same rfl rfl rfl rfl
    exact (before.touched remembers.rest.toTouched).of_same rfl rfl rfl rfl

theorem deletesIf_iff (done : DeletesIf world cache after hash deletes) :
    Exact after ↔ (deletes && (indexFind cache.index hash).isNone) = false := by
  rcases done with ⟨changed, changes, rfl⟩
  have kept := right.touched changes.toTouched
  cases deletes with
  | false => exact iff_of_true kept rfl
  | true =>
    rw [if_pos rfl, ← changes.keys.indexFind]
    cases found : indexFind changed.index hash with
    | none => exact iff_of_false (kept.not_without found) (by simp)
    | some ref => exact iff_of_true (kept.without found) rfl

end

end Exact

/-- A removal or a release deletes a hash that the index does not hold. -/
def strays (cache : Cache) : CacheStep → Bool
  | .cache (.remove hash force) => removes cache hash force && (indexFind cache.index hash).isNone
  | .cache (.ephemeral op hash) => releasesLast cache op hash && (indexFind cache.index hash).isNone
  | _ => false

/-- What a step needs to keep the accounts exact. -/
structure Accountable (world : World) (cache : Cache) (step : CacheStep) : Prop where
  known : strays cache step = false
  countable : ∀ after, cacheStep world cache step = some after → Countable after

instance (world : World) (cache : Cache) (step : CacheStep) :
    Decidable (Accountable world cache step) :=
  decidable_of_iff
    (strays cache step = false ∧ ∀ after ∈ cacheStep world cache step, Countable after)
    ⟨fun holds => ⟨holds.1, holds.2⟩, fun holds => ⟨holds.known, holds.countable⟩⟩

variable {step : CacheStep}

section
variable {world : World} {cache after : Cache}

theorem strays_of_quiet (still : quiet step = true) : strays cache step = false := by
  unfold quiet at still
  split at still <;> first | rfl | cases still

theorem exact_cacheStep_iff (wellFormed : cache.index.WellFormed) (right : Exact cache)
    (stepped : cacheStep world cache step = some after) :
    Exact after ↔ Accountable world cache step := by
  have kept (later : Exact after) (known : strays cache step = false) :
      Exact after ↔ strays cache step = false ∧ Countable after :=
    iff_of_true later ⟨known, later.countable⟩
  have delete (cache : Cache) (hash : Hash) (ref : EntryRef)
      (holds : cache.index.WellFormed ∧ Exact cache)
      (found : indexFind cache.index hash = some ref) :
      (cache.without world hash).index.WellFormed ∧ Exact (cache.without world hash) :=
    ⟨wellFormed_without holds.1 hash, holds.2.without found⟩
  have accountable : Accountable world cache step ↔ strays cache step = false ∧ Countable after :=
    ⟨fun accountable => ⟨accountable.known, accountable.countable after stepped⟩,
      fun ⟨known, countable⟩ => ⟨known, fun other again => by
        cases stepped.symm.trans again
        exact countable⟩⟩
  rw [accountable]
  cases cacheStep_cases stepped with
  | touched still changes => exact kept (right.touched changes) (strays_of_quiet still)
  | unstored changes => exact kept (right.touched changes) rfl
  | stored accepted stores =>
    rw [right.stores_iff wellFormed stores]
    exact ⟨fun countable => ⟨rfl, countable⟩, And.right⟩
  | ended swept tombs next ran =>
    have later : swept.index.WellFormed ∧ Exact swept :=
      deleteRecorded_rule (fun _ _ holds touched =>
          ⟨touched.wellFormed holds.1, holds.2.touched touched.toTouched⟩)
        delete ⟨wellFormed, right⟩ ran
    exact kept (later.2.of_same rfl rfl rfl rfl) rfl
  | resized => exact kept right.resize rfl
  | collected done =>
    have later := cacheGc_rule (fun _ holds => holds.1) delete ⟨wellFormed, right⟩ done
    exact kept later.2 rfl
  | got effect => exact kept (right.get effect) rfl
  | removed done =>
    have exactly := right.deletesIf_iff done
    exact ⟨fun later => ⟨exactly.mp later, later.countable⟩, fun holds => exactly.mpr holds.1⟩
  | counted done =>
    have exactly := right.deletesIf_iff done
    exact ⟨fun later => ⟨exactly.mp later, later.countable⟩, fun holds => exactly.mpr holds.1⟩
  | received effect => exact kept ((right.receive effect).of_same rfl rfl rfl rfl) rfl

end

/-- No counter grows in a step in which the index does not grow. -/
def NeverWraps (world : World) (cache : Cache) (step : CacheStep) : Prop :=
  ∀ after, cacheStep world cache step = some after →
    indexCount after.index ≤ indexCount cache.index → after.entryCount ≤ cache.entryCount ∧
        after.currentBytes ≤ cache.currentBytes

variable {world : World}

theorem exact_blockCacheCreate_iff
    (created : blockCacheCreate world config files write = some start) :
    Exact start ↔ Countable start ∧ (config.maxCapacityBytes = 0 → indexCount start.index = 0) := by
  rcases bind_eq_some_iff.mp created with ⟨store, _, created⟩
  rcases map_eq_some_iff.mp created with ⟨made, _, rfl⟩
  split
  · rename_i capped
    have positive := (UInt64.ne_of_lt capped).symm
    simp only [positive, false_imp_iff, and_true]
    exact exact_iff_of_recount rfl rfl
  · rename_i uncapped
    have zero := UInt64.le_zero_iff.mp (UInt64.not_lt.mp uncapped)
    simp only [zero, true_imp_iff]
    constructor
    · intro right
      exact ⟨right.countable, right.entries.symm⟩
    · rintro ⟨_, empty⟩
      constructor
      · exact empty.symm
      · rw [empty, zero_mul]
        rfl

theorem currentBytes_le_of_new (done : cachePut world cache put now = some (after, result))
    (new : result.result = .new) (capped : 0 < after.maxCapacityBytes) :
    after.currentBytes ≤ after.maxCapacityBytes := by
  rcases cachePut_cases done with ⟨_, _, known⟩ | ⟨_, failed⟩ | ⟨accepted, stores, _⟩
  · rw [new] at known
    cases known
  · rw [new] at failed
    rcases failed with failed | failed
    · cases failed
    · cases failed
  · have cap : after.maxCapacityBytes = cache.maxCapacityBytes := by
      rw [stores.rest]
    rw [cap] at capped
    simp only [refusesPut, capped, decide_true, Bool.true_and,
      Bool.or_eq_false_iff, decide_eq_false_iff_not] at accepted
    rw [stores.currentBytes, cap]
    exact UInt64.not_lt.mp accepted.1

/--
From the creation of the cache on, the accounts are exact and no counter wraps exactly if a cache
without a capacity starts empty, only indexed hashes are deleted, and the bytes can be counted.
-/
theorem accounts_exact_iff {world : World} {config : CacheConfig} {files : CacheFiles}
    {write : SnapshotWrite} {start : Cache}
    (created : blockCacheCreate world config files write = some start)
    (sound : start.index.WellFormed) (steps : List CacheStep) :
    ((Runs.Throughout (cacheStep world) Exact start steps ∧
        Runs.EachStep (cacheStep world) (NeverWraps world) start steps) ↔
      (config.maxCapacityBytes = 0 → indexCount start.index = 0) ∧ Countable start ∧
        Runs.EachStep (cacheStep world) (Accountable world) start steps) ∧
      ∀ cache put now after result, cachePut world cache put now = some (after, result) →
          result.result = .new → 0 < after.maxCapacityBytes →
            after.currentBytes ≤ after.maxCapacityBytes := by
  have wellFormed (cache : Cache) (step : CacheStep) (next : Cache)
      (wellFormed : cache.index.WellFormed) (stepped : cacheStep world cache step = some next) :
      next.index.WellFormed :=
    (cacheStep_cases stepped).wellFormed wellFormed
  have exactly (right : Exact start) :=
    Runs.throughout_iff_eachStep wellFormed (fun _ _ _ sound right stepped =>
        exact_cacheStep_iff sound right stepped) steps sound right
  have initial := exact_blockCacheCreate_iff created
  refine ⟨⟨?_, ?_⟩, fun cache put now after result => currentBytes_le_of_new⟩
  · rintro ⟨throughout, _⟩
    have right := throughout.head
    exact ⟨(initial.mp right).2, right.countable, (exactly right).mp throughout⟩
  · rintro ⟨empty, countable, each⟩
    have right := initial.mpr ⟨countable, empty⟩
    constructor
    · exact (exactly right).mpr each
    · apply each.imp (show ∀ cache step next, cache.index.WellFormed ∧ Exact cache →
          Accountable world cache step → cacheStep world cache step = some next →
              next.index.WellFormed ∧ Exact next from
          fun cache step next holds accountable stepped =>
            ⟨wellFormed cache step next holds.1 stepped,
              (exact_cacheStep_iff holds.1 holds.2 stepped).mpr accountable⟩)
      · intro cache step next holds accountable stepped
        have later := (exact_cacheStep_iff holds.1 holds.2 stepped).mpr accountable
        intro other again fewer
        rw [stepped] at again
        cases again
        constructor
        · rw [UInt64.le_iff_toNat_le, holds.2.entries, later.entries]
          exact fewer
        · rw [UInt64.le_iff_toNat_le, holds.2.bytes, later.bytes, (kept_cacheStep stepped).1]
          exact Nat.mul_le_mul_right _ fewer
      · exact ⟨sound, right⟩

/-- The tiny cache with room for three blocks. -/
def cappedConfig : CacheConfig :=
  { tinyConfig with maxCapacityBytes := 500 }

/-- Create the cache with a capacity in new directories. -/
def createCapped : Option Cache :=
  blockCacheCreate (smallWorld reliableIo) cappedConfig (CacheFiles.fresh .nano) .complete

/-- Puts and the removal of a known block. -/
theorem removed_block_is_accounted :
    ∃ start, createCapped = some start ∧
      Runs.Throughout (cacheStep (smallWorld reliableIo)) Exact start
        [putNano 1, putNano 2, .cache (.remove (nanoBlock 1).hash false), putNano 3] := by
  obtain ⟨start, created, empty, countable, each⟩ : ∃ start, createCapped = some start ∧
      indexCount start.index = 0 ∧ Countable start ∧
      Runs.EachStep (cacheStep (smallWorld reliableIo)) (Accountable (smallWorld reliableIo)) start
        [putNano 1, putNano 2, .cache (.remove (nanoBlock 1).hash false), putNano 3] := by
    decide +kernel
  have wellFormed := (blank_blockCacheCreate reliable_reliableIo
    ⟨by decide, by decide⟩ created).wellFormed
  have exactly := (accounts_exact_iff created wellFormed
    [putNano 1, putNano 2, .cache (.remove (nanoBlock 1).hash false), putNano 3]).1
  exact ⟨start, created, (exactly.mpr ⟨fun _ => empty, countable, each⟩).1⟩

/--
A cache without a capacity does not count what its index has, and one that has revived a block
counts its removal twice.
-/
theorem accounts_go_wrong :
    (∃ start final, restartSmall [.cache (.indexSave .complete), putNano 1] = some start ∧
        cacheRun (smallWorld reliableIo) start
            [.cache (.remove (nanoBlock 1).hash false)] = some final ∧
        indexCount start.index = 1 ∧ start.entryCount = 0 ∧
        start.currentBytes = 0 ∧ indexCount final.index = 0 ∧
        final.entryCount = 0xffffffffffffffff) ∧
      ∃ start final, createCapped = some start ∧ cacheRun (smallWorld reliableIo) start
            [putNano 1, putNano 2, getNano 1 0, .sectionsRead 0 0,
              .cache (.remove (nanoBlock 1).hash false), arriveNano 1 0 0,
              .cache (.remove (nanoBlock 1).hash false)] = some final ∧
        indexCount final.index = 1 ∧ final.entryCount = 0 := by
  simp only [exists_and_left]
  constructor
  · decide +kernel
  · decide +kernel

end Liboffs.BlockCache

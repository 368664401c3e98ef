import Liboffs.BlockCache.SlotOwnership

/-!
# The cache of blocks and the index

Claims, pins and removals look for the entry of a hash in the cache of blocks
first.  They act on the entry of the index as long as every node of the cache
of blocks holds the object that the index has for its hash.

One step breaks this: a read that was sent for an entry arrives after the
entry has left the index, and its block is put in the cache of blocks with
the old object.
-/

namespace Liboffs.BlockCache

open Library Library.ByteOrder Library.FileSlots List Option Recency BlockLruNode

section
variable {size : Nat} {lru after : List BlockLruNode} {block : Block}
variable {entry : EntryRef} {ejected : Option EntryRef}
variable (put : blockLruCachePut size lru block entry = some (after, ejected))

include put

/-- A put adds at most a node for its block, if there is none yet. -/
theorem mem_of_blockLruCachePut {node : BlockLruNode} (member : node ∈ after) :
    node ∈ lru ∨ node = ⟨block, entry⟩ ∧ 0 < size ∧
      Recency.find BlockLruNode.hash block.hash lru = none := by
  have known {others : List BlockLruNode} (inside : others ⊆ lru) (positive : size ≠ 0)
      (here : node ∈ (find hash block.hash lru).getD ⟨block, entry⟩
          :: without hash block.hash others) :
      node ∈ lru ∨ node = ⟨block, entry⟩ ∧ 0 < size ∧ find hash block.hash lru = none := by
    rcases mem_cons.mp here with rfl | other
    · cases found : find hash block.hash lru with
      | none => exact Or.inr ⟨rfl, pos_of_ne_zero positive, rfl⟩
      | some old => exact Or.inl (mem_of_find found).1
    · exact Or.inl (inside (mem_without.mp other).1)
  unfold blockLruCachePut at put
  split at put
  · cases put
    exact Or.inl member
  · rename_i positive
    simp only at put
    split at put
    · split at put
      · split at put
        · cases put
        · cases put
          exact known (dropLast_sublist _).subset positive member
      · rename_i last
        cases put
        exact known (nil_subset lru) positive member
    · cases put
      exact known (List.Subset.refl lru) positive member

theorem mem_blockLruCachePut (positive : 0 < size)
    (new : Recency.find BlockLruNode.hash block.hash lru = none) :
    (⟨block, entry⟩ : BlockLruNode) ∈ after := by
  unfold blockLruCachePut at put
  rw [if_neg (ne_of_gt positive)] at put
  simp only [new, getD_none, isSome_none] at put
  split at put
  · split at put
    · split at put
      · cases put
      · cases put
        exact mem_cons_self
    · cases put
      exact mem_cons_self
  · cases put
    exact mem_cons_self

end

/-- Every node holds the object that the index has for its hash. -/
def LruIndexed (cache : Cache) : Prop :=
  ∀ node ∈ cache.lru, indexFind cache.index node.hash = some node.entry

/-- The messages that look in the cache of blocks first find the same. -/
theorem LruIndexed.cacheFindEntry {cache : Cache} (indexed : LruIndexed cache) (hash : Hash) :
    cacheFindEntry cache hash = indexFind cache.index hash := by
  unfold BlockCache.cacheFindEntry blockLruCachePeekEntry
  cases found : find BlockLruNode.hash hash cache.lru with
  | none => rfl
  | some node =>
    rcases mem_of_find found with ⟨member, same⟩
    have here := indexed node member
    rw [same] at here
    exact here.symm

namespace LruIndexed

variable {world : World} {cache after : Cache}

section
variable (indexed : LruIndexed cache)
include indexed

theorem touched (touched : Touched cache after) : LruIndexed after := by
  intro node member
  rw [touched.lru] at member
  rw [touched.keys.indexFind]
  exact indexed node member

section
variable (wellFormed : cache.index.WellFormed)
include wellFormed

theorem without (hash : Hash) : LruIndexed (cache.without world hash) := by
  intro node member
  rcases mem_without.mp member with ⟨member, different⟩
  rw [indexFind_without wellFormed, if_neg different]
  exact indexed node member

theorem deletesIf {hash : Hash} {deletes : Bool} (done : DeletesIf world cache after hash deletes) :
    LruIndexed after := by
  rcases done with ⟨changed, changes, rfl⟩
  have kept := indexed.touched changes.toTouched
  split
  · exact kept.without (changes.wellFormed wellFormed) hash
  · exact kept

theorem stores {put : CachePut} (stores : Stores cache after put) : LruIndexed after := by
  rcases stores.index wellFormed with ⟨slot, adds⟩
  rcases stores.lru with ⟨ejected, put⟩
  intro node member
  rw [adds.find]
  rcases mem_of_blockLruCachePut put member with old | ⟨rfl, _, _⟩
  · have here := indexed node old
    rw [if_neg]
    · exact here
    · intro same
      rw [same, stores.absent] at here
      cases here
  · exact if_pos rfl

end

theorem remembers_iff {block : Block} {ref : EntryRef}
    (remembers : Remembers cache after block ref) :
    LruIndexed after ↔ (0 < cache.lruSize →
        Recency.find BlockLruNode.hash block.hash cache.lru = none →
          indexFind cache.index block.hash = some ref) := by
  rcases remembers.lru with ⟨ejected, put⟩
  have keys := remembers.rest.keys
  constructor
  · intro later positive new
    have here := later _ (mem_blockLruCachePut put positive new)
    rw [keys.indexFind] at here
    exact here
  · intro live node member
    rw [keys.indexFind]
    rcases mem_of_blockLruCachePut put member with
      old | ⟨rfl, positive, new⟩
    · exact indexed node old
    · exact live positive new

end

end LruIndexed

/-- The block of a read goes to the cache of blocks with a removed entry. -/
def revives (world : World) (cache : Cache) : CacheStep → Bool
  | .cache (.readResult sectionId sectionIndex (some data) _) =>
    match cache.pendingGets.find? (waitsFor cache sectionId sectionIndex) with
    | some first =>
      let hash := cache.index.hashOf first.entry
      (verifiedBlock world data hash).isSome &&
        decide (0 < cache.lruSize) &&
        (Recency.find BlockLruNode.hash hash cache.lru).isNone &&
        decide (indexFind cache.index hash ≠ some first.entry)
    | none => false
  | _ => false

section
variable {world : World} {cache after : Cache}

theorem ReceiveEffect.lruIndexed_iff (indexed : LruIndexed cache)
    {sectionId sectionIndex now : UInt64} {data : Option Bytes} {block : Option Block}
    (effect : ReceiveEffect world cache sectionId sectionIndex data after block) :
    LruIndexed after ↔ revives world cache
        (.cache (.readResult sectionId sectionIndex data now)) = false := by
  cases effect with
  | ignored idle =>
    refine iff_of_true indexed ?_
    rcases idle with rfl | idle
    · rfl
    · cases data with
      | none => rfl
      | some bytes => simp [revives, idle]
  | mismatched bytes first found arrived wrong =>
    refine iff_of_true indexed ?_
    simp [revives, arrived, found, wrong]
  | verified bytes first value kept found arrived right remembers =>
    have same := hash_of_verifiedBlock right
    have before : LruIndexed
        { cache with
          pendingGets := cache.pendingGets.eraseP
            (waitsFor cache sectionId sectionIndex) } := indexed
    change LruIndexed kept ↔ _
    rw [before.remembers_iff remembers, same]
    simp [revives, arrived, found, right]

theorem LruIndexed.get (indexed : LruIndexed cache) (wellFormed : cache.index.WellFormed)
    {get : CacheGet} {outcome : GetOutcome}
    (effect : GetEffect world cache get after outcome) : LruIndexed after := by
  cases effect with
  | answered reply plain => exact indexed
  | recalled node entry found =>
    intro other member
    exact indexed other (mem_of_mem_touch member)
  | waiting ref receiver found receives => exact indexed
  | missed => exact indexed
  | loaded ref block store _ found hash reads remembers direct =>
    apply ((indexed.touched (touched_withStore cache store)).remembers_iff remembers).mpr
    intro _ _
    rw [hash, ((indexFind_eq_some_iff wellFormed).mp found).2]
    exact found

theorem lruIndexed_cacheStep_iff (wellFormed : cache.index.WellFormed) (indexed : LruIndexed cache)
    {step : CacheStep} (stepped : cacheStep world cache step = some after) :
    LruIndexed after ↔ revives world cache step = false := by
  have delete (cache : Cache) (hash : Hash) (ref : EntryRef)
      (holds : cache.index.WellFormed ∧ LruIndexed cache)
      (_ : indexFind cache.index hash = some ref) : (cache.without world hash).index.WellFormed ∧
        LruIndexed (cache.without world hash) :=
    ⟨wellFormed_without holds.1 hash, holds.2.without holds.1 hash⟩
  cases cacheStep_cases stepped with
  | touched still changes =>
    refine iff_of_true (indexed.touched changes) ?_
    unfold quiet at still
    split at still <;> first | rfl | cases still
  | unstored changes => exact iff_of_true (indexed.touched changes) rfl
  | stored accepted stores => exact iff_of_true (indexed.stores wellFormed stores) rfl
  | ended swept tombs next ran =>
    have kept : swept.index.WellFormed ∧ LruIndexed swept :=
      deleteRecorded_rule (fun _ _ holds touched =>
          ⟨touched.wellFormed holds.1, holds.2.touched touched.toTouched⟩)
        delete ⟨wellFormed, indexed⟩ ran
    exact iff_of_true kept.2 rfl
  | resized =>
    refine iff_of_true ?_ rfl
    unfold cacheResize
    split
    · exact indexed
    · exact indexed
  | collected done =>
    exact iff_of_true (cacheGc_rule (fun _ holds => holds.1) delete ⟨wellFormed, indexed⟩
        done).2 rfl
  | got effect => exact iff_of_true (indexed.get wellFormed effect) rfl
  | removed done => exact iff_of_true (indexed.deletesIf wellFormed done) rfl
  | counted done => exact iff_of_true (indexed.deletesIf wellFormed done) rfl
  | received effect => exact effect.lruIndexed_iff indexed

end

/-- The cache of blocks holds the objects of the index. -/
structure LruCoherent (cache : Cache) : Prop where
  indexed : LruIndexed cache
  finds : ∀ hash, cacheFindEntry cache hash = indexFind cache.index hash

theorem lruCoherent_iff {cache : Cache} : LruCoherent cache ↔ LruIndexed cache :=
  ⟨LruCoherent.indexed, fun indexed => ⟨indexed, indexed.cacheFindEntry⟩⟩

theorem lru_blockCacheCreate {world : World} {config : CacheConfig} {files : CacheFiles}
    {write : SnapshotWrite} {start : Cache}
    (created : blockCacheCreate world config files write = some start) : start.lru = [] := by
  rcases bind_eq_some_iff.mp created with ⟨store, _, created⟩
  rcases map_eq_some_iff.mp created with ⟨index, _, rfl⟩
  split
  · rfl
  · rfl

/--
The cache of blocks is coherent in every state exactly if no read brings back a removed entry.
-/
theorem lru_coherent_iff_nothing_revived {world : World} {config : CacheConfig} {files : CacheFiles}
    {write : SnapshotWrite} {start : Cache}
    (created : blockCacheCreate world config files write = some start)
    (sound : start.index.WellFormed) (steps : List CacheStep) :
    Runs.Throughout (cacheStep world) LruCoherent start steps ↔ Runs.EachStep (cacheStep world)
        (fun cache step => revives world cache step = false) start steps := by
  apply Runs.throughout_iff_eachStep (show ∀ cache step next, cache.index.WellFormed →
      cacheStep world cache step = some next → next.index.WellFormed from
        fun _ _ _ wellFormed stepped => (cacheStep_cases stepped).wellFormed wellFormed)
  · intro cache step next wellFormed coherent stepped
    rw [lruCoherent_iff]
    exact lruIndexed_cacheStep_iff wellFormed coherent.indexed stepped
  · exact sound
  · rw [lruCoherent_iff]
    intro node member
    rw [lru_blockCacheCreate created] at member
    cases member

/-- The small cache with room for one block in memory. -/
def tinyConfig : CacheConfig :=
  { smallConfig with lruSize := 1 }

/-- Create the tiny cache in new directories. -/
def createTiny : Option Cache :=
  blockCacheCreate (smallWorld reliableIo) tinyConfig (CacheFiles.fresh .nano) .complete

/-- An asynchronous get of a small block. -/
def getNano (byte : UInt8) (receiver : Nat) : CacheStep :=
  .cache (.get ⟨(nanoBlock byte).hash, false, false, some receiver⟩ 0)

/-- The read of a slot arrives with a small block. -/
def arriveNano (byte : UInt8) (sectionId sectionIndex : UInt64) : CacheStep :=
  .cache (.readResult sectionId sectionIndex (some (nanoBlock byte).data) 0)

theorem wellFormed_createTiny {start : Cache} (created : createTiny = some start) :
    start.index.WellFormed :=
  (blank_blockCacheCreate reliable_reliableIo ⟨by decide, by decide⟩ created).wellFormed

/-- A block that is read while it stays in the index. -/
theorem read_block_is_coherent :
    ∃ start, createTiny = some start ∧
      Runs.Throughout (cacheStep (smallWorld reliableIo)) LruCoherent start
        [putNano 1, putNano 2, getNano 1 0, .sectionsRead 0 0, arriveNano 1 0 0] := by
  obtain ⟨start, created, each⟩ : ∃ start, createTiny = some start ∧
      Runs.EachStep (cacheStep (smallWorld reliableIo)) (fun cache step =>
          revives (smallWorld reliableIo) cache step = false) start
        [putNano 1, putNano 2, getNano 1 0, .sectionsRead 0 0, arriveNano 1 0 0] := by
    decide +kernel
  have coherent := lru_coherent_iff_nothing_revived created (wellFormed_createTiny created)
  exact ⟨start, created, (coherent _).mpr each⟩

/-- A block removed while it is read is found in the cache of blocks, but not in the index. -/
theorem removed_block_is_revived :
    ∃ start final, createTiny = some start ∧ cacheRun (smallWorld reliableIo) start
        [putNano 1, putNano 2, getNano 1 0, .sectionsRead 0 0,
          .cache (.remove (nanoBlock 1).hash false), arriveNano 1 0 0] = some final ∧
      cacheFindEntry final (nanoBlock 1).hash = some 0 ∧
      indexFind final.index (nanoBlock 1).hash = none ∧ ¬ LruCoherent final := by
  obtain ⟨start, created, final, ran, stale, absent⟩ : ∃ start, createTiny = some start ∧
      ∃ final, cacheRun (smallWorld reliableIo) start
          [putNano 1, putNano 2, getNano 1 0, .sectionsRead 0 0,
            .cache (.remove (nanoBlock 1).hash false), arriveNano 1 0 0] = some final ∧
        cacheFindEntry final (nanoBlock 1).hash = some 0 ∧
        indexFind final.index (nanoBlock 1).hash = none := by
    decide +kernel
  refine ⟨start, final, created, ran, stale, absent, fun coherent => ?_⟩
  have same := coherent.finds (nanoBlock 1).hash
  rw [stale, absent] at same
  cases same

end Liboffs.BlockCache

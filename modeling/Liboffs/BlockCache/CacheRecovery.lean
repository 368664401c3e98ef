import Liboffs.BlockCache.SlotOwnership
import Liboffs.BlockCache.StoreRecovery
import Liboffs.BlockCache.IndexTrace

/-!
# Recovery of the index and the free maps

A put is recorded in the log of the index at once, but the free map of its
section is saved later.  After a crash the index can therefore name slots that
are free in the maps of the sections, which a later put may be given.

The two halves agree if no section with entries is dirty when the crash comes:
every slot that the recovered index names is then in a metadata file.
-/

namespace Liboffs.BlockCache

open Library Library.ByteOrder Library.FileSlots List Option

variable {put : CachePut} {start : Cache}

section
variable {config : SectionConfig} {size cacheSize maxTupleSize : Nat}
variable {robin : List UInt64} {nextId : UInt64} {disk : Disk}
variable (files : ∀ id, FilesFit config.blockSize size (disk.sections id))

include files

theorem consistent_initial (positive : 0 < config.blockSize) (caching : 0 < cacheSize) :
    Consistent (initialSections config size cacheSize maxTupleSize robin nextId, disk) where
  positive := positive
  caching := caching
  distinct := nodup_nil
  clean := fun _ member => absurd member not_mem_nil
  wellFormed := fun id => (files id).map.wellFormed
  small := fun id => (files id).map.small
  stored := fun id => (files id).map.stored
  unplanned := fun id => (files id).unplanned
  readable := fun id => (files id).readable

end

theorem filesFit_fresh (small : size < 2 ^ 32) :
    FilesFit blockSize size (SectionFiles.empty blockSize) where
  map :=
    { wellFormed := wellFormed_freeMapInit
      small := small
      stored := fun index used =>
        absurd (occupied_freeMapInit.symm.trans used) (by simp) }
  unplanned := rfl
  readable := fun _ metadata => by cases metadata

section
variable {world : World} {cache after : Cache}

variable {now : UInt64}

theorem traces_cacheRemember (remembered : cacheRemember world now cache block ref = some after) :
    Traces world.env cache.index after.index := by
  rcases map_eq_some_iff.mp remembered with ⟨put, _, rfl⟩
  unfold cacheEject
  split
  · exact (touches_indexSetEntryEjection world.env cache.index _).traces
      ((extends_logRecord world.env cache.index _).trans (extends_setEntry world.env _ _ _))
      (by simp [Record.NamesSlot])
  · exact .refl _

theorem traces_acquireClaim (world : World) (cache : Cache) (ref : EntryRef) (acquire : Bool) :
    Traces world.env cache.index (acquireClaim world cache ref acquire).index := by
  unfold acquireClaim
  split
  · exact (touches_setEntryMetadata world.env cache.index ref).traces
      ((extends_setEntry world.env cache.index ref _).trans (extends_logRecord world.env _ _))
      (by simp [Record.NamesSlot])
  · exact .refl _

theorem traces_cachePut (wellFormed : cache.index.WellFormed)
    (done : cachePut world cache put now = some (after, result)) :
    Traces world.env cache.index after.index := by
  unfold cachePut at done
  split at done
  · rename_i ref _
    cases done
    have raised : Traces world.env cache.index (raiseEntryFib cache.index ref put.incomingFib) := by
      have touches := touches_raiseEntryFib cache.index ref put.incomingFib
      unfold raiseEntryFib at touches ⊢
      split
      · rename_i lower
        rw [if_pos lower] at touches
        exact touches.traces (extends_setEntry world.env cache.index ref _) (by simp)
      · exact .refl _
    exact raised.trans (traces_acquireClaim world
        { cache with index := raiseEntryFib cache.index ref put.incomingFib }
        ref put.acquireEphemeral)
  · rename_i absent
    split at done
    · cases done
      exact .refl _
    · rcases bind_eq_some_iff.mp done with ⟨⟨sections, disk, written⟩, _, done⟩
      simp only at done
      split at done
      · rcases bind_eq_some_iff.mp done with ⟨remembered, kept, done⟩
        rcases map_eq_some_iff.mp done with ⟨index, added, equal⟩
        cases equal
        have touched := (remembers_cacheRemember world kept).rest.index
        have traced := traces_cacheRemember kept
        exact (traces_indexAdd wellFormed absent touched traced added).trans
            (traces_acquireClaim world
              { remembered with
                index
                entryCount := remembered.entryCount + 1
                currentBytes := remembered.currentBytes + remembered.typeBytes
                putGroups := putGroupRecord remembered.putGroups put.putGroup put.block.hash }
              cache.index.nextRef put.acquireEphemeral)
      · cases done
        exact .refl _

/-- A put takes no slot from the metadata files. -/
theorem retains_cachePut (untorn : Untorn world.io) (restorable : Restorable cache.store)
    (done : cachePut world cache put now = some (after, result)) :
    Retains cache.store after.store := by
  unfold cachePut at done
  split at done
  · rename_i ref _
    cases done
    have claimed := touches_acquireClaim world
      { cache with index := raiseEntryFib cache.index ref put.incomingFib }
      ref put.acquireEphemeral
    rw [claimed.store]
    exact .refl restorable
  · rename_i absent
    split at done
    · cases done
      exact .refl restorable
    · rcases bind_eq_some_iff.mp done with ⟨⟨sections, disk, written⟩, wrote, done⟩
      have retains := retains_sectionsWrite untorn restorable wrote
      simp only at done
      split at done
      · rcases stores_cachePutWritten (by exact absent) done with ⟨_, _, store, _⟩
        rw [store]
        exact retains
      · cases done
        exact retains

end

/-- The steps of a run of puts, with the saves of the index and the maps. -/
inductive Storing : CacheStep → Prop where
  | put (payload : CachePut) (now : UInt64) : Storing (.cache (.put payload now))
  | indexSave : Storing (.cache (.indexSave .complete))
  | sectionWriteMeta : Storing .sectionWriteMeta

/-- What the files of a cache have in common with its state. -/
structure Durable (env : Environment) (config : CacheConfig) (cache : Cache) : Prop where
  owned : SlotsOwned cache
  traced : Traced env cache.index
  restorable : Restorable cache.store
  blockSize : cache.sections.config.blockSize = config.type.bytes
  size : cache.sections.size = config.sectionSize

variable {config : CacheConfig} {world : World}

/-- A cache in new directories is durable. -/
theorem durable_blockCacheCreate (reliable : Reliable world.io) (usable : Usable config)
    (created : blockCacheCreate world config (CacheFiles.fresh config.type) write = some start) :
    Durable world.env config start := by
  have owned := (blank_blockCacheCreate reliable usable created).slotsOwned
  rcases bind_eq_some_iff.mp created with ⟨store, made, rest⟩
  have initial : Restorable (initialSections ⟨config.type.bytes, config.hasTimer⟩
        config.sectionSize config.cacheSize config.maxTupleSize [] 0,
        Disk.fresh config.type.bytes) :=
    ⟨nodup_nil, fun _ => filesFit_fresh usable.small, fun _ member => absurd member not_mem_nil⟩
  have retains := retains_sectionsFillRobin reliable.untorn _ initial made
  have capped : Retains store ({ store.1 with maxBytes := config.maxCapacityBytes.toNat },
        store.2) :=
    retains.restorable.touch ⟨rfl, rfl, rfl, rfl⟩ rfl
      retains.restorable.distinct fun _ member => member
  have traced : Traced world.env (indexNewEmpty IndexFiles.empty config.indexBucketSize
      config.maxSnapshots config.maxWals) :=
    ⟨rfl, Nat.lt_succ_self 1, fun _ member => absurd member not_mem_nil,
      fun _ member => absurd member not_mem_nil, fun _ => ⟨[], rfl, by simp⟩⟩
  cases rest
  have blockSize := congrArg SectionConfig.blockSize retains.settings.config
  have size := retains.settings.size
  refine ⟨owned, ?_, ?_, ?_, ?_⟩
  · split <;> exact traced
  · split
    · exact capped.restorable
    · exact retains.restorable
  · split <;> exact blockSize
  · split <;> exact size

variable {cache : Cache}

/-- A step that retains the store keeps its settings. -/
theorem Durable.of_retains {env : Environment} {after : Cache} (durable : Durable env config cache)
    (owned : SlotsOwned after) (traced : Traced env after.index)
    (retains : Retains cache.store after.store) : Durable env config after where
  owned := owned
  traced := traced
  restorable := retains.restorable
  blockSize := by
    have same : after.sections.config = cache.sections.config := retains.settings.config
    rw [same]
    exact durable.blockSize
  size := retains.settings.size.trans durable.size

theorem Durable.step (reliable : Reliable world.io) {after : Cache}
    (durable : Durable world.env config cache) {step : CacheStep} (storing : Storing step)
    (stepped : cacheStep world cache step = some after) : Durable world.env config after := by
  have owned := durable.owned.step (effect_cacheStep reliable durable.owned stepped)
  cases storing with
  | put payload now =>
    rcases map_eq_some_iff.mp stepped with ⟨_, done, rfl⟩
    rcases map_eq_some_iff.mp done with ⟨⟨next, result⟩, put, rfl⟩
    exact durable.of_retains owned (durable.traced.step
        (traces_cachePut durable.owned.wellFormed put))
      (retains_cachePut reliable.untorn durable.restorable put)
  | indexSave =>
    cases stepped
    exact durable.of_retains owned (durable.traced.rollover durable.owned.wellFormed)
      (.refl durable.restorable)
  | sectionWriteMeta =>
    cases stepped
    exact durable.of_retains owned durable.traced
      (retains_sectionsWriteMeta reliable.untorn durable.restorable)

theorem durable_cacheRun (reliable : Reliable world.io) (durable : Durable world.env config start)
    (storing : ∀ step ∈ steps, Storing step) (ran : cacheRun world start steps = some final) :
    Durable world.env config final := by
  induction steps generalizing start with
  | nil =>
    cases ran
    exact durable
  | cons step rest ih =>
    rcases bind_eq_some_iff.mp ran with ⟨next, stepped, ran⟩
    exact ih (durable.step reliable (storing step mem_cons_self) stepped)
      (fun other member => storing other (mem_cons_of_mem _ member)) ran

/--
What a crash leaves of the files of the sections: those between two messages, or inside a write or
a save of the maps.  No metadata file is left half written.
-/
inductive CrashDisk (cache : Cache) : Disk → Prop where
  | between : CrashDisk cache cache.disk
  | writing (io : Io) (untorn : Untorn io) (rounds : Nat) (data : Bytes)
      (after : Sections × Disk × SectionsWriteResult)
      (wrote : sectionsWrite io rounds data cache.sections cache.disk = some after) :
      CrashDisk cache after.2.1
  | saving (io : Io) (untorn : Untorn io) :
      CrashDisk cache (sectionsWriteMeta io cache.sections cache.disk).2

theorem CrashDisk.retains (restorable : Restorable cache.store) (crash : CrashDisk cache disk) :
    ∃ sections, Retains cache.store (sections, disk) := by
  cases crash with
  | between => exact ⟨_, .refl restorable⟩
  | writing io untorn rounds data after wrote =>
    exact ⟨_, retains_sectionsWrite untorn restorable wrote⟩
  | saving io untorn => exact ⟨_, retains_sectionsWriteMeta untorn restorable⟩

/-- No section whose free map waits to be saved has an entry in the index. -/
def Flushed (cache : Cache) : Prop :=
  ∀ sec ∈ cache.sections.lru, sec.dirty = true →
    ∀ hash slot, cache.index.slotOf hash = some slot → slot.1 ≠ sec.id

/-- The slots of a flushed cache are in the metadata files. -/
theorem Flushed.stored (flushed : Flushed cache) (owned : SlotsOwned cache) {hash : Hash}
    {slot : UInt64 × Nat} (named : cache.index.slotOf hash = some slot) :
    (storedMap cache.sections.size (cache.disk.sections slot.1)).occupied slot.2 = true := by
  have used := owned.occupied hash slot named
  rw [Store.Occupied] at used
  cases found : Recency.find Section.id slot.1 cache.store.1.lru with
  | none =>
    rw [Store.mapOf_uncached found] at used
    exact used
  | some sec =>
    rcases Recency.mem_of_find found with ⟨member, same⟩
    have clean : sec.dirty = false :=
      Bool.eq_false_iff.mpr fun dirty => flushed sec member dirty hash slot named same.symm
    have saved := owned.consistent.clean sec member clean
    rw [Store.mapOf_cached found, ← saved, same] at used
    exact used

theorem Durable.restart (usable : Usable config) (durable : Durable world.env config cache)
    (flushed : Flushed cache) (indexCrash : IndexCrash world.env cache.index files.index)
    (diskCrash : CrashDisk cache files.disk) (reliable : Reliable world.io) :
    ∃ recovered, blockCacheCreate world config files write = some recovered ∧
        SlotsOwned recovered := by
  rcases durable.traced.indexCreate durable.owned.wellFormed indexCrash
    write config.indexBucketSize config.maxSnapshots config.maxWals with
    ⟨index, code, indexed, wellFormed, named⟩
  rcases diskCrash.retains durable.restorable with ⟨sections, retains⟩
  have fit (id : UInt64) : FilesFit config.type.bytes config.sectionSize
      (files.disk.sections id) := by
    have fits := retains.restorable.files id
    rw [retains.settings.config, retains.settings.size] at fits
    change FilesFit cache.sections.config.blockSize cache.sections.size _ at fits
    rw [durable.blockSize, durable.size] at fits
    exact fits
  have consistent : Consistent (initialSections ⟨config.type.bytes, config.hasTimer⟩
        config.sectionSize config.cacheSize config.maxTupleSize files.robin
        files.nextId, files.disk) :=
    consistent_initial fit config.type.bytes_pos usable.caching
  rcases sectionsCreate_consistent reliable consistent with ⟨store, made, keeps⟩
  have capped : Keeps store ({ store.1 with maxBytes := config.maxCapacityBytes.toNat }, store.2) :=
    keeps_of_touch keeps.consistent ⟨rfl, rfl, rfl, rfl⟩
      keeps.consistent.distinct (fun _ => rfl) rfl
  have owns {after : Cache} (same : after.index = index)
      (kept : Keeps store after.store) : SlotsOwned after := by
    refine ⟨same ▸ wellFormed, kept.consistent, ?_, ?_⟩
    · intro hash slot here
      rw [same] at here
      rw [kept.occupied, keeps.occupied]
      have stored := retains.covers slot.1 slot.2
        (flushed.stored durable.owned (named hash slot here))
      rw [retains.settings.size] at stored
      change (storedMap cache.sections.size _).occupied _ = true at stored
      rw [durable.size] at stored
      exact stored
    · intro first second slot one two
      rw [same] at one two
      exact durable.owned.unique first second slot (named first slot one) (named second slot two)
  simp only [blockCacheCreate, made, indexed, bind_some, map_some]
  refine ⟨_, rfl, ?_⟩
  split
  · exact owns rfl capped
  · exact owns rfl (Keeps.refl keeps.consistent)

/--
After a crash, the slots that the recovered index names are occupied and given to no later write,
if no section with entries was dirty.
-/
theorem recovered_slots_are_occupied {world : World} (reliable : Reliable world.io)
    {config : CacheConfig} (usable : Usable config) {write : SnapshotWrite} {start cache : Cache}
    (created : blockCacheCreate world config (CacheFiles.fresh config.type) write = some start)
    {steps : List CacheStep} (storing : ∀ step ∈ steps, Storing step)
    (ran : cacheRun world start steps = some cache) (flushed : Flushed cache) {files : CacheFiles}
    (indexCrash : IndexCrash world.env cache.index files.index)
    (diskCrash : CrashDisk cache files.disk) {io : Io} (restarted : Reliable io)
    (write' : SnapshotWrite) :
    ∃ recovered, blockCacheCreate { world with io } config files write' = some recovered ∧
        (∀ ref ∈ indexToArray recovered.index,
          recovered.store.Occupied (recovered.index.entries ref).sectionId
            (recovered.index.entries ref).sectionIndex.toNat) ∧
        ∀ later final, cacheRun { world with io } recovered later = some final →
            NeverOverwrites { world with io } final := by
  have durable : Durable world.env config cache :=
    durable_cacheRun reliable (durable_blockCacheCreate reliable usable created) storing ran
  have unchanged : Durable ({ world with io } : World).env config cache := durable
  rcases unchanged.restart usable flushed indexCrash diskCrash restarted with ⟨recovered, made, owned⟩
  refine ⟨recovered, made, ?_, ?_⟩
  · intro ref member
    exact owned.occupied _ _ (slotOf_hashOf owned.wellFormed member)
  · intro later final ran
    exact (slotsOwned_cacheRun restarted owned ran).neverOverwrites restarted

/-- The id behind the last metadata file, as `sections_create` reads it off the names. -/
def Cache.nextIdOnDisk (cache : Cache) : UInt64 :=
  match ((List.range cache.sections.nextId.toNat).filter fun id =>
      (cache.disk.sections (.ofNat id)).metadata.isSome).getLast? with
  | some last => .ofNat (last + 1)
  | none => 0

/-- The files of a cache between two messages. -/
def Cache.files (cache : Cache) : CacheFiles where
  index := cache.index.files
  disk := cache.disk
  robin := cache.sections.robin
  nextId := cache.nextIdOnDisk

/-- Run the small cache, and create it again from the files. -/
def restartSmall (steps : List CacheStep) : Option Cache :=
  (runSmall reliableIo steps).bind fun cache =>
    blockCacheCreate (smallWorld reliableIo) smallConfig cache.files .complete

/-- A put whose free map is saved before the crash. -/
theorem saved_put_is_occupied :
    ∃ recovered, restartSmall [.cache (.indexSave .complete), putNano 1, .sectionWriteMeta] =
          some recovered ∧ indexToArray recovered.index = [0] ∧
      recovered.store.Occupied (recovered.index.entries 0).sectionId
        (recovered.index.entries 0).sectionIndex.toNat := by
  obtain ⟨cache, ran, dirty⟩ : ∃ cache, runSmall reliableIo
      [.cache (.indexSave .complete), putNano 1, .sectionWriteMeta] = some cache ∧
        cache.sections.lru.map Section.dirty = [false] := by
    decide +kernel
  obtain ⟨recovered, restarted, refs⟩ : ∃ recovered, restartSmall
      [.cache (.indexSave .complete), putNano 1, .sectionWriteMeta] = some recovered ∧
        indexToArray recovered.index = [0] := by
    decide +kernel
  refine ⟨recovered, restarted, refs, ?_⟩
  rcases bind_eq_some_iff.mp ran with ⟨start, created, steps⟩
  have reliable : Reliable (smallWorld reliableIo).io := reliable_reliableIo
  have storing : ∀ step ∈ [CacheStep.cache (.indexSave .complete),
      putNano 1, .sectionWriteMeta], Storing step := by
    simp only [mem_cons, not_mem_nil, or_false]
    rintro step (rfl | rfl | rfl)
    · exact .indexSave
    · exact .put _ _
    · exact .sectionWriteMeta
  have flushed : Flushed cache := by
    intro sec member isDirty
    have impossible : sec.dirty ∈ cache.sections.lru.map Section.dirty := mem_map_of_mem member
    rw [dirty, isDirty] at impossible
    simp at impossible
  have durable := durable_cacheRun reliable
    (durable_blockCacheCreate reliable usable_smallConfig created) storing steps
  rcases recovered_slots_are_occupied reliable usable_smallConfig created storing steps flushed
    (show IndexCrash _ cache.index cache.files.index from durable.traced.indexCrash_self)
    .between reliable_reliableIo .complete with
    ⟨again, made, occupied, _⟩
  rw [restartSmall, ran, bind_some] at restarted
  cases restarted.symm.trans made
  exact occupied 0 (by simp [refs])

/-- The recovered index names a slot whose map was not saved, and a later put is given it. -/
theorem unsaved_put_is_overwritten :
    ∃ recovered, restartSmall [.cache (.indexSave .complete), putNano 1] = some recovered ∧
      indexToArray recovered.index = [0] ∧
      ¬ recovered.store.Occupied (recovered.index.entries 0).sectionId
        (recovered.index.entries 0).sectionIndex.toNat ∧
      ∃ final, cacheRun (smallWorld reliableIo) recovered [putNano 2, putNano 3] = some final ∧
        (final.index.entries 2).slot = (final.index.entries 0).slot := by
  unfold Store.Occupied
  decide +kernel

end Liboffs.BlockCache

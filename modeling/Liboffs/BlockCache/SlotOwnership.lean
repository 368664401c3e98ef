import Liboffs.BlockCache.CacheEffects

/-!
# Slots are never overwritten, but deletions leak them

Without failures of metadata and plan files, each entry of the index owns an occupied slot, and a
write is given another one.  A failed save breaks this: the section is marked as clean, and its
map is lost when it is evicted.

The converse fails with deletions, which ask the section store to free the slot with a message
that the store does not handle.
-/

namespace Liboffs.BlockCache

open Library Library.ByteOrder Library.FileSlots List Option

/-- The store as `sections_create` starts with it. -/
def initialSections (config : SectionConfig)
    (size cacheSize maxTupleSize : Nat) (robin : List UInt64) (nextId : UInt64) : Sections where
  config := config
  size := size
  maxTupleSize := maxTupleSize
  maxBytes := 0
  lruSize := cacheSize
  lru := []
  robin := robin
  nextId := nextId

variable {store : Store} {config : SectionConfig} {size cacheSize maxTupleSize : Nat}

section
variable {io : Io} (reliable : Reliable io)

include reliable

theorem sectionsLoadAll_consistent (ids : List UInt64) (consistent : Consistent store) :
    ∃ after, sectionsLoadAll io ids store.1 store.2 = some after ∧ Keeps store after := by
  induction ids generalizing store with
  | nil => exact ⟨store, rfl, Keeps.refl consistent⟩
  | cons id rest ih =>
    rcases sectionCreate_consistent reliable consistent id with ⟨elapsed, created⟩
    have ticked : Keeps store (store.1, store.2.tick elapsed) :=
      keeps_of_touch consistent (.refl _) consistent.distinct (fun _ => rfl) rfl
    have put := ticked.trans (keeps_sectionsLruCachePut reliable ticked.consistent id).1
    have full := put.trans (keeps_sectionsFull reliable put.consistent id)
    simp only [sectionsLoadAll, created]
    split
    · rcases ih full.consistent with ⟨after, loaded, keeps⟩
      exact ⟨after, loaded, full.trans keeps⟩
    · rcases ih put.consistent with ⟨after, loaded, keeps⟩
      exact ⟨after, loaded, put.trans keeps⟩

theorem sectionsFillRobin_consistent (count : Nat) (consistent : Consistent store) :
    ∃ after, sectionsFillRobin io count store.1 store.2 = some after ∧ Keeps store after := by
  induction count generalizing store with
  | zero => exact ⟨store, rfl, Keeps.refl consistent⟩
  | succ count ih =>
    rcases keeps_sectionsCreateFresh reliable consistent with ⟨ready, created, kept⟩
    have placed := kept.trans (keeps_robin kept.consistent
      (roundRobinAdd ready.1.robin store.1.nextId))
    rcases ih placed.consistent with ⟨after, filled, keeps⟩
    refine ⟨after, ?_, placed.trans keeps⟩
    simp only [sectionsFillRobin, created]
    exact filled

theorem sectionsCreate_consistent
    (consistent : Consistent (initialSections config size cacheSize maxTupleSize robin nextId,
        disk)) :
    ∃ after : Store,
      sectionsCreate io config size cacheSize maxTupleSize robin nextId disk = some after ∧ Keeps
          (initialSections config size cacheSize maxTupleSize robin nextId, disk) after := by
  rcases sectionsLoadAll_consistent reliable robin consistent with ⟨loaded, load, kept⟩
  rcases sectionsFillRobin_consistent reliable
    (maxTupleSize - loaded.1.robin.length) kept.consistent with
    ⟨after, fill, keeps⟩
  refine ⟨after, ?_, kept.trans keeps⟩
  change sectionsLoadAll io robin
    { config, size, maxTupleSize, maxBytes := 0, lruSize := cacheSize,
      lru := [], robin, nextId } disk = _ at load
  simp only [sectionsCreate, load, bind_some]
  exact fill

end

/-- The files of sections that have never been used. -/
def Disk.fresh (blockSize : Nat) : Disk where
  sections := fun _ => SectionFiles.empty blockSize
  time := 0

theorem consistent_fresh (positive : 0 < config.blockSize) (caching : 0 < cacheSize)
    (small : size < 2 ^ 32) (robin : List UInt64) (nextId : UInt64) :
    Consistent (initialSections config size cacheSize maxTupleSize robin nextId,
        Disk.fresh config.blockSize) where
  positive := positive
  caching := caching
  distinct := nodup_nil
  clean := fun _ member => absurd member not_mem_nil
  wellFormed := fun _ => wellFormed_freeMapInit
  small := fun _ => small
  stored := fun _ index used => absurd (occupied_freeMapInit.symm.trans used) (by simp)
  unplanned := fun _ => rfl
  readable := fun _ _ metadata => by cases metadata

/-- Directories in which no block cache has been. -/
def CacheFiles.fresh (type : BlockSize) : CacheFiles where
  index := IndexFiles.empty
  disk := Disk.fresh type.bytes
  robin := []
  nextId := 0

theorem indexCreate_empty (env : Environment) (write : SnapshotWrite) (bucketSize : UInt64)
    (maxSnapshots maxWals : Nat) :
    indexCreate env write IndexFiles.empty bucketSize maxSnapshots maxWals =
      some (indexNewEmpty IndexFiles.empty bucketSize maxSnapshots maxWals, 0) := rfl

/-- The settings under which the section store can work. -/
structure Usable (config : CacheConfig) : Prop where
  caching : 0 < config.cacheSize
  small : config.sectionSize < 2 ^ 32

/-- A cache in new directories has no entries and no occupied slots. -/
structure Blank (cache : Cache) : Prop where
  wellFormed : cache.index.WellFormed
  consistent : Consistent cache.store
  unnamed : ∀ hash, cache.index.slotOf hash = none
  unoccupied : ∀ id index, ¬ cache.store.Occupied id index

variable {start cache : Cache} {world : World}

theorem blank_blockCacheCreate (reliable : Reliable world.io) {config : CacheConfig}
    (usable : Usable config)
    (created : blockCacheCreate world config (CacheFiles.fresh config.type) write = some start) :
    Blank start := by
  have consistent : Consistent (initialSections ⟨config.type.bytes, config.hasTimer⟩
        config.sectionSize config.cacheSize config.maxTupleSize [] 0,
        Disk.fresh config.type.bytes) :=
    consistent_fresh config.type.bytes_pos usable.caching usable.small [] 0
  rcases sectionsCreate_consistent reliable consistent with ⟨store, made, keeps⟩
  have unoccupied (id : UInt64) (index : Nat) : ¬ store.Occupied id index := by
    rw [keeps.occupied, Store.Occupied]
    change ¬ (freeMapInit config.sectionSize).occupied index = true
    rw [occupied_freeMapInit]
    exact Bool.false_ne_true
  have wellFormed : (indexNewEmpty IndexFiles.empty config.indexBucketSize
      config.maxSnapshots config.maxWals).WellFormed :=
    ⟨fun _ member => absurd member not_mem_nil, sound_empty _⟩
  have capped : Keeps store ({ store.1 with maxBytes := config.maxCapacityBytes.toNat }, store.2) :=
    keeps_of_touch keeps.consistent ⟨rfl, rfl, rfl, rfl⟩
      keeps.consistent.distinct (fun _ => rfl) rfl
  simp only [blockCacheCreate, CacheFiles.fresh, made, indexCreate_empty,
    bind_some, map_some] at created
  cases created
  split
  · exact ⟨wellFormed, capped.consistent, fun _ => rfl, fun id index used =>
      unoccupied id index ((capped.occupied id index).mp used)⟩
  · exact ⟨wellFormed, keeps.consistent, fun _ => rfl, unoccupied⟩

theorem Blank.slotsOwned (blank : Blank cache) : SlotsOwned cache :=
  { blank with
    occupied := fun hash slot named => by
      rw [blank.unnamed] at named
      cases named
    unique := fun first _ slot named => by
      rw [blank.unnamed] at named
      cases named }

variable {before after : Cache}

/-- Every effect keeps the slots of the index owned. -/
theorem SlotsOwned.step (owned : SlotsOwned before) (effect : SlotEffect deletes before after) :
    SlotsOwned after := by
  cases effect with
  | touched index store =>
    refine ⟨index.wellFormed owned.wellFormed, store.consistent, ?_, ?_⟩
    · intro hash slot named
      rw [index.slotOf] at named
      exact (store.occupied slot.1 slot.2).mpr (owned.occupied hash slot named)
    · intro first second slot one two
      rw [index.slotOf] at one two
      exact owned.unique first second slot one two
  | forgot _ index store =>
    refine ⟨index.wellFormed, by rw [store]; exact owned.consistent, ?_, ?_⟩
    · intro hash slot named
      rw [store]
      exact owned.occupied hash slot (index.slotOf named)
    · intro first second slot one two
      exact owned.unique first second slot (index.slotOf one) (index.slotOf two)
  | added put id place index store =>
    have named := index.slotOf owned.wellFormed
    have fresh (hash : Hash) : before.index.slotOf hash ≠ some (id, place) := fun here =>
      store.free (owned.occupied hash (id, place) here)
    refine ⟨index.wellFormed, store.consistent, ?_, ?_⟩
    · intro hash slot here
      rw [named] at here
      rw [store.occupied]
      split at here
      · cases here
        exact Or.inr ⟨rfl, rfl⟩
      · exact Or.inl (owned.occupied hash slot here)
    · intro first second slot one two
      rw [named] at one two
      split at one
      · rename_i new
        split at two
        · rename_i again
          rw [new, again]
        · cases one
          exact absurd two (fresh second)
      · split at two
        · cases two
          exact absurd one (fresh first)
        · exact owned.unique first second slot one two
  | moved place index store =>
    refine ⟨index.wellFormed, store.consistent, ?_, ?_⟩
    · intro hash slot named
      rw [index.slotOf] at named
      rcases map_eq_some_iff.mp named with ⟨old, here, rfl⟩
      exact store.occupied old.1 old.2 (owned.occupied hash old here)
    · intro first second slot one two
      rw [index.slotOf] at one two
      rcases map_eq_some_iff.mp one with ⟨old, here, rfl⟩
      rcases map_eq_some_iff.mp two with ⟨other, there, equal⟩
      obtain ⟨sameId, sameIndex⟩ := Prod.mk.inj equal
      rw [sameId] at sameIndex
      have used := owned.occupied second other there
      rw [sameId] at used
      have same := store.injective old.1 other.2 old.2 used
        (owned.occupied first old here) sameIndex
      refine owned.unique first second old here ?_
      rw [there, show other = old from Prod.ext sameId same]

variable {steps : List CacheStep} {final : Cache}

theorem slotsOwned_cacheRun (reliable : Reliable world.io) (owned : SlotsOwned start)
    (ran : cacheRun world start steps = some final) : SlotsOwned final := by
  induction steps generalizing start with
  | nil =>
    cases ran
    exact owned
  | cons step rest ih =>
    rcases bind_eq_some_iff.mp ran with ⟨next, stepped, ran⟩
    exact ih (owned.step (effect_cacheStep reliable owned stepped)) ran

/-- Entries name slots of their own, these are occupied, and no write is given one. -/
structure NeverOverwrites (world : World) (cache : Cache) : Prop where
  distinct : ∀ first ∈ indexToArray cache.index,
    ∀ second ∈ indexToArray cache.index,
      (cache.index.entries first).slot = (cache.index.entries second).slot → first = second
  occupied : ∀ ref ∈ indexToArray cache.index,
    cache.store.Occupied (cache.index.entries ref).slot.1 (cache.index.entries ref).slot.2
  writes : ∀ data after,
    sectionsWrite world.io world.rounds data cache.sections cache.disk =
        some after → after.2.2.result = 0 →
        ∀ ref ∈ indexToArray cache.index,
          (cache.index.entries ref).slot ≠ (after.2.2.sectionId, after.2.2.sectionIndex)

theorem SlotsOwned.neverOverwrites (reliable : Reliable world.io)
    (owned : SlotsOwned cache) : NeverOverwrites world cache where
  distinct := by
    intro first one second two same
    have named := slotOf_hashOf owned.wellFormed one
    have hashes := owned.unique _ _ _ named (same ▸ slotOf_hashOf owned.wellFormed two)
    exact current_of_mem owned.wellFormed two first one hashes
  occupied := fun ref member => owned.occupied _ _ (slotOf_hashOf owned.wellFormed member)
  writes := by
    intro data after wrote done ref member same
    rcases writes_sectionsWrite reliable owned.consistent wrote with ⟨failed, _⟩ | ⟨_, places⟩
    · exact failed done
    · have used := owned.occupied _ _ (slotOf_hashOf owned.wellFormed member)
      rw [same] at used
      exact places.free used

/--
A cache in new directories owns its slots, and runs with reliable metadata and plan files keep
this.
-/
theorem never_overwrites_along_runs {world : World} (reliable : Reliable world.io) :
    (∀ config write start, Usable config →
      blockCacheCreate world config (CacheFiles.fresh config.type) write = some start →
        SlotsOwned start) ∧
      ∀ start, SlotsOwned start → ∀ steps final, cacheRun world start steps = some final →
          SlotsOwned final ∧ NeverOverwrites world final := by
  constructor
  · intro config write start usable created
    exact (blank_blockCacheCreate reliable usable created).slotsOwned
  · intro start owned steps final ran
    have reached := slotsOwned_cacheRun reliable owned ran
    exact ⟨reached, reached.neverOverwrites reliable⟩

/-- A digest that is enough for blocks with different beginnings. -/
def prefixHash (data : Bytes) : Hash where
  bytes := data.take 32 ++ List.replicate (32 - data.length) 0
  size := by
    simp only [length_append, length_take, length_replicate]
    omega

/-- A block of the smallest size. -/
def nanoBlock (byte : UInt8) : Block where
  data := List.replicate 136 byte
  hash := prefixHash (List.replicate 136 byte)

/-- The put of such a block. -/
def putNano (byte : UInt8) : CacheStep :=
  .cache (.put ⟨nanoBlock byte, 0, false, 0⟩ 0)

/-- Settings with two slots in a section and one cached section. -/
def smallConfig : CacheConfig where
  type := .nano
  hasTimer := true
  sectionSize := 2
  cacheSize := 1
  maxTupleSize := 2
  lruSize := 30
  indexBucketSize := 25
  maxSnapshots := 3
  maxWals := 3
  deleteBlocksOnPutFailure := true
  maxCapacityBytes := 0

/-- The surroundings of the small cache. -/
def smallWorld (io : Io) : World where
  env := referenceEnvironment
  io := io
  hashData := prefixHash
  rounds := 10

/-- Create the small cache in new directories and run it. -/
def runSmall (io : Io) (steps : List CacheStep) : Option Cache :=
  (blockCacheCreate (smallWorld io) smallConfig (CacheFiles.fresh .nano)
    .complete).bind fun start => cacheRun (smallWorld io) start steps

theorem reliable_reliableIo : Reliable reliableIo := fun _ _ _ => rfl

theorem usable_smallConfig : Usable smallConfig :=
  ⟨by decide, by decide⟩

/-- Three puts over two sections, of which one is cached at a time. -/
theorem three_puts_never_overwrite :
    ∃ final, runSmall reliableIo [putNano 1, putNano 2, putNano 3] = some final ∧
      (indexToArray final.index).map (fun ref => (final.index.entries ref).slot) =
        [(0, 0), (1, 0), (0, 1)] ∧ NeverOverwrites (smallWorld reliableIo) final := by
  obtain ⟨final, ran, named⟩ : ∃ final, runSmall reliableIo [putNano 1, putNano 2, putNano 3] =
        some final ∧ (indexToArray final.index).map (fun ref => (final.index.entries ref).slot) =
          [(0, 0), (1, 0), (0, 1)] := by
    decide +kernel
  rcases bind_eq_some_iff.mp ran with ⟨start, created, steps⟩
  have runs := never_overwrites_along_runs
    (show Reliable (smallWorld reliableIo).io from reliable_reliableIo)
  have owned := runs.1 smallConfig .complete start usable_smallConfig created
  exact ⟨final, ran, named, (runs.2 start owned _ final steps).2⟩

/-- No metadata file can be written. -/
def unsavedIo : Io := fun call _ =>
  if call = .saveMeta then .failed none else .complete

/-- A save fails, the section is evicted, and the third block is written over the first. -/
theorem failed_save_overwrites :
    ∃ final, runSmall unsavedIo [putNano 1, .sectionWriteMeta, putNano 2, putNano 3] = some final ∧
      ¬ NeverOverwrites (smallWorld unsavedIo) final := by
  obtain ⟨final, ran, refs, equal⟩ : ∃ final, runSmall unsavedIo
      [putNano 1, .sectionWriteMeta, putNano 2, putNano 3] = some final ∧
        indexToArray final.index = [0, 1, 2] ∧
        (final.index.entries 0).slot = (final.index.entries 2).slot := by
    decide +kernel
  refine ⟨final, ran, fun never => ?_⟩
  have same := never.distinct 0 (by simp [refs]) 2 (by simp [refs]) equal
  cases same

/-- Every occupied slot is named by an entry of the index. -/
def NoLeak (cache : Cache) : Prop :=
  ∀ id index, cache.store.Occupied id index → ∃ ref ∈ indexToArray cache.index,
      (cache.index.entries ref).slot = (id, index)

theorem noLeak_iff (wellFormed : cache.index.WellFormed) :
    NoLeak cache ↔ ∀ id index, cache.store.Occupied id index →
      ∃ hash, cache.index.slotOf hash = some (id, index) := by
  constructor
  · intro noLeak id index used
    rcases noLeak id index used with ⟨ref, member, equal⟩
    exact ⟨_, equal ▸ slotOf_hashOf wellFormed member⟩
  · intro named id index used
    rcases named id index used with ⟨hash, here⟩
    rcases slotOf_eq_some_iff.mp here with ⟨ref, found, equal⟩
    exact ⟨ref, ((indexFind_eq_some_iff wellFormed).mp found).1, equal⟩

/-- Every effect but a deletion keeps all occupied slots named. -/
theorem NoLeak.step (noLeak : NoLeak before) (owned : SlotsOwned before)
    (effect : SlotEffect deletes before after) (spared : ¬ deletes) : NoLeak after := by
  have reached := (owned.step effect).wellFormed
  rw [noLeak_iff owned.wellFormed] at noLeak
  rw [noLeak_iff reached]
  intro id index used
  cases effect with
  | touched changes store =>
    rw [store.occupied] at used
    rcases noLeak id index used with ⟨hash, here⟩
    exact ⟨hash, by rw [changes.slotOf, here]⟩
  | forgot needed _ _ => exact absurd needed spared
  | added put newId place adds store =>
    have named := adds.slotOf owned.wellFormed
    rcases (store.occupied id index).mp used with old | ⟨rfl, rfl⟩
    · rcases noLeak id index old with ⟨hash, here⟩
      refine ⟨hash, ?_⟩
      rw [named, if_neg, here]
      rintro rfl
      rw [Index.slotOf, Index.entryOf, adds.absent] at here
      cases here
    · exact ⟨put.block.hash, by rw [named, if_pos rfl]⟩
  | moved place moves store =>
    rcases store.onto id index used with ⟨old, here, rfl⟩
    rcases noLeak id old here with ⟨hash, named⟩
    exact ⟨hash, by rw [moves.slotOf, named]; rfl⟩

/-- No step of a run deletes an entry that the index holds. -/
def Sparing (world : World) : Cache → List CacheStep → Prop
  | _, [] => True
  | cache, step :: rest =>
    deletesEntry cache step = false ∧ ∀ next, cacheStep world cache step = some next →
        Sparing world next rest

theorem noLeak_cacheRun (reliable : Reliable world.io) (owned : SlotsOwned start)
    (noLeak : NoLeak start) (sparing : Sparing world start steps)
    (ran : cacheRun world start steps = some final) : NoLeak final := by
  induction steps generalizing start with
  | nil =>
    cases ran
    exact noLeak
  | cons step rest ih =>
    rcases bind_eq_some_iff.mp ran with ⟨next, stepped, ran⟩
    have effect := effect_cacheStep reliable owned stepped
    exact ih (owned.step effect) (noLeak.step owned effect (by simp [sparing.1]))
      (sparing.2 next stepped) ran

/--
A cache in new directories leaks no slot, and neither does a run without deletions and failures.
-/
theorem no_leak_without_deletion {world : World} (reliable : Reliable world.io) :
    (∀ config write start, Usable config →
      blockCacheCreate world config (CacheFiles.fresh config.type) write = some start →
        SlotsOwned start ∧ NoLeak start) ∧
      ∀ start, SlotsOwned start → NoLeak start → ∀ steps final, Sparing world start steps →
          cacheRun world start steps = some final → NoLeak final := by
  constructor
  · intro config write start usable created
    have blank := blank_blockCacheCreate reliable usable created
    exact ⟨blank.slotsOwned, fun id index used => absurd used (blank.unoccupied id index)⟩
  · intro start owned noLeak steps final sparing ran
    exact noLeak_cacheRun reliable owned noLeak sparing ran

/-- Puts alone leak no slot. -/
theorem three_puts_leak_nothing :
    ∃ final, runSmall reliableIo [putNano 1, putNano 2, putNano 3] = some final ∧ NoLeak final := by
  have runs := no_leak_without_deletion
    (show Reliable (smallWorld reliableIo).io from reliable_reliableIo)
  have defined : (runSmall reliableIo [putNano 1, putNano 2, putNano 3]).isSome = true := by
    decide +kernel
  rcases isSome_iff_exists.mp defined with ⟨final, ran⟩
  rcases bind_eq_some_iff.mp ran with ⟨start, created, steps⟩
  have blank := runs.1 smallConfig .complete start usable_smallConfig created
  have sparing : Sparing (smallWorld reliableIo) start [putNano 1, putNano 2, putNano 3] :=
    ⟨rfl, fun _ _ => ⟨rfl, fun _ _ => ⟨rfl, fun _ _ => trivial⟩⟩⟩
  exact ⟨final, ran, runs.2 start blank.1 blank.2 _ final sparing steps⟩

/-- The slot of a removed block stays occupied, and no entry names it. -/
theorem removed_block_leaks_slot :
    ∃ final, runSmall reliableIo [putNano 1, .cache (.remove (nanoBlock 1).hash false)] =
          some final ∧ indexToArray final.index = [] ∧ final.store.Occupied 0 0 ∧
      ¬ NoLeak final := by
  obtain ⟨final, ran, empty, used⟩ : ∃ final, runSmall reliableIo
      [putNano 1, .cache (.remove (nanoBlock 1).hash false)] = some final ∧
        indexToArray final.index = [] ∧ (final.store.mapOf 0).occupied 0 = true := by
    decide +kernel
  refine ⟨final, ran, empty, used, fun noLeak => ?_⟩
  rcases noLeak 0 0 used with ⟨ref, member, _⟩
  rw [empty] at member
  cases member

end Liboffs.BlockCache

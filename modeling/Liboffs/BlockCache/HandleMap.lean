import Liboffs.BlockCache.SlotOwnership

/-!
# The section store as a map

A block that the store has taken is known by its section and its slot.  Seen from outside, the
store is a map from such handles to blocks: a write enters a block under a new handle, a release
takes a handle away, and a defragmentation renames the handles as it reports.  The rotation, the
cache of section objects with its evictions, and the metadata files do not show.

Reads and writes of blocks may fail; the operations on the other files succeed.
-/

namespace Liboffs.BlockCache

open Library Library.ByteOrder Library.FileSlots Function Store

/-- The section and the slot of a block. -/
abbrev Handle := UInt64 × Nat

/-- What a store holds under a handle. -/
def Store.held (store : Store) (handle : Handle) : Option Bytes :=
  if (store.mapOf handle.1).occupied handle.2 then
    some ((store.dataOf handle.1).slots handle.2)
  else
    none

/-- The messages of the section store. -/
inductive StoreCall where
  | write (data : Bytes)
  | read (handle : Handle)
  | deallocate (handle : Handle)
  | sectionFull (id : UInt64)
  | writeMeta
  | defragment

inductive StoreReply where
  | written (result : SectionsWriteResult)
  | read (value : Option Bytes)
  | released (result : Int)
  | defragmented (relocations : List BlockRelocation)
  | done

/-- The handle of a block behind a defragmentation. -/
def Handle.moved (relocations : List BlockRelocation) (handle : Handle) : Handle :=
  (handle.1, relocated relocations handle.1 handle.2)

/-- What the messages mean for a map from handles to blocks. -/
inductive MapCall (blocks : Handle → Option Bytes) :
    StoreCall → StoreReply → (Handle → Option Bytes) → Prop where
  | written {handle : Handle} (free : blocks handle = none) : MapCall blocks (.write data)
      (.written ⟨0, handle.1, handle.2⟩) (update blocks handle (some data))
  | refused (failed : result.result ≠ 0) : MapCall blocks (.write data) (.written result) blocks
  | read (known : blocks handle ≠ none → value = blocks handle ∨ value = none) :
      MapCall blocks (.read handle) (.read value) blocks
  | released (known : blocks handle ≠ none) :
      MapCall blocks (.deallocate handle) (.released 0) (update blocks handle none)
  | unknown (free : blocks handle = none) (failed : result ≠ 0) :
      MapCall blocks (.deallocate handle) (.released result) blocks
  | sectionFull (id : UInt64) : MapCall blocks (.sectionFull id) .done blocks
  | writeMeta : MapCall blocks .writeMeta .done blocks
  | defragmented (moved : ∀ handle bytes, after handle = some bytes ↔
        ∃ old, blocks old = some bytes ∧ old.moved relocations = handle)
      (injective : Set.InjOn (Handle.moved relocations) { old | blocks old ≠ none }) :
      MapCall blocks .defragment (.defragmented relocations) after

/-- A series of messages and their answers. -/
inductive MapRun : (Handle → Option Bytes) → List (StoreCall × StoreReply) →
    (Handle → Option Bytes) → Prop where
  | nil (blocks : Handle → Option Bytes) : MapRun blocks [] blocks
  | cons (first : MapCall blocks call reply between) (rest : MapRun between calls after) :
      MapRun blocks ((call, reply) :: calls) after

section
variable (io : Io) (rounds : Nat) (threshold : Nat → Nat → Bool)

/-- `sections_dispatch`, with the answer. -/
def storeCall (store : Store) : StoreCall → Option (Store × StoreReply)
  | .write data => (sectionsWrite io rounds data store.1 store.2).map
      fun (sections, disk, result) => ((sections, disk), .written result)
  | .read handle => (sectionsRead io store.1 handle.1 handle.2 store.2).map
      fun (sections, disk, value) => ((sections, disk), .read value)
  | .deallocate handle => (sectionsDeallocate io store.1 handle.1 handle.2 store.2).map
      fun (sections, disk, result) => ((sections, disk), .released result)
  | .sectionFull id => some (sectionsFull io store.1 id store.2, .done)
  | .writeMeta => some (sectionsWriteMeta io store.1 store.2, .done)
  | .defragment =>
    let after := sectionsDefragment io threshold store.1 store.2
    some ((after.1, after.2.1), .defragmented after.2.2.relocations)

/-- The answers to a series of messages. -/
def storeCalls : Store → List StoreCall → Option (Store × List (StoreCall × StoreReply))
  | store, [] => some (store, [])
  | store, call :: calls => do
    let (between, reply) ← storeCall io rounds threshold store call
    let (final, replies) ← storeCalls between calls
    some (final, (call, reply) :: replies)

end

variable {store before after : Store}

theorem Store.held_eq_some : store.held handle = some bytes ↔
    store.Occupied handle.1 handle.2 ∧ (store.dataOf handle.1).slots handle.2 = bytes := by
  simp [Store.held, Store.Occupied]

theorem Store.held_ne_none : store.held handle ≠ none ↔ store.Occupied handle.1 handle.2 := by
  simp [Store.held, Store.Occupied]

theorem Keeps.held (keeps : Keeps before after) : after.held = before.held := by
  funext handle
  refine Option.ext fun bytes => ?_
  rw [held_eq_some, held_eq_some, keeps.occupied]
  refine and_congr_right fun here => ?_
  rw [keeps.slots _ _ here]

theorem Places.held {handle : Handle} (places : Places before after handle.1 handle.2 bytes) :
    before.held handle = none ∧ after.held = update before.held handle (some bytes) := by
  refine ⟨of_not_not fun used => places.free (held_ne_none.mp used), ?_⟩
  funext other
  refine Option.ext fun content => ?_
  rw [held_eq_some, places.occupied]
  by_cases same : other = handle
  · subst same
    simp [places.content]
  · rw [update_of_ne same, held_eq_some, ← Prod.ext_iff, or_iff_left same]
    refine and_congr_right fun here => ?_
    rw [places.slots _ _ here]

theorem Relocates.held
    (relocates : Relocates before after (relocated relocations)) (handle : Handle) :
    after.held handle = some bytes ↔
      ∃ old, before.held old = some bytes ∧ old.moved relocations = handle := by
  simp only [held_eq_some]
  constructor
  · rintro ⟨here, content⟩
    obtain ⟨old, used, place⟩ := relocates.onto _ _ here
    refine ⟨(handle.1, old), ⟨used, ?_⟩, Prod.ext rfl place⟩
    rw [← relocates.slots _ _ used, place, content]
  · rintro ⟨old, ⟨used, content⟩, rfl⟩
    exact ⟨relocates.occupied _ _ used, (relocates.slots _ _ used).trans content⟩

theorem freeMapDealloc_eq_none {map : FreeMap} :
    freeMapDealloc map index = none ↔ map.occupied index = false := by
  unfold freeMapDealloc
  split
  · rename_i outside
    simp [FreeMap.occupied, Nat.not_lt.mpr outside]
  · rename_i inside
    split
    · rename_i free
      simp [FreeMap.occupied, free]
    · rename_i used
      simp [FreeMap.occupied, used, Nat.lt_of_not_le inside]

theorem keeps_sectionsFree (consistent : Consistent store) (id : UInt64) :
    Keeps store (sectionsFree store.1 id, store.2) := by
  unfold sectionsFree
  split
  · exact Keeps.refl consistent
  · exact keeps_robin consistent _

/-- A change of a section that frees one slot. -/
theorem Updates.held_released (updates : Updates store sec disk) (index : Nat)
    (data : (disk.sections sec.id).data = store.dataOf sec.id)
    (occupied : ∀ other, sec.freeMap.occupied other =
      ((store.mapOf sec.id).occupied other && !decide (other = index))) :
    Store.held (store.1.store sec, disk) = update store.held (sec.id, index) none := by
  funext handle
  by_cases here : handle.1 = sec.id
  · have map := updates.mapOf_self
    rw [Store.held, here, map, occupied]
    by_cases same : handle.2 = index
    · rw [show handle = (sec.id, index) from Prod.ext here same, update_self]
      simp
    · rw [update_of_ne fun equal => same (congrArg Prod.snd equal), Store.held, here]
      simp [same, Store.dataOf, data]
  · rw [update_of_ne fun equal => here (congrArg Prod.fst equal), Store.held,
      updates.mapOf_of_ne here, Store.held]
    simp [Store.dataOf, updates.others _ here]

section
variable {io : Io} (reliable : Reliable io) (consistent : Consistent store)

include reliable consistent

/-- A release takes the slot of a block, and fails for a free slot. -/
theorem sectionsDeallocate_held (handle : Handle) :
    ∃ final result,
      sectionsDeallocate io store.1 handle.1 handle.2 store.2 = some (final.1, final.2, result) ∧
        Consistent final ∧
        MapCall store.held (.deallocate handle) (.released result) final.held := by
  obtain ⟨id, index⟩ := handle
  obtain ⟨sec, ready, used, kept, cached⟩ := sectionsUse_consistent reliable consistent id
  obtain rfl := (Recency.mem_of_find cached).2
  have map := mapOf_cached cached
  obtain ⟨wellFormed, small, stored⟩ := cached_facts kept.consistent cached
  rw [← kept.held]
  cases released : freeMapDealloc sec.freeMap index with
  | none =>
    have same := (kept.consistent.updates cached).keeps kept.consistent map.symm fun _ _ => rfl
    refine ⟨(ready.1.store sec, ready.2), 1, ?_, same.consistent, ?_⟩
    · simp [sectionsDeallocate, used, sectionDeallocate, released]
    · have free : Store.held ready (sec.id, index) = none := by
        simp [Store.held, map, freeMapDealloc_eq_none.mp released]
      rw [same.held]
      exact .unknown free (by decide)
  | some freeMap =>
    obtain ⟨taken, fine, total, occupied⟩ := freeMapDealloc_spec wellFormed released
    have fewer : Stored ready.1.config.blockSize freeMap (Store.dataOf ready sec.id) := by
      intro place here
      rw [occupied, Bool.and_eq_true] at here
      exact stored place here.1
    obtain ⟨updates, id_eq, map_eq, content⟩ := updates_sectionOnDirty reliable cached fine
      (total ▸ small) sec.opened ready.2 (fun _ _ => rfl) fewer
      (kept.consistent.unplanned _) (kept.consistent.readable _)
    have good := updates.consistent kept.consistent
    have freed := updates.held_released index (by rw [id_eq]; exact content) (by
      intro other
      rw [map_eq, id_eq, map]
      exact occupied other)
    have keeps := keeps_sectionsFree good sec.id
    refine ⟨_, 0, ?_, keeps.consistent, ?_⟩
    · simp only [sectionsDeallocate, used, Option.map_some, sectionDeallocate, released]
      rfl
    · rw [keeps.held, freed, id_eq]
      refine .released ?_
      rw [held_ne_none, Store.Occupied, map]
      exact taken

/-- Every message does to the map what it means. -/
theorem storeCall_held (called : storeCall io rounds threshold store call = some (after, reply)) :
    Consistent after ∧ MapCall store.held call reply after.held := by
  cases call with
  | write data =>
    simp only [storeCall, Option.map_eq_some_iff] at called
    obtain ⟨⟨sections, disk, result⟩, ran, same⟩ := called
    cases same
    rcases writes_sectionsWrite reliable consistent ran with ⟨failed, keeps⟩ | ⟨done, places⟩
    · rw [keeps.held]
      exact ⟨keeps.consistent, .refused failed⟩
    · obtain ⟨code, id, index⟩ := result
      obtain rfl : code = 0 := done
      obtain ⟨free, held⟩ := @Places.held _ _ _ (id, index) places
      rw [held]
      exact ⟨places.consistent, .written free⟩
  | read handle =>
    obtain ⟨ready, value, time, ran, keeps, known⟩ :=
      sectionsRead_consistent reliable consistent handle.1 handle.2
    rw [storeCall, ran] at called
    cases called
    rw [keeps.held]
    refine ⟨keeps.consistent, .read fun held => ?_⟩
    have here := held_ne_none.mp held
    rw [known here, held_eq_some.mpr ⟨here, rfl⟩]
    split
    · exact .inl rfl
    · exact .inr rfl
  | deallocate handle =>
    obtain ⟨final, result, ran, good, freed⟩ := sectionsDeallocate_held reliable consistent handle
    rw [storeCall, ran] at called
    cases called
    exact ⟨good, freed⟩
  | sectionFull id =>
    have keeps := keeps_sectionsFull reliable consistent id
    cases called
    rw [keeps.held]
    exact ⟨keeps.consistent, .sectionFull id⟩
  | writeMeta =>
    have keeps := keeps_sectionsWriteMetaLoop reliable consistent consistent.ahead
    cases called
    exact ⟨keeps.consistent, keeps.held ▸ .writeMeta⟩
  | defragment =>
    have relocates := relocates_sectionsDefragment reliable threshold consistent
    cases called
    refine ⟨relocates.consistent, .defragmented (fun handle bytes => relocates.held handle) ?_⟩
    intro first held second held' same
    have id := congrArg Prod.fst same
    obtain ⟨id, index⟩ := first
    obtain ⟨_, other⟩ := second
    obtain rfl := id
    exact congrArg _ (relocates.injective _ _ _ (held_ne_none.mp held) (held_ne_none.mp held')
      (congrArg Prod.snd same))

end

/-- In every run the section store answers as a map from handles to blocks does. -/
theorem section_store_is_a_map (io : Io) (rounds : Nat) (threshold : Nat → Nat → Bool)
    (calls : List StoreCall) (reliable : Reliable io) (consistent : Consistent store)
    (ran : storeCalls io rounds threshold store calls = some (after, replies)) :
    MapRun store.held replies after.held := by
  induction calls generalizing store replies with
  | nil =>
    cases ran
    exact .nil _
  | cons call calls ih =>
    simp only [storeCalls, Option.bind_eq_bind, Option.bind_eq_some_iff] at ran
    obtain ⟨⟨between, reply⟩, called, ⟨final, later⟩, ran, same⟩ := ran
    cases same
    obtain ⟨good, first⟩ := storeCall_held reliable consistent called
    exact .cons first (ih good ran)

/-- A store with one section of one slot. -/
def oneSlotStore : Store :=
  (initialSections ⟨1, true⟩ 1 1 1 [0] 1, Disk.fresh 1)

theorem one_block_is_held : ∃ final replies,
    storeCalls reliableIo 1 (fun _ _ => false) oneSlotStore
        [.write [7], .read (0, 0), .deallocate (0, 0)] = some (final, replies) ∧
      replies.map Prod.snd = [.written ⟨0, 0, 0⟩, .read (some [7]), .released 0] ∧
      MapRun oneSlotStore.held replies final.held := by
  have ran : storeCalls reliableIo 1 (fun _ _ => false) oneSlotStore
      [.write [7], .read (0, 0), .deallocate (0, 0)] = some (_, _) := rfl
  exact ⟨_, _, ran, rfl, section_store_is_a_map reliableIo 1 _ _ reliable_reliableIo
    (consistent_fresh (by decide) (by decide) (by decide) _ _) ran⟩

/-! ## Defragmentation of a cache -/

theorem SlotsOwned.deallocate (reliable : Reliable io) {cache : Cache} (owned : SlotsOwned cache)
    (handle : Handle) (unnamed : ∀ hash, cache.index.slotOf hash ≠ some handle)
    (freed : sectionsDeallocate io cache.sections handle.1 handle.2 cache.disk =
      some (sections, disk, result)) :
    SlotsOwned (cache.withStore (sections, disk)) := by
  obtain ⟨final, outcome, ran, good, call⟩ :=
    sectionsDeallocate_held reliable owned.consistent handle
  cases freed.symm.trans ran
  refine ⟨owned.wellFormed, good, fun hash slot named => ?_, owned.unique⟩
  have used := held_ne_none.mpr (owned.occupied hash slot named)
  refine held_ne_none.mp ?_
  change final.held slot ≠ none
  generalize final.held = blocks at call
  cases call with
  | released =>
    rwa [update_of_ne]
    intro same
    exact unnamed hash (named.trans (congrArg some same))
  | unknown => exact used

/--
A defragmentation keeps the content of every block, and the sections that it does not skip are
compact.
-/
theorem defragmentation_preserves_contents {world : World} (reliable : Reliable world.io)
    {cache : Cache} (owned : SlotsOwned cache) (threshold : Nat → Nat → Bool) (write : SnapshotWrite) :
    let after := (cacheDefragment world cache threshold write).1
    (∀ hash slot, cache.index.slotOf hash = some slot →
      ∃ index, after.index.slotOf hash = some (slot.1, index) ∧
        (after.store.dataOf slot.1).slots index = (cache.store.dataOf slot.1).slots slot.2) ∧
      SlotsOwned after ∧
      ∀ sec ∈ cache.sections.lru, skipsSection threshold sec.freeMap = false →
        ∀ index, after.store.Occupied sec.id index ↔
          index < sec.freeMap.totalBlocks - freeMapCountFree sec.freeMap := by
  rcases moves_cacheDefragment reliable owned threshold write with ⟨place, moves, relocates⟩
  refine ⟨fun hash slot named => ?_,
    owned.step (SlotEffect.moved place moves relocates : SlotEffect True _ _),
    fun sec member kept index => ?_⟩
  · refine ⟨place slot.1 slot.2, ?_, relocates.slots slot.1 slot.2 (owned.occupied hash slot named)⟩
    rw [moves.slotOf, named]
    rfl
  · have occupied := (mapOf_sectionsDefragmentLoop reliable threshold owned.consistent
      owned.consistent.ahead ⟨0, []⟩).2 sec member kept index
    have used := owned.consistent.wellFormed sec.id
    rw [Store.mapOf_cached (owned.consistent.ahead.cached sec member)] at used
    have count := freeMapCountFree_eq used
    have store : (cacheDefragment world cache threshold write).1.store =
        ((sectionsDefragment world.io threshold cache.sections cache.disk).1,
          (sectionsDefragment world.io threshold cache.sections cache.disk).2.1) := by
      unfold cacheDefragment
      simp only
      split <;> rfl
    rw [store]
    refine occupied.trans ?_
    omega

/-- One section of four slots is written at a time. -/
def wideConfig : CacheConfig :=
  { smallConfig with sectionSize := 4, maxTupleSize := 1 }

/-- Four blocks, of which the first is removed. -/
def filledCache : Option Cache :=
  (blockCacheCreate (smallWorld reliableIo) wideConfig (CacheFiles.fresh .nano)
    .complete).bind fun start => cacheRun (smallWorld reliableIo) start
      [putNano 1, putNano 2, putNano 3, putNano 4, .cache (.remove (nanoBlock 1).hash false)]

/-- The slot of the block that was removed is free. -/
def gappyCache : Option Cache :=
  filledCache.bind fun cache => (sectionsDeallocate reliableIo cache.sections 0 0 cache.disk).map
    fun freed => cache.withStore (freed.1, freed.2.1)

def namedSlots (cache : Cache) : List Handle :=
  (indexToArray cache.index).map fun ref => (cache.index.entries ref).slot

theorem slotsOwned_gappyCache (made : gappyCache = some cache) : SlotsOwned cache := by
  simp only [gappyCache, Option.bind_eq_some_iff, Option.map_eq_some_iff] at made
  obtain ⟨filled, ran, ⟨sections, disk, result⟩, freed, rfl⟩ := made
  have behind : ∃ filled, filledCache = some filled ∧ (0, 0) ∉ namedSlots filled := by decide +kernel
  obtain ⟨other, again, unnamed⟩ := behind
  cases again.symm.trans ran
  obtain ⟨start, created, steps⟩ := Option.bind_eq_some_iff.mp ran
  have owned := slotsOwned_cacheRun reliable_reliableIo (blank_blockCacheCreate
    reliable_reliableIo ⟨by decide, by decide⟩ created).slotsOwned steps
  refine SlotsOwned.deallocate reliable_reliableIo owned (0, 0)
    (fun hash named => unnamed ?_) freed
  obtain ⟨ref, found, here⟩ := slotOf_eq_some_iff.mp named
  exact List.mem_map.mpr ⟨ref, ((indexFind_eq_some_iff owned.wellFormed).mp found).1, here⟩

/-- The three blocks are moved to the front. -/
theorem gap_is_closed :
    ∃ cache, gappyCache = some cache ∧ namedSlots cache = [(0, 1), (0, 2), (0, 3)] ∧
      namedSlots (cacheDefragment (smallWorld reliableIo) cache (fun _ _ => false) .complete).1 =
        [(0, 0), (0, 1), (0, 2)] ∧
      ∀ index, (cacheDefragment (smallWorld reliableIo) cache
        (fun _ _ => false) .complete).1.store.Occupied 0 index ↔ index < 3 := by
  obtain ⟨cache, made, before, after, sec, cached, id, kept, used⟩ : ∃ cache, gappyCache = some cache ∧
      namedSlots cache = [(0, 1), (0, 2), (0, 3)] ∧
      namedSlots (cacheDefragment (smallWorld reliableIo) cache (fun _ _ => false) .complete).1 =
        [(0, 0), (0, 1), (0, 2)] ∧ ∃ sec ∈ cache.sections.lru, sec.id = 0 ∧
        skipsSection (fun _ _ => false) sec.freeMap = false ∧
        sec.freeMap.totalBlocks - freeMapCountFree sec.freeMap = 3 := by
    decide +kernel
  refine ⟨cache, made, before, after, ?_⟩
  have reliable : Reliable (smallWorld reliableIo).io := reliable_reliableIo
  have compact := (defragmentation_preserves_contents reliable
    (slotsOwned_gappyCache made) (fun _ _ => false) .complete).2.2 sec cached kept
  rwa [id, used] at compact

end Liboffs.BlockCache

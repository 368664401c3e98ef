import Liboffs.BlockCache.Sections
import Liboffs.BlockCache.SectionRecovery

/-!
# The section store as a store of slots

A section that is cached has the free map of its object, any other one the
map that its metadata file holds.  As long as no operation on metadata and
plan files fails, the eviction of a section and its later creation do not
change this map.
-/

namespace Liboffs.BlockCache

open Library Library.ByteOrder Library.FileSlots List Option Recency

/-- The map that a section is created with. -/
def storedMap (size : Nat) (files : SectionFiles) : FreeMap :=
  match files.metadata with
  | none => freeMapInit size
  | some bytes => (freeMapDeserialize bytes).getD (freeMapInit size)

variable {id : UInt64} {after before : Store} {store : Store} {sec : Section}

namespace Store

/-- The map of a section, cached or not. -/
def mapOf (store : Store) (id : UInt64) : FreeMap :=
  match Recency.find Section.id id store.1.lru with
  | some sec => sec.freeMap
  | none => storedMap store.1.size (store.2.sections id)

/-- The data file of a section. -/
def dataOf (store : Store) (id : UInt64) : SlotFile :=
  (store.2.sections id).data

/-- A slot of a section is occupied. -/
def Occupied (store : Store) (id : UInt64) (index : Nat) : Prop :=
  (store.mapOf id).occupied index = true

theorem mapOf_cached (found : Recency.find Section.id id store.1.lru = some sec) :
    store.mapOf id = sec.freeMap := by
  rw [mapOf, found]

theorem mapOf_uncached (absent : Recency.find Section.id id store.1.lru = none) :
    store.mapOf id = storedMap store.1.size (store.2.sections id) := by
  rw [mapOf, absent]

end Store

/-- Metadata that a section can be created from. -/
def Readable (metadata : Option Bytes) : Prop :=
  ∀ bytes, metadata = some bytes → (freeMapDeserialize bytes).isSome = true

/--
No section is cached twice, clean sections are saved, maps fit their files, and no plan is left.
-/
structure Consistent (store : Store) : Prop where
  positive : 0 < store.1.config.blockSize
  caching : 0 < store.1.lruSize
  distinct : Recency.Distinct Section.id store.1.lru
  clean : ∀ sec ∈ store.1.lru, sec.dirty = false →
    storedMap store.1.size (store.2.sections sec.id) = sec.freeMap
  wellFormed : ∀ id, (store.mapOf id).WellFormed
  small : ∀ id, (store.mapOf id).totalBlocks < 2 ^ 32
  stored : ∀ id, Stored store.1.config.blockSize (store.mapOf id) (store.dataOf id)
  unplanned : ∀ id, (store.2.sections id).plan = none
  readable : ∀ id, Readable (store.2.sections id).metadata

/-- Two stores have the same settings, but for the capacity. -/
structure SameSettings (before after : Sections) : Prop where
  config : after.config = before.config
  size : after.size = before.size
  maxTupleSize : after.maxTupleSize = before.maxTupleSize
  lruSize : after.lruSize = before.lruSize

theorem SameSettings.refl (sections : Sections) : SameSettings sections sections :=
  ⟨rfl, rfl, rfl, rfl⟩

theorem SameSettings.trans (before : SameSettings first second)
    (after : SameSettings second third) : SameSettings first third :=
  ⟨after.config.trans before.config, after.size.trans before.size,
    after.maxTupleSize.trans before.maxTupleSize, after.lruSize.trans before.lruSize⟩

/-- The occupied slots and their content are the same. -/
structure Keeps (before after : Store) : Prop where
  consistent : Consistent after
  settings : SameSettings before.1 after.1
  map : ∀ id, after.mapOf id = before.mapOf id
  slots : ∀ id index, before.Occupied id index →
    (after.dataOf id).slots index = (before.dataOf id).slots index

theorem Keeps.refl (consistent : Consistent store) : Keeps store store :=
  ⟨consistent, .refl _, fun _ => rfl, fun _ _ _ => rfl⟩

theorem Keeps.occupied (keeps : Keeps before after) (id : UInt64)
    (index : Nat) : after.Occupied id index ↔ before.Occupied id index := by
  rw [Store.Occupied, Store.Occupied, keeps.map]

theorem Keeps.trans (before : Keeps first second) (after : Keeps second third) :
    Keeps first third where
  consistent := after.consistent
  settings := before.settings.trans after.settings
  map := fun id => (after.map id).trans (before.map id)
  slots := by
    intro id index here
    rw [after.slots id index ((before.occupied id index).mpr here), before.slots id index here]

/-- What a step may do to the files of a section without changing it. -/
structure FilesKept (map : FreeMap) (before after : SectionFiles) : Prop where
  size : before.data.size ≤ after.data.size
  slots : ∀ index, map.occupied index = true → after.data.slots index = before.data.slots index
  unplanned : after.plan = none
  readable : Readable after.metadata

theorem Consistent.filesKept (consistent : Consistent store) (id : UInt64) :
    FilesKept (store.mapOf id) (store.2.sections id) (store.2.sections id) :=
  ⟨le_refl _, fun _ _ => rfl, consistent.unplanned id, consistent.readable id⟩

section
variable (consistent : Consistent before) (settings : SameSettings before.1 after.1)
  (distinct : Recency.Distinct Section.id after.1.lru)
include consistent settings distinct

/-- A step that changes no map and no occupied slot keeps the store. -/
theorem keeps_of (map : ∀ id, after.mapOf id = before.mapOf id)
    (files : ∀ id, FilesKept (before.mapOf id) (before.2.sections id) (after.2.sections id))
    (clean : ∀ sec ∈ after.1.lru, sec.dirty = false →
      storedMap before.1.size (after.2.sections sec.id) = sec.freeMap) : Keeps before after where
  consistent :=
    { positive := by rw [settings.config]; exact consistent.positive
      caching := by rw [settings.lruSize]; exact consistent.caching
      distinct
      clean := by rw [settings.size]; exact clean
      wellFormed := fun id => by
        rw [map]
        exact consistent.wellFormed id
      small := fun id => by
        rw [map]
        exact consistent.small id
      stored := fun id => by
        rw [map, settings.config]
        intro index here
        exact le_trans (consistent.stored id index here) (files id).size
      unplanned := fun id => (files id).unplanned
      readable := fun id => (files id).readable }
  settings := settings
  map := map
  slots := fun id => (files id).slots

/-- A step that only changes rotation, order of use and time. -/
theorem keeps_of_touch
    (find : ∀ id, Recency.find Section.id id after.1.lru = Recency.find Section.id id before.1.lru)
    (files : after.2.sections = before.2.sections) : Keeps before after := by
  have map (id : UInt64) : after.mapOf id = before.mapOf id := by
    rw [Store.mapOf, Store.mapOf, find, settings.size, files]
  refine keeps_of consistent settings distinct map ?_ ?_
  · intro id
    rw [files]
    exact consistent.filesKept id
  · intro sec member clean
    have here := distinct.find_of_mem member
    rw [find] at here
    rw [files]
    exact consistent.clean sec (mem_of_find here).1 clean

end

section
variable {io : Io} (reliable : Reliable io)

section
variable {map : FreeMap} (wellFormed : map.WellFormed) (small : map.totalBlocks < 2 ^ 32)
include wellFormed small

theorem storedMap_of_saved {files : SectionFiles}
    (saved : files.metadata = some (freeMapSerialize map)) : storedMap size files = map := by
  rw [storedMap, saved]
  simp [freeMapDeserialize_freeMapSerialize wellFormed small]

theorem readable_of_saved {metadata : Option Bytes}
    (saved : metadata = some (freeMapSerialize map)) : Readable metadata := by
  intro bytes equal
  obtain rfl := Option.some.inj (saved.symm.trans equal)
  rw [freeMapDeserialize_freeMapSerialize wellFormed small]
  rfl

end

include reliable

theorem sectionSaveMeta_reliable :
    sectionSaveMeta io sec disk = (disk.setMetadata sec.id
        (some (freeMapSerialize sec.freeMap))).tick 1 := by
  rw [sectionSaveMeta, reliable .saveMeta disk.time rfl, FileWrite.replace]

theorem sectionCreate_consistent (consistent : Consistent store) (id : UInt64) :
    ∃ elapsed,
      sectionCreate io store.1.config store.1.size id store.2 = (some (newSection id
          (storedMap store.1.size (store.2.sections id))), store.2.tick elapsed) := by
  have unplanned := consistent.unplanned id
  have loads : (io .loadMeta store.2.time).succeeds = true := by
    rw [reliable .loadMeta _ rfl]
    rfl
  cases metadata : (store.2.sections id).metadata with
  | none =>
    refine ⟨0, ?_⟩
    simp only [sectionCreate, storedMap, metadata, sectionDefragPlanRecover, newSection, unplanned]
    rfl
  | some bytes =>
    rcases isSome_iff_exists.mp (consistent.readable id bytes metadata) with ⟨map, decoded⟩
    refine ⟨1, ?_⟩
    simp [sectionCreate, storedMap, metadata, loads, decoded, sectionDefragPlanRecover,
      newSection, Disk.sections_tick, unplanned]

/-- What the destruction of a cached section leaves in its files. -/
theorem sectionDestroy_consistent (consistent : Consistent store) (member : sec ∈ store.1.lru) :
    storedMap store.1.size ((sectionDestroy io sec store.2).sections sec.id) = sec.freeMap ∧
      ∀ id, FilesKept (store.mapOf id) (store.2.sections id)
        ((sectionDestroy io sec store.2).sections id) := by
  have map := Store.mapOf_cached (consistent.distinct.find_of_mem member)
  have wellFormed := consistent.wellFormed sec.id
  have small := consistent.small sec.id
  rw [map] at wellFormed small
  unfold sectionDestroy
  split
  · rw [sectionSaveMeta_reliable reliable]
    constructor
    · exact storedMap_of_saved wellFormed small (by simp)
    · intro id
      rw [Disk.sections_tick]
      by_cases same : id = sec.id
      · subst same
        rw [Disk.sections_setMetadata]
        exact ⟨le_refl _, fun _ _ => rfl, consistent.unplanned _,
          readable_of_saved wellFormed small rfl⟩
      · rw [Disk.sections_setMetadata_of_ne same]
        exact consistent.filesKept id
  · rename_i clean
    exact ⟨consistent.clean sec member (Bool.eq_false_iff.mpr clean), consistent.filesKept⟩

theorem sectionDestroy_of_ne (different : id ≠ sec.id) (disk : Disk) :
    (sectionDestroy io sec disk).sections id = disk.sections id := by
  unfold sectionDestroy
  split
  · rw [sectionSaveMeta_reliable reliable, Disk.sections_tick,
      Disk.sections_setMetadata_of_ne different]
  · rfl

/-- The section as it is created from its files. -/
def Store.fresh (store : Store) (id : UInt64) : Section :=
  newSection id (storedMap store.1.size (store.2.sections id))

omit reliable in
/-- A created section takes its place before cached ones that stay. -/
theorem keeps_cons (consistent : Consistent store)
    (absent : Recency.find Section.id id store.1.lru = none)
    (distinct : Recency.Distinct Section.id kept) (subset : ∀ sec ∈ kept, sec ∈ store.1.lru)
    (others : ∀ other ≠ id, Store.mapOf ({ store.1 with lru := kept }, disk) other =
        store.mapOf other)
    (files : ∀ other, FilesKept (store.mapOf other) (store.2.sections other) (disk.sections other))
    (same : disk.sections id = store.2.sections id) (clean : ∀ sec ∈ kept, sec.dirty = false →
      storedMap store.1.size (disk.sections sec.id) = sec.freeMap) :
    Keeps store ({ store.1 with lru := store.fresh id :: kept }, disk) := by
  have away : ∀ sec ∈ kept, sec.id ≠ id := fun sec member =>
    find_eq_none.mp absent sec (subset sec member)
  refine keeps_of consistent ⟨rfl, rfl, rfl, rfl⟩ ?_ ?_ files ?_
  · rw [Recency.Distinct, map_cons, nodup_cons]
    refine ⟨fun member => ?_, distinct⟩
    rcases mem_map.mp member with ⟨sec, inside, equal⟩
    exact away sec inside equal
  · intro other
    by_cases here : other = id
    · subst here
      have first : find Section.id other
          (store.fresh other :: kept) = some (store.fresh other) :=
        find_cons_self
      rw [Store.mapOf_uncached absent, Store.mapOf]
      simp only [first]
      rfl
    · rw [← others other here, Store.mapOf, Store.mapOf]
      have passed : find Section.id other (store.fresh id :: kept) = find Section.id other kept :=
        find_cons_of_ne fun equal => here equal.symm
      simp only [passed]
  · intro sec member unchanged
    rcases mem_cons.mp member with rfl | member
    · change storedMap store.1.size (disk.sections id) = _
      rw [same]
      rfl
    · exact clean sec member unchanged

section
variable {store : Store} (consistent : Consistent store)
include consistent

/-- Caching a created section keeps the store, also when it evicts one. -/
theorem keeps_sectionsLruCachePut (id : UInt64) :
    Keeps store (sectionsLruCachePut io store.1 (store.fresh id) store.2) ∧
      (Recency.find Section.id id store.1.lru = none → Recency.find Section.id id
            (sectionsLruCachePut io store.1 (store.fresh id)
              store.2).1.lru = some (store.fresh id)) := by
  have caches : store.1.lruSize ≠ 0 := ne_of_gt consistent.caching
  have first (kept : List Section) : find Section.id id (store.fresh id :: kept) =
        some (store.fresh id) :=
    find_cons_self
  have id_eq : (store.fresh id).id = id := rfl
  simp only [sectionsLruCachePut, if_neg caches, id_eq]
  cases found : find Section.id id store.1.lru with
  | some sec =>
    refine ⟨keeps_of_touch consistent ⟨rfl, rfl, rfl, rfl⟩
      consistent.distinct.touch (fun _ => find_touch) rfl, ?_⟩
    intro absent
    cases absent
  | none =>
    have whole := keeps_cons consistent found consistent.distinct
        (fun _ member => member) (fun _ _ => rfl) consistent.filesKept
        rfl consistent.clean
    simp only
    split
    · cases end_ : store.1.lru.getLast? with
      | none => exact ⟨whole, fun _ => first _⟩
      | some last =>
        have member := mem_of_getLast? end_
        have destroyed := sectionDestroy_consistent reliable consistent member
        have find (other : UInt64) := consistent.distinct.find_dropLast (k := other) end_
        refine ⟨keeps_cons consistent found consistent.distinct.dropLast
          (dropLast_sublist _).subset ?_ destroyed.2 ?_ ?_, fun _ => first _⟩
        · intro other _
          by_cases here : last.id = other
          · subst here
            rw [Store.mapOf_uncached (by rw [find, if_pos rfl]), Store.mapOf_cached
                (consistent.distinct.find_of_mem member)]
            exact destroyed.1
          · rw [Store.mapOf, Store.mapOf, find, if_neg here,
              sectionDestroy_of_ne reliable fun equal => here equal.symm]
        · refine sectionDestroy_of_ne reliable ?_ _
          rintro rfl
          exact find_eq_none.mp found last member rfl
        · intro sec inside clean
          have here := find sec.id
          rw [consistent.distinct.dropLast.find_of_mem inside] at here
          have different : last.id ≠ sec.id := by
            intro same
            rw [if_pos same] at here
            cases here
          rw [sectionDestroy_of_ne reliable fun equal => different equal.symm]
          exact consistent.clean sec ((dropLast_sublist _).subset inside) clean
    · exact ⟨whole, fun _ => first _⟩

theorem sectionsAcquire_consistent (id : UInt64) :
    ∃ sec after, (sectionsAcquire io store.1 id store.2 = (.cached sec, after) ∨
        sectionsAcquire io store.1 id store.2 = (.created sec, after)) ∧
      Keeps store after ∧ Recency.find Section.id id after.1.lru = some sec := by
  unfold sectionsAcquire
  cases found : find Section.id id store.1.lru with
  | some sec =>
    refine ⟨sec, _, Or.inl rfl, keeps_of_touch consistent
      ⟨rfl, rfl, rfl, rfl⟩ consistent.distinct.touch (fun _ => find_touch) rfl, ?_⟩
    exact find_touch.trans found
  | none =>
    rcases sectionCreate_consistent reliable consistent id with ⟨elapsed, created⟩
    have ticked : Keeps store (store.1, store.2.tick elapsed) :=
      keeps_of_touch consistent (.refl _) consistent.distinct (fun _ => rfl) rfl
    have put := keeps_sectionsLruCachePut reliable ticked.consistent id
    simp only [created]
    exact ⟨_, _, Or.inr rfl, ticked.trans put.1, put.2 found⟩

/-- A fresh section does not change the slots. -/
theorem keeps_sectionsCreateFresh :
    ∃ after, sectionsCreateFresh io store.1 store.2 =
      (some store.1.nextId, after) ∧ Keeps store after := by
  rcases sectionCreate_consistent reliable consistent store.1.nextId with ⟨elapsed, created⟩
  have ticked : Keeps store ({ store.1 with nextId := store.1.nextId + 1 }, store.2.tick elapsed) :=
    keeps_of_touch consistent ⟨rfl, rfl, rfl, rfl⟩ consistent.distinct (fun _ => rfl) rfl
  have put := keeps_sectionsLruCachePut reliable ticked.consistent store.1.nextId
  refine ⟨_, ?_, ticked.trans put.1⟩
  simp only [sectionsCreateFresh, created]
  rfl

end

omit reliable in
theorem keeps_robin (consistent : Consistent store) (robin : List UInt64) :
    Keeps store ({ store.1 with robin }, store.2) :=
  keeps_of_touch consistent ⟨rfl, rfl, rfl, rfl⟩ consistent.distinct (fun _ => rfl) rfl

theorem keeps_sectionsCreateAll (place : List UInt64 → UInt64 → List UInt64) (count : Nat)
    (consistent : Consistent store) :
    Keeps store (sectionsCreateAll io place count store.1 store.2) := by
  induction count generalizing store with
  | zero => exact Keeps.refl consistent
  | succ count ih =>
    rcases keeps_sectionsCreateFresh reliable consistent with ⟨after, created, kept⟩
    have placed := keeps_robin kept.consistent (place after.1.robin store.1.nextId)
    have step := kept.trans placed
    simp only [sectionsCreateAll, created]
    exact step.trans (ih placed.consistent)

theorem keeps_sectionsFull (consistent : Consistent store) (id : UInt64) :
    Keeps store (sectionsFull io store.1 id store.2) := by
  have removed := keeps_robin consistent (roundRobinRemove store.1.robin id)
  have refilled := removed.trans (keeps_sectionsCreateAll reliable roundRobinUnshift
      (store.1.maxTupleSize - (roundRobinRemove store.1.robin id).length) removed.consistent)
  unfold sectionsFull
  simp only
  split
  · exact refilled.trans (keeps_sectionsCreateAll reliable roundRobinAdd _ refilled.consistent)
  · exact refilled

end

/-- What a change of a cached section and of its files has to respect. -/
structure Updates (store : Store) (sec : Section) (disk : Disk) : Prop where
  cached : ∃ old, Recency.find Section.id sec.id store.1.lru = some old
  others : ∀ id ≠ sec.id, disk.sections id = store.2.sections id
  wellFormed : sec.freeMap.WellFormed
  small : sec.freeMap.totalBlocks < 2 ^ 32
  stored : Stored store.1.config.blockSize sec.freeMap (disk.sections sec.id).data
  unplanned : (disk.sections sec.id).plan = none
  readable : Readable (disk.sections sec.id).metadata
  clean : sec.dirty = false → storedMap store.1.size (disk.sections sec.id) = sec.freeMap

section
variable {store : Store} {sec : Section}

section
variable (updates : Updates store sec disk)
include updates

theorem Updates.mapOf_self : Store.mapOf (store.1.store sec, disk) sec.id = sec.freeMap := by
  rcases updates.cached with ⟨old, found⟩
  refine Store.mapOf_cached ?_
  change find Section.id sec.id (replace Section.id sec store.1.lru) = some sec
  rw [find_replace, if_pos rfl, found]
  rfl

theorem Updates.mapOf_of_ne (different : id ≠ sec.id) :
    Store.mapOf (store.1.store sec, disk) id = store.mapOf id := by
  have find : find Section.id id (store.1.store sec).lru = find Section.id id store.1.lru := by
    change find Section.id id (replace Section.id sec store.1.lru) = _
    rw [find_replace, if_neg fun same => different same.symm]
  simp only [Store.mapOf, find, updates.others id different]
  rfl

/-- Such a change keeps the store consistent. -/
theorem Updates.consistent (consistent : Consistent store) :
    Consistent (store.1.store sec, disk) := by
  have distinct : Recency.Distinct Section.id (store.1.store sec).lru := consistent.distinct.replace
  have everywhere {P : UInt64 → FreeMap → SectionFiles → Prop}
      (before : ∀ id, P id (store.mapOf id) (store.2.sections id))
      (here : P sec.id sec.freeMap (disk.sections sec.id)) (id : UInt64) :
      P id (Store.mapOf (store.1.store sec, disk) id) (disk.sections id) := by
    by_cases same : id = sec.id
    · subst same
      rw [updates.mapOf_self]
      exact here
    · rw [updates.mapOf_of_ne same, updates.others id same]
      exact before id
  refine ⟨consistent.positive, consistent.caching, distinct, ?_,
    everywhere (P := fun _ map _ => map.WellFormed) consistent.wellFormed updates.wellFormed,
    everywhere (P := fun _ map _ => map.totalBlocks < 2 ^ 32) consistent.small updates.small,
    everywhere (P := fun _ map files =>
      Stored store.1.config.blockSize map files.data)
      consistent.stored updates.stored,
    everywhere (P := fun _ _ files => files.plan = none) consistent.unplanned updates.unplanned,
    everywhere (P := fun _ _ files => Readable files.metadata) consistent.readable updates.readable⟩
  intro other member clean
  rcases mem_replace member with rfl | ⟨inside, different⟩
  · exact updates.clean clean
  · rw [updates.others other.id different]
    exact consistent.clean other inside clean

/-- A change that leaves the map and the occupied slots as they are. -/
theorem Updates.keeps (consistent : Consistent store)
    (map : sec.freeMap = store.mapOf sec.id) (slots : ∀ index, sec.freeMap.occupied index = true →
      (disk.sections sec.id).data.slots index = (store.dataOf sec.id).slots index) :
    Keeps store (store.1.store sec, disk) := by
  refine ⟨updates.consistent consistent, ⟨rfl, rfl, rfl, rfl⟩, ?_, ?_⟩
  · intro id
    by_cases same : id = sec.id
    · subst same
      rw [updates.mapOf_self, map]
    · exact updates.mapOf_of_ne same
  · intro id index here
    by_cases same : id = sec.id
    · subst same
      rw [Store.Occupied, ← map] at here
      exact slots index here
    · change (disk.sections id).data.slots index = _
      rw [updates.others id same]
      rfl

end

end

end Liboffs.BlockCache

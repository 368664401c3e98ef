import Liboffs.BlockCache.SlotStoreSteps

/-!
# What a crash leaves of the section store

The free map of a cached section only grows while blocks are written, so that it contains the map
in its metadata file, whether operations succeed or fail, as long as no metadata file is left half
written.  A crash is a case of this: from its moment on no operation has an effect.

The metadata files therefore never lose a slot, and the store can be created from the files at any
time.
-/

namespace Liboffs.BlockCache

open Library Library.ByteOrder Library.FileSlots List Option Function Recency Disk

/-- A save of metadata is complete or leaves the file as it was. -/
def Untorn (io : Io) : Prop :=
  ∀ time, io .saveMeta time = .complete ∨ io .saveMeta time = .failed none

theorem Reliable.untorn (reliable : Reliable io) : Untorn io :=
  fun time => .inl (reliable .saveMeta time rfl)

/-- A well-formed map whose occupied slots are in a data file. -/
structure MapFits (blockSize : Nat) (map : FreeMap) (data : SlotFile) : Prop where
  wellFormed : map.WellFormed
  small : map.totalBlocks < 2 ^ 32
  stored : Stored blockSize map data

/-- Files that a section can be created from. -/
structure FilesFit (blockSize size : Nat) (files : SectionFiles) : Prop where
  map : MapFits blockSize (storedMap size files) files.data
  unplanned : files.plan = none
  readable : Readable files.metadata

/-- All slots of a map are occupied in another one. -/
def FreeMap.Covers (outer inner : FreeMap) : Prop :=
  ∀ index, inner.occupied index = true → outer.occupied index = true

/-- The map of a section contains the one in its metadata file. -/
structure Nested (blockSize size : Nat) (files : SectionFiles) (map : FreeMap) : Prop where
  fits : MapFits blockSize map files.data
  covers : map.Covers (storedMap size files)

/-- The store can be created from its files, whose maps the cached maps contain. -/
structure Restorable (store : Store) : Prop where
  distinct : Recency.Distinct Section.id store.1.lru
  files : ∀ id, FilesFit store.1.config.blockSize store.1.size (store.2.sections id)
  nested : ∀ sec ∈ store.1.lru,
    Nested store.1.config.blockSize store.1.size (store.2.sections sec.id) sec.freeMap

/-- The store is restorable still, and no slot has left the files. -/
structure Retains (before after : Store) : Prop where
  restorable : Restorable after
  settings : SameSettings before.1 after.1
  covers : ∀ id,
    (storedMap after.1.size (after.2.sections id)).Covers
      (storedMap before.1.size (before.2.sections id))

variable {store : Store}

theorem Retains.refl (restorable : Restorable store) : Retains store store :=
  ⟨restorable, .refl _, fun _ _ used => used⟩

theorem Retains.trans (early : Retains first second) (late : Retains second third) :
    Retains first third where
  restorable := late.restorable
  settings := early.settings.trans late.settings
  covers := fun id index used => late.covers id index (early.covers id index used)

variable {sec : Section}

section
variable {store after : Store}

section
variable (restorable : Restorable store)
include restorable

/--
A step retains the store if it leaves or extends the files of a section and the cached sections
contain what their files have.
-/
theorem retains_of (settings : SameSettings store.1 after.1)
    (distinct : Recency.Distinct Section.id after.1.lru)
    (files : ∀ id, after.2.sections id = store.2.sections id ∨
      FilesFit store.1.config.blockSize store.1.size (after.2.sections id) ∧
        (storedMap store.1.size (after.2.sections id)).Covers
          (storedMap store.1.size (store.2.sections id)))
    (nested : ∀ sec ∈ after.1.lru, sec ∈ store.1.lru ∧
          after.2.sections sec.id = store.2.sections sec.id ∨
        Nested store.1.config.blockSize store.1.size (after.2.sections sec.id) sec.freeMap) :
    Retains store after := by
  refine ⟨⟨distinct, ?_, ?_⟩, settings, ?_⟩
  · rw [settings.config, settings.size]
    intro id
    rcases files id with same | ⟨fits, _⟩
    · rw [same]
      exact restorable.files id
    · exact fits
  · rw [settings.config, settings.size]
    intro sec member
    rcases nested sec member with ⟨old, same⟩ | nested
    · rw [same]
      exact restorable.nested sec old
    · exact nested
  · rw [settings.size]
    intro id
    rcases files id with same | ⟨_, covers⟩
    · rw [same]
      exact fun _ used => used
    · exact covers

theorem Restorable.fresh (id : UInt64) :
    Nested store.1.config.blockSize store.1.size (store.2.sections id)
      (storedMap store.1.size (store.2.sections id)) :=
  ⟨(restorable.files id).map, fun _ used => used⟩

/-- A step that changes the rotation, the order of use and the time. -/
theorem Restorable.touch (settings : SameSettings store.1 after.1)
    (files : after.2.sections = store.2.sections)
    (distinct : Recency.Distinct Section.id after.1.lru)
    (subset : ∀ sec ∈ after.1.lru, sec ∈ store.1.lru) : Retains store after :=
  retains_of restorable settings distinct (fun id => .inl (congrFun files id))
    fun sec member => .inl ⟨subset sec member, congrFun files sec.id⟩

theorem Restorable.robin (robin : List UInt64) : Retains store ({ store.1 with robin }, store.2) :=
  restorable.touch ⟨rfl, rfl, rfl, rfl⟩ rfl restorable.distinct fun _ member => member

theorem retains_replace {disk : Disk}
    (others : ∀ id ≠ sec.id, disk.sections id = store.2.sections id)
    (files : FilesFit store.1.config.blockSize store.1.size (disk.sections sec.id))
    (nested : Nested store.1.config.blockSize store.1.size (disk.sections sec.id) sec.freeMap)
    (covers : (storedMap store.1.size (disk.sections sec.id)).Covers
      (storedMap store.1.size (store.2.sections sec.id))) :
    Retains store (store.1.store sec, disk) := by
  refine retains_of restorable ⟨rfl, rfl, rfl, rfl⟩ restorable.distinct.replace ?_ ?_
  · intro id
    by_cases same : id = sec.id
    · exact .inr (same ▸ ⟨files, covers⟩)
    · exact .inl (others id same)
  · intro other member
    rcases mem_replace member with rfl | ⟨inside, different⟩
    · exact .inr nested
    · exact .inl ⟨inside, others other.id different⟩

end

end

section
variable {blockSize size : Nat} {files : SectionFiles} {map : FreeMap}

theorem MapFits.storedMap_saved (fits : MapFits blockSize map files.data) :
    storedMap size { files with metadata := some (freeMapSerialize map) } = map :=
  storedMap_of_saved fits.wellFormed fits.small rfl

theorem FilesFit.saved (before : FilesFit blockSize size files)
    (fits : MapFits blockSize map files.data) :
    FilesFit blockSize size { files with metadata := some (freeMapSerialize map) } where
  map := by
    rw [fits.storedMap_saved]
    exact fits
  unplanned := before.unplanned
  readable := readable_of_saved fits.wellFormed fits.small rfl

theorem MapFits.nested_saved (fits : MapFits blockSize map files.data) :
    Nested blockSize size { files with metadata := some (freeMapSerialize map) } map where
  fits := fits
  covers := by
    rw [fits.storedMap_saved]
    exact fun _ used => used

variable {io : Io} (untorn : Untorn io)

include untorn

/-- What a save leaves, for a section whose map contains the saved one. -/
theorem sectionSaveMeta_untorn (sec : Section) (disk : Disk) :
    (sectionSaveMeta io sec disk).sections = disk.sections ∨ (∀ id ≠ sec.id,
        (sectionSaveMeta io sec disk).sections id = disk.sections id) ∧
        (sectionSaveMeta io sec disk).sections sec.id =
          { disk.sections sec.id with
            metadata := some (freeMapSerialize sec.freeMap) } := by
  rw [sectionSaveMeta]
  rcases untorn disk.time with complete | failed
  · rw [complete, FileWrite.replace]
    exact .inr ⟨fun id different =>
      sections_setMetadata_of_ne different,
      by rw [sections_tick, sections_setMetadata]⟩
  · left
    rw [failed, FileWrite.replace, sections_tick, setMetadata, setFiles]
    exact update_eq_self _ _

/-- The save of a cached section, whose flag may change. -/
theorem retains_sectionSaveMeta (restorable : Restorable store)
    (nested : Nested store.1.config.blockSize store.1.size
      (store.2.sections sec.id) sec.freeMap) (dirty : Bool) :
    Retains store (store.1.store { sec with dirty }, sectionSaveMeta io sec store.2) := by
  rcases sectionSaveMeta_untorn untorn sec store.2 with
    same | ⟨others, here⟩
  · refine retains_replace restorable (fun id _ => congrFun same id) ?_ ?_ ?_
    · rw [same]
      exact restorable.files sec.id
    · rw [same]
      exact nested
    · rw [same]
      exact fun _ used => used
  · refine retains_replace restorable others ?_ ?_ ?_
    · rw [here]
      exact (restorable.files sec.id).saved nested.fits
    · rw [here]
      exact nested.fits.nested_saved
    · rw [here, nested.fits.storedMap_saved]
      exact nested.covers

theorem retains_sectionDestroy (restorable : Restorable store) (member : sec ∈ store.1.lru) :
    Retains store (store.1, sectionDestroy io sec store.2) ∧
      ∀ id ≠ sec.id, (sectionDestroy io sec store.2).sections id = store.2.sections id := by
  have nested := restorable.nested sec member
  unfold sectionDestroy
  split
  · rcases sectionSaveMeta_untorn untorn sec store.2 with
      same | ⟨others, here⟩
    · exact ⟨restorable.touch (.refl _) same restorable.distinct
        fun _ member => member, fun id _ => congrFun same id⟩
    · refine ⟨retains_of restorable (.refl _) restorable.distinct ?_ ?_, others⟩
      · intro id
        by_cases same : id = sec.id
        · right
          subst same
          rw [here, nested.fits.storedMap_saved]
          exact ⟨(restorable.files sec.id).saved nested.fits, nested.covers⟩
        · exact .inl (others id same)
      · intro other inside
        by_cases same : other.id = sec.id
        · right
          have equal : other = sec := by
            have found := restorable.distinct.find_of_mem inside
            rw [same, restorable.distinct.find_of_mem member] at found
            exact (Option.some.inj found).symm
          subst equal
          rw [here]
          exact nested.fits.nested_saved
        · exact .inl ⟨inside, others other.id same⟩
  · exact ⟨.refl restorable, fun _ _ => rfl⟩

end

theorem sectionCreate_restorable (restorable : Restorable store) (io : Io) (id : UInt64) :
    ∃ elapsed,
      sectionCreate io store.1.config store.1.size id store.2 = (none, store.2.tick elapsed) ∨
        sectionCreate io store.1.config store.1.size id store.2 =
          (some (store.fresh id), store.2.tick elapsed) := by
  have files := restorable.files id
  have unplanned := files.unplanned
  unfold Store.fresh
  cases metadata : (store.2.sections id).metadata with
  | none =>
    refine ⟨0, .inr ?_⟩
    simp only [sectionCreate, storedMap, metadata, sectionDefragPlanRecover, newSection, unplanned]
    rfl
  | some bytes =>
    rcases isSome_iff_exists.mp (files.readable bytes metadata) with ⟨map, decoded⟩
    refine ⟨1, ?_⟩
    simp only [sectionCreate, storedMap, metadata, decoded]
    split
    · right
      simp [sectionDefragPlanRecover, newSection, sections_tick, unplanned]
    · exact .inl rfl

section
variable {io : Io} (untorn : Untorn io) {store : Store} (restorable : Restorable store)

include untorn restorable

/-- Caching a created section leaves its files as they are. -/
theorem retains_sectionsLruCachePut (id : UInt64) :
    Retains store (sectionsLruCachePut io store.1 (store.fresh id) store.2) ∧
      (Recency.find Section.id id store.1.lru = none →
        (sectionsLruCachePut io store.1 (store.fresh id) store.2).2.sections
          id = store.2.sections id) := by
  have id_eq : (store.fresh id).id = id := rfl
  have cons {kept : List Section} {disk : Disk} (retains : Retains store (store.1, disk))
      (same : disk.sections id = store.2.sections id) (distinct : Recency.Distinct Section.id kept)
      (subset : ∀ sec ∈ kept, sec ∈ store.1.lru)
      (absent : find Section.id id store.1.lru = none) : Retains store
        ({ store.1 with lru := store.fresh id :: kept }, disk) := by
    refine retains.trans (retains_of retains.restorable
      ⟨rfl, rfl, rfl, rfl⟩ ?_ (fun _ => .inl rfl) ?_)
    · rw [Recency.Distinct, map_cons, nodup_cons]
      refine ⟨fun member => ?_, distinct⟩
      rcases mem_map.mp member with ⟨sec, inside, equal⟩
      exact find_eq_none.mp absent sec (subset sec inside) equal
    · intro sec member
      rcases mem_cons.mp member with rfl | member
      · right
        have fresh := restorable.fresh id
        rw [← same] at fresh
        change Nested _ _ (disk.sections id) (storedMap _ (store.2.sections id))
        rw [← same]
        exact fresh
      · exact .inl ⟨subset sec member, rfl⟩
  unfold sectionsLruCachePut
  rw [id_eq]
  split
  · exact ⟨.refl restorable, fun _ => rfl⟩
  · cases found : find Section.id id store.1.lru with
    | some sec =>
      exact ⟨restorable.touch ⟨rfl, rfl, rfl, rfl⟩ rfl restorable.distinct.touch fun other member =>
          (mem_touch restorable.distinct).mp member,
        fun _ => rfl⟩
    | none =>
      have whole := cons (.refl restorable) rfl restorable.distinct (fun _ member => member) found
      simp only
      split
      · cases end_ : store.1.lru.getLast? with
        | none => exact ⟨whole, fun _ => rfl⟩
        | some last =>
          have member := mem_of_getLast? end_
          have different : id ≠ last.id := by
            rintro rfl
            exact find_eq_none.mp found last member rfl
          rcases retains_sectionDestroy untorn restorable member with ⟨destroyed, others⟩
          exact ⟨cons destroyed (others id different) restorable.distinct.dropLast
            (dropLast_sublist _).subset found, fun _ => others id different⟩
      · exact ⟨whole, fun _ => rfl⟩

/-- What an acquisition gives contains the slots of its files. -/
theorem retains_sectionsAcquire (id : UInt64) :
    let acquired := sectionsAcquire io store.1 id store.2
    Retains store acquired.2 ∧ ∀ sec, acquired.1 = .cached sec ∨ acquired.1 = .created sec →
        sec.id = id ∧ Nested store.1.config.blockSize store.1.size
            (acquired.2.2.sections id) sec.freeMap := by
  unfold sectionsAcquire
  cases found : find Section.id id store.1.lru with
  | some sec =>
    rcases mem_of_find found with ⟨member, rfl⟩
    refine ⟨restorable.touch ⟨rfl, rfl, rfl, rfl⟩ rfl restorable.distinct.touch fun other member =>
        (mem_touch restorable.distinct).mp member, ?_⟩
    rintro other (equal | equal)
    · obtain rfl := Acquired.cached.inj equal
      exact ⟨rfl, restorable.nested sec member⟩
    · cases equal
  | none =>
    rcases sectionCreate_restorable restorable io id with ⟨elapsed, created | created⟩
    · have ticked : Retains store (store.1, store.2.tick elapsed) :=
        restorable.touch (.refl _) rfl restorable.distinct fun _ member => member
      simp only [created]
      refine ⟨ticked, ?_⟩
      rintro other (equal | equal) <;> cases equal
    · have ticked : Retains store (store.1, store.2.tick elapsed) :=
        restorable.touch (.refl _) rfl restorable.distinct fun _ member => member
      rcases retains_sectionsLruCachePut untorn ticked.restorable id with ⟨put, files⟩
      simp only [created]
      refine ⟨ticked.trans put, ?_⟩
      rintro other (equal | equal)
      · cases equal
      · obtain rfl := Acquired.created.inj equal
        refine ⟨rfl, ?_⟩
        have kept : (sectionsLruCachePut io store.1 (store.fresh id)
            (store.2.tick elapsed)).2.sections id = store.2.sections id := files found
        rw [kept]
        exact restorable.fresh id

theorem retains_sectionsCreateFresh : Retains store (sectionsCreateFresh io store.1 store.2).2 := by
  unfold sectionsCreateFresh
  rcases sectionCreate_restorable restorable io store.1.nextId with ⟨elapsed, created | created⟩
  · simp only [created]
    exact restorable.touch (.refl _) rfl restorable.distinct fun _ member => member
  · simp only [created]
    have ticked : Retains store ({ store.1 with nextId := store.1.nextId + 1 },
          store.2.tick elapsed) :=
      restorable.touch ⟨rfl, rfl, rfl, rfl⟩ rfl restorable.distinct fun _ member => member
    exact ticked.trans (retains_sectionsLruCachePut untorn ticked.restorable store.1.nextId).1

theorem retains_sectionsCreateAll (place : List UInt64 → UInt64 → List UInt64) (count : Nat) :
    Retains store (sectionsCreateAll io place count store.1 store.2) := by
  induction count generalizing store with
  | zero => exact .refl restorable
  | succ count ih =>
    have fresh := retains_sectionsCreateFresh untorn restorable
    unfold sectionsCreateAll
    generalize sectionsCreateFresh io store.1 store.2 = created at fresh
    rcases created with ⟨none | id, sections, disk⟩
    · exact fresh
    · have placed := fresh.restorable.robin (place sections.robin id)
      exact (fresh.trans placed).trans (ih placed.restorable)

theorem retains_sectionsFull (id : UInt64) :
    Retains store (sectionsFull io store.1 id store.2) := by
  have removed := restorable.robin (roundRobinRemove store.1.robin id)
  have refilled := removed.trans
    (retains_sectionsCreateAll untorn removed.restorable roundRobinUnshift (store.1.maxTupleSize -
        (roundRobinRemove store.1.robin id).length))
  unfold sectionsFull
  simp only
  split
  · exact refilled.trans (retains_sectionsCreateAll untorn refilled.restorable roundRobinAdd _)
  · exact refilled

end

section
variable {io : Io} (untorn : Untorn io) {store : Store} (restorable : Restorable store)

theorem FilesFit.setData (before : FilesFit blockSize size files)
    (grown : files.data.size ≤ data.size) : FilesFit blockSize size { files with data } :=
  { before with
    map :=
      { wellFormed := before.map.wellFormed
        small := before.map.small
        stored := fun index used => le_trans (before.map.stored index used) grown } }

include restorable

/-- A change of a data file and the growth of the map in memory. -/
theorem retains_setData (sec : Section) (grown : (store.dataOf sec.id).size ≤ data.size)
    (nested : Nested store.1.config.blockSize store.1.size
      { store.2.sections sec.id with data } sec.freeMap) (elapsed : Nat) :
    Retains store (store.1.store sec, (store.2.setData sec.id data).tick elapsed) := by
  have here : ((store.2.setData sec.id data).tick elapsed).sections
      sec.id = { store.2.sections sec.id with data } := by
    rw [sections_tick, sections_setData]
  refine retains_replace restorable
    (fun id different => sections_setData_of_ne different) ?_ ?_ ?_
  · rw [here]
    exact (restorable.files sec.id).setData grown
  · rw [here]
    exact nested
  · rw [here]
    exact fun _ used => used

include untorn

omit restorable in
/-- A changed map is saved at once, or not. -/
theorem retains_sectionOnDirty (config : SectionConfig) (sec : Section) (disk : Disk)
    (changed : ∀ dirty, Retains store (store.1.store { sec with dirty }, disk))
    (nested : Nested store.1.config.blockSize store.1.size (disk.sections sec.id) sec.freeMap) :
    Retains store (store.1.store (sectionOnDirty io config sec disk).1,
        (sectionOnDirty io config sec disk).2) := by
  unfold sectionOnDirty
  split
  · exact changed sec.dirty
  · have retains := changed false
    have saved := retains.trans (retains_sectionSaveMeta untorn retains.restorable nested false)
    have same : (store.1.store { sec with dirty := false }).store
        { sec with dirty := false } = store.1.store { sec with dirty := false } := by
      simp only [Sections.store, replace_replace]
    rw [same] at saved
    exact saved

section
variable (nested : Nested store.1.config.blockSize store.1.size (store.2.sections sec.id) sec.freeMap)
include nested

theorem retains_sectionWrite (bytes : Bytes) :
    let written := sectionWrite io store.1.config sec bytes store.2
    Retains store (store.1.store written.1, written.2.1) := by
  intro written
  have fits := nested.fits
  rcases sectionWrite_spec io store.1.config sec fits.wellFormed with ⟨opened, data, elapsed, failed⟩ | ⟨index, allocated, done⟩
  · rw [show written.1 = _ from failed.after_eq.1, show written.2.1 = _ from failed.after_eq.2]
    have stored : Stored store.1.config.blockSize sec.freeMap data :=
      fun index used => le_trans (fits.stored index used) failed.grown
    exact retains_setData restorable { sec with opened } failed.grown
      ⟨{ fits with stored := stored }, nested.covers⟩ elapsed
  · have spec := freeMapAlloc_spec fits.wellFormed done.alloc
    have stored := stored_write fits.stored spec bytes
    rw [sections_tick, sections_setData] at stored
    have allocatedNested : Nested store.1.config.blockSize store.1.size
        { store.2.sections sec.id with
          data := (store.2.sections sec.id).data.write
            store.1.config.blockSize index bytes .complete } allocated := by
      refine ⟨⟨spec.wellFormed, by rw [spec.totalBlocks]; exact fits.small,
        stored⟩, fun place used => ?_⟩
      rw [spec.occupied, nested.covers place used]
      rfl
    have changed := retains_sectionOnDirty untorn store.1.config
      { sec with freeMap := allocated, opened := true, dirty := true }
      ((store.2.setData sec.id ((store.2.sections sec.id).data.write store.1.config.blockSize index
          bytes .complete)).tick 1)
      (fun dirty => retains_setData restorable
        { sec with freeMap := allocated, opened := true, dirty }
        (SlotFile.size_le_write _ _) allocatedNested 1)
      (by
        rw [sections_tick, sections_setData]
        exact allocatedNested)
    rw [← done.after_eq] at changed
    exact changed

/-- The same with the rotation and its growth behind the write. -/
theorem retains_sectionsWriteTo (data : Bytes) :
    let written := sectionsWriteTo io data sec store.1 store.2
    Retains store (written.1, written.2.1) := by
  have written := retains_sectionWrite untorn restorable nested data
  have full := written.trans (retains_sectionsFull untorn written.restorable sec.id)
  unfold sectionsWriteTo
  simp only
  split
  · split
    · exact full.trans (retains_sectionsCreateAll untorn full.restorable roundRobinAdd 1)
    · exact full
  · exact written

end

variable {after : Sections × Disk × SectionsWriteResult}

theorem retains_sectionsWriteLoop (data : Bytes) (rounds : Nat) {attempts fullRotations : Nat}
    {result : SectionsWriteResult}
    (ran : sectionsWriteLoop io data rounds attempts fullRotations result
      store.1 store.2 = some after) : Retains store (after.1, after.2.1) := by
  induction rounds generalizing attempts fullRotations result store after with
  | zero => cases ran
  | succ rounds ih =>
    rw [sectionsWriteLoop] at ran
    split at ran
    · cases ran
      exact .refl restorable
    · split at ran
      · cases ran
        exact .refl restorable
      · rename_i id robin _
        have rotated := restorable.robin robin
        have acquired := retains_sectionsAcquire untorn rotated.restorable id
        generalize sectionsAcquire io ({ store.1 with robin }, store.2).1 id
          ({ store.1 with robin }, store.2).2 = ready at acquired ran
        rcases ready with ⟨outcome, sections, disk⟩
        rcases acquired with ⟨kept, nested⟩
        have retains := rotated.trans kept
        have next {sec : Section} (nested : sec.id = id ∧
              Nested store.1.config.blockSize store.1.size (disk.sections id) sec.freeMap)
            (ran : sectionsWriteNext id (sectionsWriteTo io data sec sections disk)
              (sectionsWriteLoop io data rounds (attempts + 1) (fullRotations + 1)) = some after) :
            Retains store (after.1, after.2.1) := by
          rcases nested with ⟨rfl, nested⟩
          rw [← retains.settings.config, ← retains.settings.size] at nested
          have written := retains.trans (retains_sectionsWriteTo untorn
            retains.restorable nested data)
          rw [sectionsWriteNext] at ran
          split at ran
          · cases ran
            exact written
          · exact written.trans (ih written.restorable ran)
        cases outcome with
        | failed =>
          cases ran
          exact retains
        | cached sec => exact next (nested sec (.inl rfl)) ran
        | created sec =>
          simp only at ran
          split at ran
          · have filled := retains.trans (retains_sectionsFull untorn retains.restorable id)
            exact filled.trans (ih filled.restorable ran)
          · exact next (nested sec (.inr rfl)) ran

/-- `SECTIONS_WRITE` takes no slot from the files. -/
theorem retains_sectionsWrite {data : Bytes} {rounds : Nat}
    (ran : sectionsWrite io rounds data store.1 store.2 = some after) :
    Retains store (after.1, after.2.1) :=
  retains_sectionsWriteLoop untorn restorable data rounds ran

omit restorable in
theorem retains_sectionsWriteMetaLoop (restorable : Restorable store) (ahead : Ahead store rest) :
    Retains store (sectionsWriteMetaLoop io rest store.1 store.2) := by
  induction rest generalizing store with
  | nil => exact .refl restorable
  | cons sec rest ih =>
    rw [sectionsWriteMetaLoop]
    split
    · have member := (mem_of_find (ahead.cached sec mem_cons_self)).1
      have saved := retains_sectionSaveMeta untorn restorable (restorable.nested sec member) false
      exact saved.trans (ih saved.restorable (ahead.store { sec with dirty := false } rfl _))
    · exact ih restorable ahead.tail

/-- `SECTION_WRITE_META` takes no slot from the files. -/
theorem retains_sectionsWriteMeta : Retains store (sectionsWriteMeta io store.1 store.2) :=
  retains_sectionsWriteMetaLoop untorn restorable ⟨restorable.distinct, fun _ member =>
      restorable.distinct.find_of_mem member⟩

end

section
variable {io : Io} (untorn : Untorn io)

include untorn

theorem retains_sectionsFillRobin (count : Nat) {after : Store} (restorable : Restorable store)
    (filled : sectionsFillRobin io count store.1 store.2 = some after) : Retains store after := by
  induction count generalizing store with
  | zero =>
    cases filled
    exact .refl restorable
  | succ count ih =>
    have fresh := retains_sectionsCreateFresh untorn restorable
    unfold sectionsFillRobin at filled
    generalize sectionsCreateFresh io store.1 store.2 = created at fresh filled
    rcases created with ⟨none | id, sections, disk⟩
    · cases filled
    · have placed := fresh.trans (fresh.restorable.robin (roundRobinAdd sections.robin id))
      exact placed.trans (ih placed.restorable filled)

end

end Liboffs.BlockCache

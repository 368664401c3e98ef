import Liboffs.BlockCache.SlotStore

/-!
# What the messages to the section store do to the slots

A write takes a slot that was free, a read and the save of metadata change no
slot, and a defragmentation moves the content of the occupied slots with them
and reports where they have gone.
-/

namespace Liboffs.BlockCache

open Library Library.ByteOrder Library.Compaction Library.FileSlots List Option Function Disk Store
open Recency

/-- A free slot has been taken for some bytes. -/
structure Places (before after : Store) (id : UInt64) (index : Nat) (bytes : Bytes) : Prop where
  consistent : Consistent after
  settings : SameSettings before.1 after.1
  size : bytes.length = before.1.config.blockSize
  small : index < 2 ^ 32
  free : ¬ before.Occupied id index
  occupied : ∀ other place, after.Occupied other place ↔
    before.Occupied other place ∨ other = id ∧ place = index
  content : (after.dataOf id).slots index = bytes
  slots : ∀ other place, before.Occupied other place →
    (after.dataOf other).slots place = (before.dataOf other).slots place

variable {id : UInt64} {index : Nat} {after : Sections × Disk × SectionsWriteResult} {data : Bytes}
  {rest : List Section}

theorem Places.keeps (places : Places first second id index bytes) (keeps : Keeps second third) :
    Places first third id index bytes :=
  { places with
    consistent := keeps.consistent
    settings := places.settings.trans keeps.settings
    occupied := fun other place => (keeps.occupied other place).trans (places.occupied other place)
    content := by
      rw [keeps.slots id index ((places.occupied id index).mpr (.inr ⟨rfl, rfl⟩)), places.content]
    slots := by
      intro other place here
      rw [keeps.slots other place ((places.occupied other place).mpr (.inl here)),
        places.slots other place here] }

theorem Keeps.places (keeps : Keeps first second) (places : Places second third id index bytes) :
    Places first third id index bytes :=
  { places with
    settings := keeps.settings.trans places.settings
    size := by rw [places.size, keeps.settings.config]
    free := fun here => places.free ((keeps.occupied id index).mpr here)
    occupied := fun other place => by rw [places.occupied, keeps.occupied]
    slots := by
      intro other place here
      rw [places.slots other place ((keeps.occupied other place).mpr here),
        keeps.slots other place here] }

variable {map : FreeMap} {disk : Disk}

section
variable {io : Io} (reliable : Reliable io) {store : Store} (consistent : Consistent store)
  {sec : Section} (cached : Recency.find Section.id sec.id store.1.lru = some sec)

include consistent cached

/-- What holds for the map of a section holds for its cached copy. -/
theorem cached_facts : sec.freeMap.WellFormed ∧ sec.freeMap.totalBlocks < 2 ^ 32 ∧
    Stored store.1.config.blockSize sec.freeMap (store.dataOf sec.id) := by
  rw [← mapOf_cached cached]
  exact ⟨consistent.wellFormed sec.id, consistent.small sec.id, consistent.stored sec.id⟩

/-- A change of a data file that spares the occupied slots. -/
theorem updates_setData (opened : Bool) {data : SlotFile}
    (size : (store.dataOf sec.id).size ≤ data.size) (elapsed : Nat) :
    Updates store { sec with opened } ((store.2.setData sec.id data).tick elapsed) := by
  have map := mapOf_cached cached
  have member := (mem_of_find cached).1
  obtain ⟨wellFormed, small, stored⟩ := cached_facts consistent cached
  have here : ((store.2.setData sec.id data).tick elapsed).sections
      sec.id = { store.2.sections sec.id with data } := by
    rw [sections_tick, sections_setData]
  refine ⟨⟨sec, cached⟩, ?_, wellFormed, small, ?_, ?_, ?_, ?_⟩
  · intro id different
    exact sections_setData_of_ne different
  · intro index used
    rw [here]
    exact le_trans (stored index used) size
  · rw [here]
    exact consistent.unplanned sec.id
  · rw [here]
    exact consistent.readable sec.id
  · intro clean
    rw [here]
    exact consistent.clean sec member clean

omit consistent cached in
theorem stored_write {blockSize : Nat} {allocated : FreeMap}
    (stored : Stored blockSize map (disk.sections id).data) (spec : Allocated map index allocated)
    (bytes : Bytes) :
    Stored blockSize allocated (((disk.setData id ((disk.sections id).data.write blockSize index
        bytes .complete)).tick 1).sections id).data := by
  intro place used
  rw [sections_tick, sections_setData]
  rw [spec.occupied, Bool.or_eq_true, decide_eq_true_eq] at used
  rcases used with used | rfl
  · exact le_trans (stored place used) (SlotFile.size_le_write _ _)
  · exact le_max_right _ _

include reliable

omit consistent in
/-- A changed map is saved at once, or the section is dirty. -/
theorem updates_sectionOnDirty (wellFormed : map.WellFormed) (small : map.totalBlocks < 2 ^ 32)
    (opened : Bool) (disk : Disk) (others : ∀ id ≠ sec.id, disk.sections id = store.2.sections id)
    (stored : Stored store.1.config.blockSize map (disk.sections sec.id).data)
    (unplanned : (disk.sections sec.id).plan = none)
    (readable : Readable (disk.sections sec.id).metadata) :
    let after := sectionOnDirty io store.1.config
      { sec with freeMap := map, opened, dirty := true } disk
    Updates store after.1 after.2 ∧ after.1.id = sec.id ∧ after.1.freeMap = map ∧
      (after.2.sections sec.id).data = (disk.sections sec.id).data := by
  unfold sectionOnDirty
  split
  · refine ⟨⟨⟨sec, cached⟩, others, wellFormed, small, stored, unplanned,
      readable, ?_⟩, rfl, rfl, rfl⟩
    intro clean
    cases clean
  · simp only [sectionSaveMeta_reliable reliable]
    refine ⟨⟨⟨sec, cached⟩, ?_, wellFormed, small, ?_, ?_, ?_, ?_⟩, trivial, trivial, ?_⟩
    · intro id different
      rw [sections_tick, sections_setMetadata_of_ne different]
      exact others id different
    · simpa using stored
    · simpa using unplanned
    · simp only [sections_tick, sections_setMetadata]
      exact readable_of_saved wellFormed small rfl
    · intro _
      simp only [sections_tick, sections_setMetadata]
      exact storedMap_of_saved wellFormed small rfl
    · simp

/-- A write to a cached section fails, or takes a free slot. -/
theorem sectionWrite_consistent :
    let written := sectionWrite io store.1.config sec data store.2
    written.1.id = sec.id ∧ (written.2.2.result ≠ 0 ∧
          Keeps store (store.1.store written.1, written.2.1) ∨
        written.2.2.result = 0 ∧ Places store (store.1.store written.1, written.2.1) sec.id
            written.2.2.index data) := by
  have map := mapOf_cached cached
  obtain ⟨wellFormed, small, stored⟩ := cached_facts consistent cached
  intro written
  rcases sectionWrite_spec io store.1.config sec wellFormed with
    ⟨opened, file, elapsed, failed⟩ | ⟨index, allocated, done⟩
  · have updates := updates_setData consistent cached opened failed.grown elapsed
    refine ⟨by rw [failed.after_eq.1], .inl ⟨failed.result, ?_⟩⟩
    rw [failed.after_eq.1, failed.after_eq.2]
    refine updates.keeps consistent map.symm ?_
    intro index used
    rw [sections_tick, sections_setData]
    exact failed.spared index used
  · have spec := freeMapAlloc_spec wellFormed done.alloc
    have file : (((store.2.setData sec.id
        ((store.2.sections sec.id).data.write store.1.config.blockSize
          index data .complete)).tick 1).sections sec.id) =
        { store.2.sections sec.id with
          data := (store.2.sections sec.id).data.write
            store.1.config.blockSize index data .complete } := by
      rw [sections_tick, sections_setData]
    have updated := updates_sectionOnDirty reliable cached spec.wellFormed
      (by rw [spec.totalBlocks]; exact small) true ((store.2.setData sec.id
        ((store.2.sections sec.id).data.write store.1.config.blockSize
          index data .complete)).tick 1)
      (fun id different => sections_setData_of_ne different)
      (stored_write stored spec data)
      (by rw [file]; exact consistent.unplanned sec.id)
      (by rw [file]; exact consistent.readable sec.id)
    rw [← done.after_eq, file] at updated
    rcases updated with ⟨updates, id, freeMap, content⟩
    have index_eq : written.2.2.index = index := by rw [done.result]
    refine ⟨id, .inr ⟨by rw [done.result], ?_⟩⟩
    rw [index_eq]
    have self : mapOf (store.1.store written.1, written.2.1) sec.id = allocated := by
      rw [← id, updates.mapOf_self]
      exact freeMap
    refine ⟨updates.consistent consistent, ⟨rfl, rfl, rfl, rfl⟩,
      done.size, lt_trans spec.inside small, ?_, ?_, ?_, ?_⟩
    · rw [Store.Occupied, map, spec.free]
      exact Bool.false_ne_true
    · intro other place
      by_cases same : other = sec.id
      · subst same
        rw [Store.Occupied, Store.Occupied, self, map, spec.occupied]
        simp
      · rw [Store.Occupied, Store.Occupied, updates.mapOf_of_ne]
        · simp [same]
        · exact fun equal => same (equal.trans id)
    · change (written.2.1.sections sec.id).data.slots index = data
      rw [content]
      exact update_self _ _ _
    · intro other place here
      change (written.2.1.sections other).data.slots place = _
      by_cases same : other = sec.id
      · subst same
        have different : place ≠ index := by
          rintro rfl
          rw [Store.Occupied, map, spec.free] at here
          cases here
        rw [content]
        exact SlotFile.slots_write_of_ne different data .complete
      · rw [updates.others other fun equal => same (equal.trans id)]
        rfl

/-- The same with the rotation and its growth behind the write. -/
theorem sectionsWriteTo_consistent (data : Bytes) :
    let written := sectionsWriteTo io data sec store.1 store.2
    written.2.2.result ≠ 0 ∧ Keeps store (written.1, written.2.1) ∨ written.2.2.result = 0 ∧
        Places store (written.1, written.2.1) sec.id written.2.2.index data := by
  rcases sectionWrite_consistent reliable consistent cached with ⟨_, outcome⟩
  have after : Consistent (store.1.store (sectionWrite io store.1.config sec data store.2).1,
        (sectionWrite io store.1.config sec data store.2).2.1) := by
    rcases outcome with ⟨_, keeps⟩ | ⟨_, places⟩
    · exact keeps.consistent
    · exact places.consistent
  have full := keeps_sectionsFull reliable after sec.id
  have grown := full.trans (keeps_sectionsCreateAll reliable roundRobinAdd 1 full.consistent)
  have extend {final : Store} (keeps : Keeps
      (store.1.store (sectionWrite io store.1.config sec data store.2).1,
        (sectionWrite io store.1.config sec data store.2).2.1) final) :
      (sectionWrite io store.1.config sec data store.2).2.2.result ≠ 0 ∧ Keeps store final ∨
        (sectionWrite io store.1.config sec data store.2).2.2.result = 0 ∧ Places store final sec.id
            (sectionWrite io store.1.config sec data store.2).2.2.index
            data :=
    outcome.imp (fun failed => ⟨failed.1, failed.2.trans keeps⟩)
      fun done => ⟨done.1, done.2.keeps keeps⟩
  unfold sectionsWriteTo
  simp only
  split
  · split
    · exact extend grown
    · exact extend full
  · exact extend (Keeps.refl after)

end

/-- A write to the store fails, or takes the free slot that it reports. -/
def Writes (before : Store) (data : Bytes) (after : Sections × Disk × SectionsWriteResult) : Prop :=
  after.2.2.result ≠ 0 ∧ Keeps before (after.1, after.2.1) ∨ after.2.2.result = 0 ∧
      Places before (after.1, after.2.1) after.2.2.sectionId after.2.2.sectionIndex data

theorem Keeps.writes (keeps : Keeps first second) (writes : Writes second data after) :
    Writes first data after :=
  writes.imp (fun failed => ⟨failed.1, keeps.trans failed.2⟩)
    fun done => ⟨done.1, keeps.places done.2⟩

variable {sec : Section}

section
variable {io : Io} (reliable : Reliable io)

include reliable

theorem writes_sectionsWriteNext (consistent : Consistent store)
    (cached : Recency.find Section.id sec.id store.1.lru = some sec)
    (more : ∀ (result : SectionsWriteResult) (next : Store) after,
      result.result ≠ 0 → Consistent next →
        again result next.1 next.2 = some after → Writes next data after)
    (ran : sectionsWriteNext sec.id
      (sectionsWriteTo io data sec store.1 store.2) again = some after) :
    Writes store data after := by
  have written := sectionsWriteTo_consistent reliable consistent cached data
  rw [sectionsWriteNext] at ran
  split at ran
  · cases ran
    exact written
  · rename_i full
    rcases written with ⟨failed, keeps⟩ | ⟨done, _⟩
    · exact keeps.writes (more _ (_, _) after failed keeps.consistent ran)
    · rw [done] at full
      exact absurd (by decide) full

theorem writes_sectionsWriteLoop (unwritten : result.result ≠ 0) (consistent : Consistent store)
    (ran : sectionsWriteLoop io data rounds attempts fullRotations result
      store.1 store.2 = some after) : Writes store data after := by
  induction rounds generalizing attempts fullRotations result store after with
  | zero => cases ran
  | succ rounds ih =>
    have unchanged : Writes store data (store.1, store.2, result) :=
      .inl ⟨unwritten, Keeps.refl consistent⟩
    rw [sectionsWriteLoop] at ran
    split at ran
    · cases ran
      exact unchanged
    · split at ran
      · cases ran
        exact unchanged
      · rename_i id robin _
        have rotated := keeps_robin consistent robin
        rcases sectionsAcquire_consistent reliable rotated.consistent id
          with ⟨sec, ready, acquired, kept, cached⟩
        have keeps := rotated.trans kept
        obtain rfl := (mem_of_find cached).2
        have next (ran : sectionsWriteNext sec.id (sectionsWriteTo io data sec ready.1 ready.2)
              (sectionsWriteLoop io data rounds (attempts + 1) (fullRotations + 1)) = some after) :
            Writes store data after :=
          keeps.writes (writes_sectionsWriteNext reliable keeps.consistent cached
              (fun _ _ _ failed consistent => ih failed consistent) ran)
        rcases acquired with acquired | acquired
        · simp only [acquired] at ran
          exact next ran
        · simp only [acquired] at ran
          split at ran
          · have filled := keeps.trans (keeps_sectionsFull reliable keeps.consistent sec.id)
            refine filled.writes (ih ?_ filled.consistent ran)
            exact unwritten
          · exact next ran

theorem writes_sectionsWrite (consistent : Consistent store)
    (ran : sectionsWrite io rounds data store.1 store.2 = some after) : Writes store data after :=
  writes_sectionsWriteLoop reliable (by decide) consistent ran

/-- The section of a read is at hand, cached. -/
theorem sectionsUse_consistent (consistent : Consistent store) (id : UInt64) :
    ∃ sec after,
      sectionsUse io store.1 id store.2 = some (sec, after) ∧ Keeps store after ∧
        Recency.find Section.id id after.1.lru = some sec := by
  rcases sectionsAcquire_consistent reliable consistent id with ⟨sec, ready, acquired, kept, cached⟩
  unfold sectionsUse
  rcases acquired with acquired | acquired
  · simp only [acquired]
    exact ⟨sec, ready, rfl, kept, cached⟩
  · simp only [acquired]
    split
    · exact ⟨sec, ready, rfl, kept, cached⟩
    · unfold sectionsFree
      split
      · exact ⟨sec, ready, rfl, kept, cached⟩
      · exact ⟨sec, _, rfl, kept.trans (keeps_robin kept.consistent _), cached⟩

theorem sectionsRead_consistent (consistent : Consistent store) (id : UInt64) (index : Nat) :
    ∃ after value time,
      sectionsRead io store.1 id index store.2 = some (after.1, after.2, value) ∧
        Keeps store after ∧ (store.Occupied id index → value = if (io .readData time).succeeds then
            some ((store.dataOf id).slots index) else none) := by
  rcases sectionsUse_consistent reliable consistent id with ⟨sec, ready, used, kept, cached⟩
  have id_eq := (mem_of_find cached).2
  have ticked : Keeps ready (ready.1, ready.2.tick 1) :=
    keeps_of_touch kept.consistent (.refl _) kept.consistent.distinct (fun _ => rfl) rfl
  have elapsed : (sectionRead io ready.1.config sec index ready.2).2 = ready.2.tick 1 := by
    unfold sectionRead
    split <;> rfl
  refine ⟨(ready.1, ready.2.tick 1),
    (sectionRead io ready.1.config sec index ready.2).1, ready.2.time, ?_, kept.trans ticked, ?_⟩
  · simp [sectionsRead, used, elapsed]
  · intro here
    have covers := kept.consistent.stored id index ((kept.occupied id index).mpr here)
    unfold sectionRead
    rw [id_eq]
    split
    · rw [← kept.slots id index here]
      exact SlotFile.read_of_covers covers
    · rfl

end

/-- Cached sections that a pass has not yet come to. -/
structure Ahead (store : Store) (rest : List Section) : Prop where
  distinct : Recency.Distinct Section.id rest
  cached : ∀ sec ∈ rest, Recency.find Section.id sec.id store.1.lru = some sec

theorem Consistent.ahead (consistent : Consistent store) : Ahead store store.1.lru :=
  ⟨consistent.distinct, fun _ member => consistent.distinct.find_of_mem member⟩

theorem Ahead.ne (ahead : Ahead store (sec :: rest)) (member : other ∈ rest) :
    other.id ≠ sec.id := by
  have distinct := ahead.distinct
  rw [Recency.Distinct, map_cons, nodup_cons] at distinct
  intro same
  exact distinct.1 (same ▸ mem_map_of_mem member)

theorem Ahead.tail (ahead : Ahead store (sec :: rest)) : Ahead store rest :=
  ⟨(nodup_cons.mp ahead.distinct).2, fun other member =>
    ahead.cached other (mem_cons_of_mem _ member)⟩

/-- A change of the first section leaves the others ahead. -/
theorem Ahead.store {store : Store} (ahead : Ahead store (sec :: rest)) (after : Section)
    (id : after.id = sec.id) (disk : Disk) : Ahead (store.1.store after, disk) rest := by
  refine ⟨ahead.tail.distinct, fun other member => ?_⟩
  change find Section.id other.id (replace Section.id after store.1.lru) = some other
  rw [find_replace, if_neg, ahead.tail.cached other member]
  rw [id]
  exact fun same => ahead.ne member same.symm

section
variable {io : Io} (reliable : Reliable io)

include reliable

theorem keeps_sectionsWriteMetaLoop (consistent : Consistent store) (ahead : Ahead store rest) :
    Keeps store (sectionsWriteMetaLoop io rest store.1 store.2) := by
  induction rest generalizing store with
  | nil => exact Keeps.refl consistent
  | cons sec rest ih =>
    rw [sectionsWriteMetaLoop]
    split
    · have cached := ahead.cached sec mem_cons_self
      have map := mapOf_cached cached
      obtain ⟨wellFormed, small, stored⟩ := cached_facts consistent cached
      rw [sectionSaveMeta_reliable reliable]
      have here : ((store.2.setMetadata sec.id
          (some (freeMapSerialize sec.freeMap))).tick 1).sections sec.id =
            { store.2.sections sec.id with
              metadata := some (freeMapSerialize sec.freeMap) } := by
        rw [sections_tick, sections_setMetadata]
      have updates : Updates store { sec with dirty := false } ((store.2.setMetadata sec.id
            (some (freeMapSerialize sec.freeMap))).tick 1) := by
        refine ⟨⟨sec, cached⟩, fun id different =>
          sections_setMetadata_of_ne different, wellFormed, small,
          ?_, ?_, ?_, fun _ => ?_⟩
        · rw [here]
          exact stored
        · rw [here]
          exact consistent.unplanned sec.id
        · rw [here]
          exact readable_of_saved wellFormed small rfl
        · rw [here]
          exact storedMap_of_saved wellFormed small rfl
      have keeps := updates.keeps consistent map.symm (fun index _ => by rw [here]; rfl)
      exact keeps.trans (ih keeps.consistent (ahead.store { sec with dirty := false } rfl _))
    · exact ih consistent ahead.tail

end

/-- The index of a slot behind the reported relocations. -/
def relocated (relocations : List BlockRelocation) (id : UInt64) (index : Nat) : Nat :=
  match relocations.find? fun relocation =>
      relocation.sectionId = id ∧ relocation.oldIndex = index with
  | some relocation => relocation.newIndex
  | none => index

/-- The occupied slots have gone to new places with their content. -/
structure Relocates (before after : Store) (place : UInt64 → Nat → Nat) : Prop where
  consistent : Consistent after
  settings : SameSettings before.1 after.1
  occupied : ∀ id index, before.Occupied id index → after.Occupied id (place id index)
  onto : ∀ id index, after.Occupied id index → ∃ old, before.Occupied id old ∧ place id old = index
  injective : ∀ id first second, before.Occupied id first →
    before.Occupied id second → place id first = place id second → first = second
  slots : ∀ id index, before.Occupied id index →
    (after.dataOf id).slots (place id index) = (before.dataOf id).slots index

namespace Relocates

variable {place later : UInt64 → Nat → Nat}

theorem of_keeps (keeps : Keeps first second) : Relocates first second fun _ index => index :=
  { keeps with
    occupied := fun id index here => (keeps.occupied id index).mpr here
    onto := fun id index here => ⟨index, (keeps.occupied id index).mp here, rfl⟩
    injective := fun _ _ _ _ _ equal => equal }

theorem trans (before : Relocates first second place) (after : Relocates second third later) :
    Relocates first third fun id index => later id (place id index) where
  consistent := after.consistent
  settings := before.settings.trans after.settings
  occupied := fun id index here => after.occupied id _ (before.occupied id index here)
  onto := by
    intro id index here
    rcases after.onto id index here with ⟨middle, used, rfl⟩
    rcases before.onto id middle used with ⟨old, original, rfl⟩
    exact ⟨old, original, rfl⟩
  injective := fun id one two here there equal =>
    before.injective id one two here there (after.injective id _ _ (before.occupied id one here)
        (before.occupied id two there) equal)
  slots := fun id index here => by
    rw [after.slots id _ (before.occupied id index here), before.slots id index here]

/-- Only the places of the occupied slots matter. -/
theorem congr (relocates : Relocates first second place)
    (equal : ∀ id index, first.Occupied id index → place id index = later id index) :
    Relocates first second later :=
  { relocates with
    occupied := fun id index here => by
      rw [← equal id index here]
      exact relocates.occupied id index here
    onto := fun id index here => by
      rcases relocates.onto id index here with ⟨old, used, place⟩
      exact ⟨old, used, by rw [← equal id old used, place]⟩
    injective := fun id one two here there same => by
      rw [← equal id one here, ← equal id two there] at same
      exact relocates.injective id one two here there same
    slots := fun id index here => by
      rw [← equal id index here]
      exact relocates.slots id index here }

end Relocates

theorem find?_relocation_of_absent {relocations : List BlockRelocation}
    (absent : ∀ relocation ∈ relocations, relocation.sectionId ≠ id) :
    relocations.find? (fun relocation =>
      relocation.sectionId = id ∧ relocation.oldIndex = index) = none := by
  simp only [find?_eq_none, decide_eq_true_eq, not_and]
  exact fun relocation member here => absurd here (absent relocation member)

variable {early late : List BlockRelocation}

theorem relocated_append_of_absent (absent : ∀ relocation ∈ early, relocation.sectionId ≠ id) :
    relocated (early ++ late) id index = relocated late id index := by
  rw [relocated, find?_append, find?_relocation_of_absent absent, none_or, relocated]

theorem relocated_append_of_others (absent : ∀ relocation ∈ late, relocation.sectionId ≠ id) :
    relocated (early ++ late) id index = relocated early id index := by
  rw [relocated, find?_append, find?_relocation_of_absent absent, or_none, relocated]

theorem sectionId_blockRelocations {relocation : List (Option Nat)} {next : BlockRelocation}
    (member : next ∈ blockRelocations id relocation) : next.sectionId = id := by
  rcases mem_map.mp member with ⟨_, _, rfl⟩
  rfl

theorem relocated_blockRelocations (inside : index < total) (here : occupied index = true) :
    relocated (blockRelocations id (relocation occupied total)) id index = rank occupied index := by
  unfold relocated
  split
  · rename_i next found
    rcases mem_map.mp (mem_of_find?_eq_some found) with ⟨move, member, rfl⟩
    have passes := find?_some found
    simp only [true_and, decide_eq_true_eq] at passes
    rw [← passes]
    exact (mem_movesOf_relocation.mp member).2.2.1
  · rename_i missing
    by_contra moves
    have member := mem_movesOf_of_moves inside here fun same => moves same.symm
    have absent := find?_eq_none.mp missing _ (mem_map_of_mem member)
    simp at absent

/-- What a successful defragmentation of a section with gaps does. -/
structure Defragmented (blockSize : Nat) (sec : Section) (disk : Disk)
    (after : Section × Disk × SectionDefragmentResult) : Prop where
  sec_eq : after.1 =
    { sec with
      freeMap := freeMapCompact sec.freeMap.totalBlocks
        (rank sec.freeMap.occupied sec.freeMap.totalBlocks)
      opened := true
      dirty := true }
  others : ∀ id ≠ sec.id, after.2.1.sections id = disk.sections id
  rolled : RolledForward blockSize sec.freeMap (disk.sections sec.id)
    (after.2.1.sections sec.id) after.1.freeMap
  relocation : after.2.2.relocation = some (relocation sec.freeMap.occupied sec.freeMap.totalBlocks)

section
variable {store : Store} (consistent : Consistent store) {sec : Section}
  (cached : Recency.find Section.id sec.id store.1.lru = some sec)
include consistent cached

theorem Consistent.updates : Updates store sec store.2 := by
  have updates := updates_setData consistent cached sec.opened (le_refl _) 0
  rwa [show (store.2.setData sec.id (store.dataOf sec.id)).tick 0 =
    store.2 from setData_self store.2 sec.id] at updates

section
variable {after : Section × Disk × SectionDefragmentResult}
  (done : Defragmented store.1.config.blockSize sec store.2 after)
include done

theorem updates_defragmented : Updates store after.1 after.2.1 := by
  have map := mapOf_cached cached
  have small := consistent.small sec.id
  rw [map] at small
  have wellFormed : (freeMapCompact sec.freeMap.totalBlocks (rank sec.freeMap.occupied
      sec.freeMap.totalBlocks)).WellFormed := wellFormed_freeMapOf fun _ member =>
        (mem_compact_free.mp member).2
  have saved := done.rolled.metadata
  have data := done.rolled.data
  have plan := done.rolled.plan
  have others := done.others
  rw [done.sec_eq] at saved ⊢
  refine ⟨⟨sec, cached⟩, others, wellFormed, small, ?_, plan,
    readable_of_saved wellFormed small saved, ?_⟩
  · intro index used
    rw [occupied_freeMapCompact (rank_le _ _), decide_eq_true_eq] at used
    rw [data]
    exact Nat.mul_le_mul_right _ (Nat.succ_le_of_lt used)
  · intro clean
    cases clean

/-- A successful defragmentation leads the occupied slots to their ranks. -/
theorem relocates_defragmented :
    Relocates store (store.1.store after.1, after.2.1) fun id index =>
      if id = sec.id then rank sec.freeMap.occupied index else index := by
  have map := mapOf_cached cached
  have updates := updates_defragmented consistent cached done
  have id : after.1.id = sec.id := by rw [done.sec_eq]
  have self : mapOf (store.1.store after.1, after.2.1) sec.id =
      freeMapCompact sec.freeMap.totalBlocks
        (rank sec.freeMap.occupied sec.freeMap.totalBlocks) := by
    rw [← id, updates.mapOf_self, done.sec_eq]
  have occupied (index : Nat) : Store.Occupied (store.1.store after.1, after.2.1) sec.id index ↔
        index < rank sec.freeMap.occupied sec.freeMap.totalBlocks := by
    rw [Store.Occupied, self, occupied_freeMapCompact (rank_le _ _), decide_eq_true_eq]
  have below {index : Nat} (here : sec.freeMap.occupied index = true) :
      rank sec.freeMap.occupied index < rank sec.freeMap.occupied sec.freeMap.totalBlocks :=
    rank_lt here (FreeMap.occupied_eq_true.mp here).1
  have other {id' : UInt64} (different : id' ≠ sec.id) :
      mapOf (store.1.store after.1, after.2.1) id' = store.mapOf id' :=
    updates.mapOf_of_ne fun same => different (same.trans id)
  refine ⟨updates.consistent consistent, ⟨rfl, rfl, rfl, rfl⟩, ?_, ?_, ?_, ?_⟩
  · intro id' index here
    split_ifs with same
    · subst same
      rw [Store.Occupied, map] at here
      exact (occupied _).mpr (below here)
    · rwa [Store.Occupied, other same]
  · intro id' index here
    by_cases same : id' = sec.id
    · subst same
      rcases exists_rank_eq ((occupied index).mp here) with ⟨old, _, used, place⟩
      refine ⟨old, ?_, by rw [if_pos rfl, place]⟩
      rw [Store.Occupied, map]
      exact used
    · rw [Store.Occupied, other same] at here
      exact ⟨index, here, if_neg same⟩
  · intro id' one two here there equal
    split_ifs at equal with same
    · subst same
      rw [Store.Occupied, map] at here there
      exact rank_injective here there equal
    · exact equal
  · intro id' index here
    change (after.2.1.sections id').data.slots _ = _
    split_ifs with same
    · subst same
      rw [Store.Occupied, map] at here
      rw [done.rolled.data]
      refine (if_pos (below here)).trans ?_
      rw [defragmentMoves_eq]
      exact moveAll_relocation (FreeMap.occupied_eq_true.mp here).1 here
    · rw [done.others id' same]
      rfl

end

end

section
variable {io : Io} (reliable : Reliable io)

include reliable

/-- Without failures a section with gaps is compacted. -/
theorem sectionDefragment_complete (gaps : isCompact sec.freeMap = false)
    (stored : Stored config.blockSize sec.freeMap (disk.sections sec.id).data) :
    Defragmented config.blockSize sec disk (sectionDefragment io config sec disk) := by
  have writes (time : Nat) : io .writePlan time = .complete := reliable .writePlan time rfl
  have completes : FileWrite.complete.succeeds = true := rfl
  have opens (time : Nat) : (io .openMove time).succeeds = true := by
    rw [reliable .openMove time rfl]
    rfl
  have cuts (time : Nat) : (io .truncateData time).succeeds = true := by
    rw [reliable .truncateData time rfl]
    rfl
  have moves := fun time => moveBlocks_complete reliable stored time
    (le_refl (disk.sections sec.id).data.size)
  unfold sectionDefragment
  simp only [gaps, reduceCtorEq, if_false, writes, FileWrite.replace, completes,
    Bool.not_true, opens, Bool.and_false, sections_tick, sections_setPlan, moves, cuts,
    defragmentCommit, sectionSaveMeta_reliable reliable]
  have places := freeMapDefragment_eq sec.freeMap
  simp only [places]
  refine ⟨rfl, ?_, ⟨?_, ?_, ?_, rfl⟩, rfl⟩
  · intro id different
    simp [sections_setPlan_of_ne different, sections_tick,
      sections_setMetadata_of_ne different, sections_setData_of_ne different]
  · simp
  · simp
  · simp

variable (threshold : Nat → Nat → Bool)
include threshold

theorem relocates_sectionsDefragmentLoop {before current : Store}
    {result : SectionsDefragmentResult}
    (soFar : Relocates before current (relocated result.relocations)) (ahead : Ahead current rest)
    (fresh : ∀ relocation ∈ result.relocations, ∀ sec ∈ rest, relocation.sectionId ≠ sec.id) :
    let after := sectionsDefragmentLoop io threshold rest current.1 current.2 result
    Relocates before (after.1, after.2.1) (relocated after.2.2.relocations) := by
  induction rest generalizing current result with
  | nil => exact soFar
  | cons sec rest ih =>
    have later : ∀ relocation ∈ result.relocations, ∀ sec ∈ rest,
        relocation.sectionId ≠ sec.id := fun relocation member other inside =>
      fresh relocation member other (mem_cons_of_mem _ inside)
    rw [sectionsDefragmentLoop]
    split
    · exact ih soFar ahead.tail later
    · have cached := ahead.cached sec mem_cons_self
      have map := mapOf_cached cached
      cases compact : isCompact sec.freeMap with
      | true =>
        have unmoved := (soFar.consistent.updates cached).keeps
          soFar.consistent map.symm fun _ _ => rfl
        simp only [sectionDefragment, compact, if_true]
        exact ih (soFar.trans (.of_keeps unmoved)) (ahead.store sec rfl _) later
      | false =>
        have stored := soFar.consistent.stored sec.id
        rw [map] at stored
        have done := sectionDefragment_complete reliable compact stored
        have moved := relocates_defragmented soFar.consistent cached done
        simp only [done.relocation]
        refine ih ((soFar.trans moved).congr ?_) (ahead.store _ (by rw [done.sec_eq]) _) ?_
        · intro id index here
          split_ifs with same
          · subst same
            have absent : ∀ relocation ∈ result.relocations, relocation.sectionId ≠ sec.id :=
              fun relocation member => fresh relocation member sec mem_cons_self
            have unmoved : relocated result.relocations sec.id index = index := by
              have empty : relocated (result.relocations ++ []) sec.id
                  index = relocated [] sec.id index :=
                relocated_append_of_absent absent
              rwa [append_nil] at empty
            have used := soFar.occupied sec.id index here
            rw [unmoved, Store.Occupied, map] at used
            rw [unmoved, relocated_append_of_absent absent, relocated_blockRelocations
                (FreeMap.occupied_eq_true.mp used).1 used]
          · refine (relocated_append_of_others ?_).symm
            intro relocation member equal
            rw [sectionId_blockRelocations member] at equal
            exact same equal.symm
        · intro relocation member other inside
          rcases mem_append.mp member with member | member
          · exact later relocation member other inside
          · rw [sectionId_blockRelocations member]
            exact fun same => ahead.ne inside same.symm

theorem relocates_sectionsDefragment (consistent : Consistent store) :
    let after := sectionsDefragment io threshold store.1 store.2
    Relocates store (after.1, after.2.1) (relocated after.2.2.relocations) :=
  relocates_sectionsDefragmentLoop reliable threshold
    (.of_keeps (Keeps.refl consistent)) consistent.ahead (fun _ member => absurd member not_mem_nil)

theorem mapOf_sectionsDefragmentLoop (consistent : Consistent store) (ahead : Ahead store rest)
    (result : SectionsDefragmentResult) :
    let after := sectionsDefragmentLoop io threshold rest store.1 store.2 result
    (∀ id, (∀ sec ∈ rest, id ≠ sec.id) → mapOf (after.1, after.2.1) id = store.mapOf id) ∧
      ∀ sec ∈ rest, skipsSection threshold sec.freeMap = false →
        ∀ index, (mapOf (after.1, after.2.1) sec.id).occupied index = true ↔
          index < rank sec.freeMap.occupied sec.freeMap.totalBlocks := by
  induction rest generalizing store result with
  | nil => exact ⟨fun _ _ => rfl, fun _ member => absurd member not_mem_nil⟩
  | cons sec rest ih =>
    have cached := ahead.cached sec mem_cons_self
    have tail {id : UInt64} (others : ∀ other ∈ sec :: rest, id ≠ other.id) :
        ∀ other ∈ rest, id ≠ other.id := fun other member => others other (mem_cons_of_mem _ member)
    have apart : ∀ other ∈ rest, sec.id ≠ other.id := fun _ member => (ahead.ne member).symm
    rw [sectionsDefragmentLoop]
    split
    · rename_i skipped
      have later := ih consistent ahead.tail result
      refine ⟨fun id others => later.1 id (tail others), fun other member kept => ?_⟩
      rcases mem_cons.mp member with rfl | member
      · exact absurd (skipped.symm.trans kept) (by decide)
      · exact later.2 other member kept
    · obtain ⟨updates, id, compacted⟩ : Updates store
          (sectionDefragment io store.1.config sec store.2).1
          (sectionDefragment io store.1.config sec store.2).2.1 ∧
          (sectionDefragment io store.1.config sec store.2).1.id = sec.id ∧
          ∀ index, (sectionDefragment io store.1.config sec
              store.2).1.freeMap.occupied index = true ↔
            index < rank sec.freeMap.occupied sec.freeMap.totalBlocks := by
        cases compact : isCompact sec.freeMap with
        | true =>
          have used := consistent.wellFormed sec.id
          rw [mapOf_cached cached] at used
          rw [sectionDefragment, if_pos compact]
          exact ⟨consistent.updates cached, rfl, fun _ => occupied_of_isCompact used compact⟩
        | false =>
          have stored := consistent.stored sec.id
          rw [mapOf_cached cached] at stored
          have done := sectionDefragment_complete reliable compact stored
          refine ⟨updates_defragmented consistent cached done, by rw [done.sec_eq], fun index => ?_⟩
          rw [done.sec_eq, occupied_freeMapCompact (rank_le _ _), decide_eq_true_eq]
      have later := ih (updates.consistent consistent) (ahead.store _ id _)
      refine ⟨fun id' others => ?_, fun other member kept index => ?_⟩
      · exact ((later _).1 id' (tail others)).trans (updates.mapOf_of_ne
          (id.symm ▸ others sec mem_cons_self))
      · rcases mem_cons.mp member with rfl | member
        · have self := updates.mapOf_self
          rw [id] at self
          rw [(later _).1 other.id apart, self]
          exact compacted index
        · exact (later _).2 other member kept index

end

end Liboffs.BlockCache

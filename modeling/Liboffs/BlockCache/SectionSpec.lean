import Liboffs.BlockCache.Section

/-!
# What the operations of a section do

One statement for each operation says how it ends, with the section, its
files and the result.
-/

namespace Liboffs.BlockCache

open Library.ByteOrder Library.FileSlots

theorem Disk.setData_self (disk : Disk) (id : UInt64) :
    disk.setData id (disk.sections id).data = disk := by
  simp [Disk.setData, Disk.setFiles]

section
variable (io : Io) (config : SectionConfig) (sec : Section)

/-- A write that has failed changes at most a free slot of the data file. -/
structure WriteFailed (disk : Disk) (after : Section × Disk × SectionWriteResult)
    (opened : Bool) (data : SlotFile) (elapsed : Nat) : Prop where
  after_eq : after.1 = { sec with opened } ∧ after.2.1 = (disk.setData sec.id data).tick elapsed
  result : after.2.2.result ≠ 0
  index : after.2.2.index = 0
  spared : ∀ index, sec.freeMap.occupied index = true →
    data.slots index = (disk.sections sec.id).data.slots index
  grown : (disk.sections sec.id).data.size ≤ data.size

/-- A write that succeeds has allocated a slot and written it. -/
structure WriteDone (bytes : Bytes) (disk : Disk) (after : Section × Disk × SectionWriteResult)
    (index : Nat) (allocated : FreeMap) : Prop where
  size : bytes.length = config.blockSize
  alloc : freeMapAlloc sec.freeMap = some (index, allocated)
  after_eq : (after.1, after.2.1) = sectionOnDirty io config
    { sec with freeMap := allocated, opened := true, dirty := true }
    ((disk.setData sec.id
      ((disk.sections sec.id).data.write config.blockSize index bytes .complete)).tick 1)
  result : after.2.2 = ⟨0, index, freeMapIsFull allocated⟩

theorem sectionWrite_spec (wellFormed : sec.freeMap.WellFormed) :
    (∃ opened data elapsed, WriteFailed sec disk (sectionWrite io config sec bytes disk) opened
        data elapsed) ∨
      ∃ index allocated, WriteDone io config sec bytes disk
          (sectionWrite io config sec bytes disk) index allocated := by
  have unchanged (result : SectionWriteResult) (elapsed : Nat)
      (failed : result.result ≠ 0) (zero : result.index = 0) :
      WriteFailed sec disk (sec, disk.tick elapsed, result) sec.opened
        (disk.sections sec.id).data elapsed :=
    ⟨⟨rfl, by rw [Disk.setData_self]⟩, failed, zero, fun _ _ => rfl, le_refl _⟩
  unfold sectionWrite
  split
  · exact Or.inl ⟨_, _, 0, unchanged _ 0 (by simp) rfl⟩
  · rename_i size
    cases alloc : freeMapAlloc sec.freeMap with
    | none => exact Or.inl ⟨_, _, 0, unchanged _ 0 (by simp) rfl⟩
    | some taken =>
      rcases taken with ⟨index, allocated⟩
      have spec := freeMapAlloc_spec wellFormed alloc
      have undone (opened : Bool) : undoAlloc { sec with opened } allocated index =
            { sec with opened } := by
        simp [undoAlloc, spec.undo]
      simp only
      split
      · rw [show undoAlloc sec allocated index = sec from undone sec.opened]
        exact Or.inl ⟨_, _, 1, unchanged _ 1 (by simp) rfl⟩
      · cases outcome : io .writeData disk.time with
        | complete => exact Or.inr ⟨index, allocated, of_not_not size, alloc, rfl, rfl⟩
        | failed written =>
          simp only [FileWrite.succeeds, Bool.false_eq_true, if_false]
          refine Or.inl ⟨true, _, 1, ⟨undone true, rfl⟩, by simp, rfl,
            ?_, SlotFile.size_le_write _ _⟩
          intro other here
          refine SlotFile.slots_write_of_ne ?_ _ _
          rintro rfl
          rw [spec.free] at here
          cases here

end

/-- A write to a section or a release of a slot. -/
inductive SectionOp where
  | write (bytes : Bytes)
  | deallocate (index : Nat)

section
variable (io : Io) (config : SectionConfig)

/-- The effect of an operation on a section and the files. -/
def sectionOperate (state : Section × Disk) : SectionOp → Section × Disk
  | .write bytes =>
    let after := sectionWrite io config state.1 bytes state.2
    (after.1, after.2.1)
  | .deallocate index =>
    let after := sectionDeallocate io config state.1 index state.2
    (after.1, after.2.1)

/-- The effect of a sequence of operations. -/
def sectionOperateAll (state : Section × Disk) (ops : List SectionOp) : Section × Disk :=
  ops.foldl (sectionOperate io config) state

/-- The operations of a section keep its plan file. -/
structure KeepsPlan (before after : Section × Disk) : Prop where
  id : after.1.id = before.1.id
  wellFormed : after.1.freeMap.WellFormed
  plan : (after.2.sections before.1.id).plan = (before.2.sections before.1.id).plan

theorem sectionOnDirty_keeps (sec : Section) (disk : Disk) :
    (sectionOnDirty io config sec disk).1.id = sec.id ∧
      (sectionOnDirty io config sec disk).1.freeMap = sec.freeMap ∧
      ((sectionOnDirty io config sec disk).2.sections sec.id).plan =
        (disk.sections sec.id).plan := by
  unfold sectionOnDirty
  split
  · exact ⟨rfl, rfl, rfl⟩
  · exact ⟨rfl, rfl, by simp [sectionSaveMeta]⟩

theorem sectionOperate_keepsPlan (wellFormed : state.1.freeMap.WellFormed) (op : SectionOp) :
    KeepsPlan state (sectionOperate io config state op) := by
  rcases state with ⟨sec, disk⟩
  cases op with
  | write bytes =>
    rcases sectionWrite_spec io config sec wellFormed with
      ⟨opened, data, elapsed, failed⟩ | ⟨index, allocated, done⟩
    · refine ⟨?_, ?_, ?_⟩
      · change (sectionWrite io config sec bytes disk).1.id = sec.id
        rw [failed.after_eq.1]
      · change (sectionWrite io config sec bytes disk).1.freeMap.WellFormed
        rw [failed.after_eq.1]
        exact wellFormed
      · change ((sectionWrite io config sec bytes disk).2.1.sections sec.id).plan = _
        rw [failed.after_eq.2]
        simp
    · have spec := freeMapAlloc_spec wellFormed done.alloc
      have kept := sectionOnDirty_keeps io config
        { sec with freeMap := allocated, opened := true, dirty := true }
        ((disk.setData sec.id ((disk.sections sec.id).data.write config.blockSize index bytes
            .complete)).tick 1)
      rw [← done.after_eq] at kept
      refine ⟨kept.1, ?_, ?_⟩
      · change (sectionWrite io config sec bytes disk).1.freeMap.WellFormed
        rw [kept.2.1]
        exact spec.wellFormed
      · refine kept.2.2.trans ?_
        simp
  | deallocate index =>
    simp only [sectionOperate, sectionDeallocate]
    cases released : freeMapDealloc sec.freeMap index with
    | none => exact ⟨rfl, wellFormed, rfl⟩
    | some freeMap =>
      have spec := freeMapDealloc_spec wellFormed released
      have kept := sectionOnDirty_keeps io config { sec with freeMap, dirty := true } disk
      refine ⟨kept.1, ?_, kept.2.2⟩
      simp only [kept.2.1]
      exact spec.2.1

theorem sectionOperateAll_keepsPlan
    (wellFormed : state.1.freeMap.WellFormed) (ops : List SectionOp) :
    KeepsPlan state (sectionOperateAll io config state ops) := by
  induction ops generalizing state with
  | nil => exact ⟨rfl, wellFormed, rfl⟩
  | cons op rest ih =>
    have step := sectionOperate_keepsPlan io config wellFormed op
    have steps := ih step.wellFormed
    refine ⟨steps.id.trans step.id, steps.wellFormed, ?_⟩
    have later := steps.plan
    rw [step.id] at later
    exact later.trans step.plan

end

end Liboffs.BlockCache

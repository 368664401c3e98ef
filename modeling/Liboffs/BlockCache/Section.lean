import Liboffs.BlockCache.FreeMap
import Liboffs.Library.FileSlots

/-!
# Sections

A section keeps blocks of one size in the slots of a data file, and the map
of its free slots in memory.  The map is saved in a metadata file.  A
defragmentation first writes a plan file, from which an interrupted one is
completed when the section is created again.

Every operation on a file may fail.  The outcomes are given by the kind of
the operation and the time at which it happens.
-/

namespace Liboffs.BlockCache

open Library.ByteOrder Library.Compaction Library.FileSlots Function

/-! ## Files -/

/-- The kinds of operations on the files of a section. -/
inductive IoCall where
  | openData
  | readData
  | writeData
  | loadMeta
  | saveMeta
  | readPlan
  | writePlan
  | openMove
  | readMove
  | writeMove
  | truncateData
deriving DecidableEq

/-- The operation reads or writes one block for a client. -/
def IoCall.isBlockAccess : IoCall → Bool
  | .openData | .readData | .writeData => true
  | _ => false

/-- The outcomes of the operations at every time. -/
abbrev Io := IoCall → Nat → FileWrite

/-- The files of a section; a data file that does not exist is empty. -/
structure SectionFiles where
  data : SlotFile
  metadata : Option Bytes
  plan : Option Bytes

/-- The files of a section that has never been used. -/
def SectionFiles.empty (blockSize : Nat) : SectionFiles where
  data := SlotFile.empty blockSize
  metadata := none
  plan := none

/-- The files of all sections, and the time. -/
structure Disk where
  sections : UInt64 → SectionFiles
  time : Nat

namespace Disk

/-- Let an operation on a file take place. -/
def tick (disk : Disk) (count : Nat) : Disk :=
  { disk with time := disk.time + count }

/-- Change the files of a section. -/
def setFiles (disk : Disk) (id : UInt64) (files : SectionFiles) : Disk :=
  { disk with sections := Function.update disk.sections id files }

/-- Change the data file of a section. -/
def setData (disk : Disk) (id : UInt64) (data : SlotFile) : Disk :=
  disk.setFiles id { disk.sections id with data }

/-- Change the metadata file of a section. -/
def setMetadata (disk : Disk) (id : UInt64) (metadata : Option Bytes) : Disk :=
  disk.setFiles id { disk.sections id with metadata }

/-- Change the plan file of a section. -/
def setPlan (disk : Disk) (id : UInt64) (plan : Option Bytes) : Disk :=
  disk.setFiles id { disk.sections id with plan }

variable (disk : Disk) (id : UInt64)

@[simp]
theorem sections_tick : (disk.tick count).sections = disk.sections := rfl

@[simp]
theorem sections_setData : (disk.setData id data).sections id = { disk.sections id with data } :=
  update_self _ _ _

@[simp]
theorem sections_setMetadata :
    (disk.setMetadata id metadata).sections id = { disk.sections id with metadata } :=
  update_self _ _ _

@[simp]
theorem sections_setPlan : (disk.setPlan id plan).sections id = { disk.sections id with plan } :=
  update_self _ _ _

variable {disk id} (different : other ≠ id)
include different

theorem sections_setData_of_ne : (disk.setData id data).sections other = disk.sections other :=
  update_of_ne different _ _

theorem sections_setMetadata_of_ne :
    (disk.setMetadata id metadata).sections other = disk.sections other :=
  update_of_ne different _ _

theorem sections_setPlan_of_ne : (disk.setPlan id plan).sections other = disk.sections other :=
  update_of_ne different _ _

end Disk

/-! ## The section object -/

/-- `section_t`. -/
structure Section where
  id : UInt64
  freeMap : FreeMap
  opened : Bool
  dirty : Bool

/-- What all sections have in common: block size and the debounce timer. -/
structure SectionConfig where
  blockSize : Nat
  hasTimer : Bool

section
variable (io : Io) (config : SectionConfig)

/-- `section_save_meta`. -/
def sectionSaveMeta (sec : Section) (disk : Disk) : Disk :=
  (disk.setMetadata sec.id ((io .saveMeta disk.time).replace (disk.sections sec.id).metadata
      (freeMapSerialize sec.freeMap))).tick 1

/-- `section_on_dirty`: with a timer the metadata is saved later. -/
def sectionOnDirty (sec : Section) (disk : Disk) : Section × Disk :=
  if config.hasTimer then
    (sec, disk)
  else
    ({ sec with dirty := false }, sectionSaveMeta io sec disk)

/-- The results of `SECTION_WRITE`. -/
structure SectionWriteResult where
  result : Int
  index : Nat
  full : Bool
deriving DecidableEq

/-- Take an allocation back. -/
def undoAlloc (sec : Section) (allocated : FreeMap) (index : Nat) : Section :=
  { sec with freeMap := (freeMapDealloc allocated index).getD allocated }

/-- `SECTION_WRITE`. -/
def sectionWrite (sec : Section) (data : Bytes) (disk : Disk) :
    Section × Disk × SectionWriteResult :=
  if data.length ≠ config.blockSize then
    (sec, disk, ⟨1, 0, freeMapIsFull sec.freeMap⟩)
  else
    match freeMapAlloc sec.freeMap with
    | none => (sec, disk, ⟨2, 0, true⟩)
    | some (index, allocated) =>
      if !sec.opened && !(io .openData disk.time).succeeds then
        let undone := undoAlloc sec allocated index
        (undone, disk.tick 1, ⟨3, 0, freeMapIsFull undone.freeMap⟩)
      else
        let outcome := io .writeData disk.time
        let written := (disk.setData sec.id
          ((disk.sections sec.id).data.write config.blockSize index data outcome)).tick 1
        if outcome.succeeds then
          let saved := sectionOnDirty io config
            { sec with freeMap := allocated, opened := true, dirty := true }
            written
          (saved.1, saved.2, ⟨0, index, freeMapIsFull allocated⟩)
        else
          let undone := undoAlloc { sec with opened := true } allocated index
          (undone, written, ⟨5, 0, freeMapIsFull undone.freeMap⟩)

/-- `SECTION_READ`. -/
def sectionRead (sec : Section) (index : Nat) (disk : Disk) : Option Bytes × Disk :=
  if (io .readData disk.time).succeeds then
    ((disk.sections sec.id).data.read config.blockSize index, disk.tick 1)
  else
    (none, disk.tick 1)

/-- `SECTION_DEALLOCATE`, with the result. -/
def sectionDeallocate (sec : Section) (index : Nat) (disk : Disk) : Section × Disk × Int :=
  match freeMapDealloc sec.freeMap index with
  | none => (sec, disk, 1)
  | some freeMap =>
    let saved := sectionOnDirty io config { sec with freeMap, dirty := true } disk
    (saved.1, saved.2, 0)

/-! ## Plan files -/

/-- A new place in a plan; a free slot has the largest number. -/
def placeToNumber : Option Nat → Nat
  | some place => place
  | none => 2 ^ 64 - 1

/-- The new place that a number in a plan stands for. -/
def numberToPlace (number : Nat) : Option Nat :=
  if number = 2 ^ 64 - 1 then none else some number

/-- The content of the file that `_section_defrag_plan_write` writes. -/
def planSerialize (totalBlocks : Nat) (defrag : FreeMapDefragResult) : Bytes :=
  littleEndian 4 totalBlocks ++ (littleEndian 4 defrag.newCount ++
    littleEndianAll 8 (defrag.relocation.map placeToNumber))

/-- The plan that `_section_defrag_plan_recover` reads. -/
def planParse (totalBlocks : Nat) (bytes : Bytes) : Option FreeMapDefragResult :=
  if bytes.length < 8 then
    none
  else
    let total := ofLittleEndian (bytes.take 4)
    if total ≠ totalBlocks ∨ 8 + total * 8 ≠ bytes.length then
      none
    else
      some
        { relocation :=
            (ofLittleEndianAll 8 total (bytes.drop 8)).map numberToPlace
          newCount := ofLittleEndian ((bytes.drop 4).take 4) }

/-- The copies that a relocation asks for, in a data file. -/
def moveBlocks (relocation : List (Option Nat)) (time : Nat) (data : SlotFile) : SlotFile × Bool :=
  copyAll config.blockSize (fun time => (io .readMove time).succeeds) (io .writeMove) time
    (movesOf relocation) data

/-! ## Defragmentation -/

/-- The results of `SECTION_DEFRAGMENT`. -/
structure SectionDefragmentResult where
  result : Int
  relocation : Option (List (Option Nat))
  newCount : Nat
deriving DecidableEq

def SectionDefragmentResult.failed : SectionDefragmentResult where
  result := -1
  relocation := none
  newCount := 0

/-- The slots are compact, or there are none or all. -/
def isCompact (map : FreeMap) : Bool :=
  let usedCount := map.totalBlocks - freeMapCountFree map
  usedCount == 0 || freeMapCountFree map == 0 || decide (freeMapHighestUsed map < usedCount)

/-- The end of `SECTION_DEFRAGMENT` behind the truncation. -/
def defragmentCommit (sec : Section) (defrag : FreeMapDefragResult)
    (disk : Disk) : Section × Disk × SectionDefragmentResult :=
  let compact :=
    { sec with freeMap := freeMapCompact sec.freeMap.totalBlocks defrag.newCount, dirty := true }
  let saved := sectionSaveMeta io compact disk
  (compact, saved.setPlan sec.id none,
    { result := 0
      relocation := some defrag.relocation
      newCount := defrag.newCount })

/-- `SECTION_DEFRAGMENT`; a failure restores the free map, but not the files. -/
def sectionDefragment (sec : Section) (disk : Disk) : Section × Disk × SectionDefragmentResult :=
  if isCompact sec.freeMap then
    (sec, disk,
      { result := 0
        relocation := none
        newCount := sec.freeMap.totalBlocks - freeMapCountFree sec.freeMap })
  else
    let defrag := (freeMapDefragment sec.freeMap).1
    let outcome := io .writePlan disk.time
    let planned := (disk.setPlan sec.id
      (outcome.replace (disk.sections sec.id).plan
        (planSerialize sec.freeMap.totalBlocks defrag))).tick 1
    if !outcome.succeeds then
      (sec, planned, .failed)
    else if !sec.opened && !(io .openMove planned.time).succeeds then
      (sec, planned.tick 1, .failed)
    else
      let sec := { sec with opened := true }
      let moved := moveBlocks io config defrag.relocation planned.time
        (planned.sections sec.id).data
      let written := (planned.setData sec.id moved.1).tick (movesOf defrag.relocation).length
      if !moved.2 then
        (sec, written, .failed)
      else if !(io .truncateData written.time).succeeds then
        (sec, written.tick 1, .failed)
      else
        let cut := (written.setData sec.id
          (moved.1.truncate config.blockSize defrag.newCount)).tick 1
        defragmentCommit io sec defrag cut

/-- The end of `_section_defrag_plan_recover`: the map is saved, and the plan deleted. -/
def recoverCommit (sec : Section) (newCount : Nat) (disk : Disk) : Section × Disk :=
  let compact := { sec with freeMap := freeMapCompact sec.freeMap.totalBlocks newCount }
  (compact, (sectionSaveMeta io compact disk).setPlan sec.id none)

/-- `_section_defrag_plan_recover` with a plan that has been read. -/
def recoverPlan (sec : Section) (defrag : FreeMapDefragResult) (disk : Disk) : Section × Disk :=
  if !sec.opened && !(io .openMove disk.time).succeeds then
    (sec, disk.tick 1)
  else
    let sec := { sec with opened := true }
    let data := (disk.sections sec.id).data
    if data.size ≤ defrag.newCount * config.blockSize then
      recoverCommit io sec defrag.newCount disk
    else
      let moved := moveBlocks io config defrag.relocation disk.time data
      let written := (disk.setData sec.id moved.1).tick (movesOf defrag.relocation).length
      if !moved.2 then
        (sec, written)
      else if !(io .truncateData written.time).succeeds then
        (sec, written.tick 1)
      else
        recoverCommit io sec defrag.newCount ((written.setData sec.id
            (moved.1.truncate config.blockSize defrag.newCount)).tick 1)

/-- `_section_defrag_plan_recover`. -/
def sectionDefragPlanRecover (sec : Section) (disk : Disk) : Section × Disk :=
  match (disk.sections sec.id).plan with
  | none => (sec, disk)
  | some bytes =>
    if (io .readPlan disk.time).succeeds then
      match planParse sec.freeMap.totalBlocks bytes with
      | some defrag => recoverPlan io config sec defrag (disk.tick 1)
      | none => (sec, disk.tick 1)
    else
      (sec, disk.tick 1)

/-! ## Creation and destruction -/

/-- A section object as it is created. -/
def newSection (id : UInt64) (freeMap : FreeMap) : Section where
  id := id
  freeMap := freeMap
  opened := false
  dirty := false

/-- `section_create`; there is no section if its metadata is unusable. -/
def sectionCreate (size : Nat) (id : UInt64) (disk : Disk) : Option Section × Disk :=
  match (disk.sections id).metadata with
  | none =>
    let created := sectionDefragPlanRecover io config (newSection id (freeMapInit size)) disk
    (some created.1, created.2)
  | some bytes =>
    if (io .loadMeta disk.time).succeeds then
      match freeMapDeserialize bytes with
      | none => (none, disk.tick 1)
      | some freeMap =>
        let created := sectionDefragPlanRecover io config (newSection id freeMap) (disk.tick 1)
        (some created.1, created.2)
    else
      (none, disk.tick 1)

/-- `section_destroy` with the last reference. -/
def sectionDestroy (sec : Section) (disk : Disk) : Disk :=
  if sec.dirty then sectionSaveMeta io sec disk else disk

end

end Liboffs.BlockCache

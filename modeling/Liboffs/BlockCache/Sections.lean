import Liboffs.BlockCache.Section
import Liboffs.Library.Recency

/-!
# The section store

Blocks are spread over sections.  Those in use stand in a rotation, to which fresh ones are added
as others fill up.  Section objects are kept in a cache; the least recently used one is destroyed,
which saves its free map.

The functions return nothing where the program would use a section that could not be created, or a
write needs more rounds than given.
-/

namespace Liboffs.BlockCache

open Library Library.ByteOrder Library.Compaction

/-- `round_robin_next`: the first element goes to the end. -/
def roundRobinNext : List UInt64 → Option (UInt64 × List UInt64)
  | [] => none
  | id :: rest => some (id, rest ++ [id])

/-- `round_robin_add`. -/
def roundRobinAdd (robin : List UInt64) (id : UInt64) : List UInt64 :=
  robin ++ [id]

/-- `round_robin_unshift`. -/
def roundRobinUnshift (robin : List UInt64) (id : UInt64) : List UInt64 :=
  id :: robin

/-- `round_robin_remove`. -/
def roundRobinRemove (robin : List UInt64) (id : UInt64) : List UInt64 :=
  robin.erase id

/-- `sections_t`, with the cached sections in the order of their use. -/
structure Sections where
  config : SectionConfig
  size : Nat
  maxTupleSize : Nat
  maxBytes : Nat
  lruSize : Nat
  lru : List Section
  robin : List UInt64
  nextId : UInt64

/-- The section store and the files of the sections. -/
abbrev Store := Sections × Disk

/-- `_sections_target_count`. -/
def sectionsTargetCount (sections : Sections) : Nat :=
  let sectionBytes := sections.size * sections.config.blockSize
  if sections.maxBytes = 0 then
    0
  else if sectionBytes = 0 then
    0
  else
    (sections.maxBytes + sectionBytes - 1) / sectionBytes + 1

/-- A change of a section object is seen through the cache. -/
def Sections.store (sections : Sections) (sec : Section) : Sections :=
  { sections with lru := Recency.replace Section.id sec sections.lru }

section
variable (io : Io)

/-! ## The cache of sections -/

/-- `sections_lru_cache_put`. -/
def sectionsLruCachePut (sections : Sections) (sec : Section) (disk : Disk) : Sections × Disk :=
  if sections.lruSize = 0 then
    (sections, disk)
  else
    match Recency.find Section.id sec.id sections.lru with
    | some _ =>
      ({ sections with lru := Recency.touch Section.id sec.id sections.lru }, disk)
    | none =>
      if sections.lru.length = sections.lruSize then
        match sections.lru.getLast? with
        | some last =>
          ({ sections with lru := sec :: sections.lru.dropLast }, sectionDestroy io last disk)
        | none => ({ sections with lru := sec :: sections.lru }, disk)
      else
        ({ sections with lru := sec :: sections.lru }, disk)

/-- How a section is at hand: from the cache, or just created. -/
inductive Acquired where
  | cached (sec : Section)
  | created (sec : Section)
  | failed

/--
`sections_lru_cache_get`, and where the section is not cached,
`section_create` and `sections_lru_cache_put`.
-/
def sectionsAcquire (sections : Sections) (id : UInt64) (disk : Disk) :
    Acquired × Sections × Disk :=
  match Recency.find Section.id id sections.lru with
  | some sec =>
    (.cached sec, { sections with lru := Recency.touch Section.id id sections.lru }, disk)
  | none =>
    match sectionCreate io sections.config sections.size id disk with
    | (none, disk) => (.failed, sections, disk)
    | (some sec, disk) => (.created sec, sectionsLruCachePut io sections sec disk)

/-! ## Fresh sections -/

/-- `_sections_create_fresh`, with the identifier of the section. -/
def sectionsCreateFresh (sections : Sections) (disk : Disk) : Option UInt64 × Sections × Disk :=
  match sectionCreate io sections.config sections.size sections.nextId disk with
  | (none, disk) => (none, sections, disk)
  | (some sec, disk) =>
    (some sections.nextId,
      sectionsLruCachePut io { sections with nextId := sections.nextId + 1 } sec disk)

/-- Create fresh sections and place them in the rotation, up to the first failure. -/
def sectionsCreateAll (place : List UInt64 → UInt64 → List UInt64) :
    Nat → Sections → Disk → Sections × Disk
  | 0, sections, disk => (sections, disk)
  | count + 1, sections, disk =>
    match sectionsCreateFresh io sections disk with
    | (none, sections, disk) => (sections, disk)
    | (some id, sections, disk) =>
      sectionsCreateAll place count { sections with robin := place sections.robin id } disk

/-- `_sections_grow`. -/
def sectionsGrow (sections : Sections) (disk : Disk) : Sections × Disk :=
  sectionsCreateAll io roundRobinAdd 1 sections disk

/-- `sections_full`: the rotation loses the section, is refilled, and may grow by one section. -/
def sectionsFull (sections : Sections) (id : UInt64) (disk : Disk) : Sections × Disk :=
  let preRemove := sections.robin.length
  let removed := { sections with robin := roundRobinRemove sections.robin id }
  let refilled := sectionsCreateAll io roundRobinUnshift
    (sections.maxTupleSize - removed.robin.length) removed disk
  let size := refilled.1.robin.length
  let target := sectionsTargetCount sections
  if target ≠ 0 ∧ size < target then
    sectionsCreateAll io roundRobinAdd
      (min (max preRemove size + 1) target - size) refilled.1 refilled.2
  else
    refilled

/-- `sections_free`. -/
def sectionsFree (sections : Sections) (id : UInt64) : Sections :=
  if id ∈ sections.robin then
    sections
  else
    { sections with robin := roundRobinAdd sections.robin id }

/-! ## Writes -/

/-- The results of `SECTIONS_WRITE`. -/
structure SectionsWriteResult where
  result : Int
  sectionId : UInt64
  sectionIndex : Nat

/-- The write of a round of `SECTIONS_WRITE` to the section at hand. -/
def sectionsWriteTo (data : Bytes) (sec : Section) (sections : Sections)
    (disk : Disk) : Sections × Disk × SectionWriteResult :=
  let written := sectionWrite io sections.config sec data disk
  let stored := sections.store written.1
  let outcome := written.2.2
  if outcome.result = 2 ∨ outcome.full = true then
    let filled := sectionsFull io stored sec.id written.2.1
    if outcome.result = 2 ∧
        (filled.1.robin.length ≤ filled.1.maxTupleSize ∨
          filled.1.robin.length < sectionsTargetCount filled.1) then
      let grown := sectionsGrow io filled.1 filled.2
      (grown.1, grown.2, outcome)
    else
      (filled.1, filled.2, outcome)
  else
    (stored, written.2.1, outcome)

/-- The end of a round behind its write: only a full section goes on. -/
def sectionsWriteNext (id : UInt64) (written : Sections × Disk × SectionWriteResult)
    (again : SectionsWriteResult → Sections → Disk →
      Option (Sections × Disk × SectionsWriteResult)) :
    Option (Sections × Disk × SectionsWriteResult) :=
  let result : SectionsWriteResult := ⟨written.2.2.result, id, written.2.2.index⟩
  if written.2.2.result ≠ 2 then
    some (written.1, written.2.1, result)
  else
    again result written.1 written.2.1

/-- The loop of `SECTIONS_WRITE`, with the attempts, the full sections and the last result. -/
def sectionsWriteLoop (data : Bytes) : Nat → Nat → Nat → SectionsWriteResult → Sections → Disk →
      Option (Sections × Disk × SectionsWriteResult)
  | 0, _, _, _, _, _ => none
  | rounds + 1, attempts, fullRotations, result, sections, disk =>
    if sections.robin.length + fullRotations + sections.maxTupleSize ≤
        attempts then
      some (sections, disk, result)
    else
      match roundRobinNext sections.robin with
      | none => some (sections, disk, result)
      | some (id, robin) =>
        match sectionsAcquire io { sections with robin } id disk with
        | (.failed, sections, disk) => some (sections, disk, ⟨-1, id, result.sectionIndex⟩)
        | (.cached sec, sections, disk) =>
          sectionsWriteNext id (sectionsWriteTo io data sec sections disk)
            (sectionsWriteLoop data rounds (attempts + 1) (fullRotations + 1))
        | (.created sec, sections, disk) =>
          if freeMapIsFull sec.freeMap then
            let filled := sectionsFull io sections id disk
            sectionsWriteLoop data rounds (attempts + 1)
              fullRotations { result with sectionId := id } filled.1
              filled.2
          else
            sectionsWriteNext id (sectionsWriteTo io data sec sections disk)
              (sectionsWriteLoop data rounds (attempts + 1) (fullRotations + 1))

/-- `SECTIONS_WRITE`. -/
def sectionsWrite (rounds : Nat) (data : Bytes) (sections : Sections)
    (disk : Disk) : Option (Sections × Disk × SectionsWriteResult) :=
  sectionsWriteLoop io data rounds 0 0 ⟨-1, 0, 0⟩ sections disk

/-! ## The other messages -/

/-- The section of a read or a release; a created one joins the rotation. -/
def sectionsUse (sections : Sections) (id : UInt64) (disk : Disk) :
    Option (Section × Sections × Disk) :=
  match sectionsAcquire io sections id disk with
  | (.failed, _, _) => none
  | (.cached sec, sections, disk) => some (sec, sections, disk)
  | (.created sec, sections, disk) =>
    if freeMapIsFull sec.freeMap then
      some (sec, sections, disk)
    else
      some (sec, sectionsFree sections id, disk)

/-- `SECTIONS_READ`. -/
def sectionsRead (sections : Sections) (id : UInt64) (index : Nat)
    (disk : Disk) : Option (Sections × Disk × Option Bytes) :=
  (sectionsUse io sections id disk).map fun (sec, sections, disk) =>
    let read := sectionRead io sections.config sec index disk
    (sections, read.2, read.1)

/-- `SECTIONS_DEALLOCATE`, with the result. -/
def sectionsDeallocate (sections : Sections) (id : UInt64) (index : Nat)
    (disk : Disk) : Option (Sections × Disk × Int) :=
  (sectionsUse io sections id disk).map fun (sec, sections, disk) =>
    let released := sectionDeallocate io sections.config sec index disk
    let stored := sections.store released.1
    let result := released.2.2
    (if result = 0 then sectionsFree stored id else stored, released.2.1, result)

/-- The loop of `SECTION_WRITE_META`; a save that fails is not repeated. -/
def sectionsWriteMetaLoop : List Section → Sections → Disk → Sections × Disk
  | [], sections, disk => (sections, disk)
  | sec :: rest, sections, disk =>
    if sec.dirty then
      sectionsWriteMetaLoop rest (sections.store { sec with dirty := false })
        (sectionSaveMeta io sec disk)
    else
      sectionsWriteMetaLoop rest sections disk

/-- `SECTION_WRITE_META`. -/
def sectionsWriteMeta (sections : Sections) (disk : Disk) : Sections × Disk :=
  sectionsWriteMetaLoop io sections.lru sections disk

/-- `block_relocation_t`. -/
structure BlockRelocation where
  sectionId : UInt64
  oldIndex : Nat
  newIndex : Nat

/-- The relocations of a section that `SECTIONS_DEFRAGMENT` reports. -/
def blockRelocations (id : UInt64) (relocation : List (Option Nat)) : List BlockRelocation :=
  (movesOf relocation).map fun next => ⟨id, next.1, next.2⟩

/--
The section is passed over; the comparison of its occupancy in floating point is given as a
function.
-/
def skipsSection (occupied : Nat → Nat → Bool) (map : FreeMap) : Bool :=
  let total := map.totalBlocks
  let freeCount := freeMapCountFree map
  total == 0 || occupied total freeCount || freeCount == total || decide (total - freeCount ≤ 1)

/-- The results of `SECTIONS_DEFRAGMENT`, whose result code is zero. -/
structure SectionsDefragmentResult where
  sectionsDefragmented : Nat
  relocations : List BlockRelocation

/-- The loop of `SECTIONS_DEFRAGMENT` over the cached sections. -/
def sectionsDefragmentLoop (occupied : Nat → Nat → Bool) :
    List Section → Sections → Disk → SectionsDefragmentResult →
      Sections × Disk × SectionsDefragmentResult
  | [], sections, disk, result => (sections, disk, result)
  | sec :: rest, sections, disk, result =>
    if skipsSection occupied sec.freeMap then
      sectionsDefragmentLoop occupied rest sections disk result
    else
      let done := sectionDefragment io sections.config sec disk
      let next :=
        match done.2.2.relocation with
        | some relocation =>
          { sectionsDefragmented := result.sectionsDefragmented + 1
            relocations := result.relocations ++ blockRelocations sec.id relocation }
        | none => result
      sectionsDefragmentLoop occupied rest (sections.store done.1) done.2.1 next

/-- `SECTIONS_DEFRAGMENT`. -/
def sectionsDefragment (occupied : Nat → Nat → Bool) (sections : Sections)
    (disk : Disk) : Sections × Disk × SectionsDefragmentResult :=
  sectionsDefragmentLoop io occupied sections.lru sections disk ⟨0, []⟩

/-- Messages to the section store whose results are not read. -/
inductive SectionsMessage where
  | sectionsDeallocate (sectionId : UInt64) (sectionIndex : Nat)
  | sectionsSectionFull (sectionId : UInt64)
  | sectionWriteMeta
  | sectionDeallocate (index : Nat)

/-- `sections_dispatch` on these messages; `SECTION_DEALLOCATE` is not handled by the store. -/
def sectionsDispatch (sections : Sections) (disk : Disk) :
    SectionsMessage → Option (Sections × Disk)
  | .sectionsDeallocate id index =>
    (sectionsDeallocate io sections id index disk).map fun released => (released.1, released.2.1)
  | .sectionsSectionFull id => some (sectionsFull io sections id disk)
  | .sectionWriteMeta => some (sectionsWriteMeta io sections disk)
  | .sectionDeallocate _ => some (sections, disk)

/-! ## Creation -/

/-- The loop of `sections_create` over the sections of the saved rotation. -/
def sectionsLoadAll : List UInt64 → Sections → Disk → Option (Sections × Disk)
  | [], sections, disk => some (sections, disk)
  | id :: rest, sections, disk =>
    match sectionCreate io sections.config sections.size id disk with
    | (none, _) => none
    | (some sec, disk) =>
      let put := sectionsLruCachePut io sections sec disk
      if freeMapIsFull sec.freeMap then
        let filled := sectionsFull io put.1 id put.2
        sectionsLoadAll rest filled.1 filled.2
      else
        sectionsLoadAll rest put.1 put.2

/-- The loop of `sections_create` that fills the rotation. -/
def sectionsFillRobin : Nat → Sections → Disk → Option (Sections × Disk)
  | 0, sections, disk => some (sections, disk)
  | count + 1, sections, disk =>
    match sectionsCreateFresh io sections disk with
    | (none, _, _) => none
    | (some id, sections, disk) =>
      sectionsFillRobin count { sections with robin := roundRobinAdd sections.robin id } disk

/-- `sections_create`, with the rotation that was read and the first free identifier. -/
def sectionsCreate (config : SectionConfig) (size cacheSize maxTupleSize : Nat)
    (robin : List UInt64) (nextId : UInt64) (disk : Disk) : Option (Sections × Disk) :=
  (sectionsLoadAll io robin
    { config, size, maxTupleSize, maxBytes := 0, lruSize := cacheSize,
      lru := [], robin, nextId } disk).bind fun loaded =>
    sectionsFillRobin io (maxTupleSize - loaded.1.robin.length) loaded.1 loaded.2

end

end Liboffs.BlockCache

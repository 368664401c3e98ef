import Liboffs.BlockCache.SectionSpec

/-!
# Interrupted and failed defragmentations

A crash between the moves of a defragmentation leaves the plan file, and the next creation of the
section makes all moves again.  This is right only if no move already made has changed a slot that
is moved itself.

A failed defragmentation restores the free map.  If it fails behind the plan file, the next
creation carries the plan out all the same.
-/

namespace Liboffs.BlockCache

open Library.ByteOrder Library.Compaction Library.FileSlots List

theorem length_planSerialize (length : defrag.relocation.length = totalBlocks) :
    (planSerialize totalBlocks defrag).length = 8 + totalBlocks * 8 := by
  simp [planSerialize, length]
  omega

theorem planParse_planSerialize (small : totalBlocks < 2 ^ 32)
    (length : defrag.relocation.length = totalBlocks) (count : defrag.newCount ≤ totalBlocks)
    (places : ∀ index, some index ∈ defrag.relocation → index < totalBlocks) :
    planParse totalBlocks (planSerialize totalBlocks defrag) = some defrag := by
  have size := length_planSerialize length
  have total : ofLittleEndian ((planSerialize totalBlocks defrag).take 4) = totalBlocks := by
    rw [planSerialize, take_left' (length_littleEndian _ _), ofLittleEndian_of_lt small]
  have rest : (planSerialize totalBlocks defrag).drop 4 = littleEndian 4 defrag.newCount ++
        littleEndianAll 8 (defrag.relocation.map placeToNumber) := by
    rw [planSerialize, drop_left' (length_littleEndian _ _)]
  have newCount : ofLittleEndian (((planSerialize totalBlocks defrag).drop 4).take 4) =
        defrag.newCount := by
    rw [rest, take_left' (length_littleEndian _ _),
      ofLittleEndian_of_lt (lt_of_le_of_lt count small)]
  have relocation : (ofLittleEndianAll 8 totalBlocks
      ((planSerialize totalBlocks defrag).drop 8)).map numberToPlace = defrag.relocation := by
    have fit : ∀ number ∈ defrag.relocation.map placeToNumber, number < 256 ^ 8 := by
      intro number member
      rcases mem_map.mp member with ⟨place, inside, rfl⟩
      cases place with
      | none => decide
      | some index =>
        have less := places index inside
        simp only [placeToNumber]
        omega
    have decoded := ofLittleEndianAll_littleEndianAll fit
    rw [length_map, length] at decoded
    rw [show (8 : Nat) = 4 + 4 from rfl, ← drop_drop, rest,
      drop_left' (length_littleEndian _ _), decoded, map_map]
    refine (map_congr_left fun place inside => ?_).trans (map_id _)
    cases place with
    | none => rfl
    | some index =>
      have less := places index inside
      have other : index ≠ 2 ^ 64 - 1 := by omega
      exact if_neg other
  rw [planParse, size, if_neg (by omega)]
  simp [total, newCount, relocation]

variable {map : FreeMap}

/-- A plan of which the end is missing is never accepted. -/
theorem planParse_partOf (small : totalBlocks < 2 ^ 32)
    (length : defrag.relocation.length = totalBlocks) (written : Option Nat) (expected : Nat) :
    planParse expected (partOf (planSerialize totalBlocks defrag) written) = none := by
  have size := length_planSerialize length
  have short : (partOf (planSerialize totalBlocks defrag) written).length <
      (planSerialize totalBlocks defrag).length := by
    rw [partOf, length_take]
    omega
  rw [planParse]
  split
  · rfl
  · rename_i enough
    have total : ofLittleEndian ((partOf (planSerialize totalBlocks defrag) written).take 4) =
          totalBlocks := by
      have room := Nat.le_of_not_lt enough
      rw [partOf, length_take] at room
      rw [partOf, take_take, min_eq_left (by omega),
        planSerialize, take_left' (length_littleEndian _ _), ofLittleEndian_of_lt small]
    rw [if_pos (.inr (by omega))]

/-- What is known of a map that is not compact. -/
structure Gappy (map : FreeMap) : Prop where
  used : map.totalBlocks - freeMapCountFree map = rank map.occupied map.totalBlocks
  highest : map.occupied (freeMapHighestUsed map) = true
  beyond : rank map.occupied map.totalBlocks ≤ freeMapHighestUsed map

theorem le_freeMapHighestUsed (wellFormed : map.WellFormed) (here : map.occupied index = true) :
    map.occupied (freeMapHighestUsed map) = true ∧ index ≤ freeMapHighestUsed map := by
  apply highestUsedBelow_spec wellFormed (le_refl _) _ here
  rw [wellFormed.capacity]
  exact lt_of_lt_of_le (FreeMap.occupied_eq_true.mp here).1 (le_mapCapacity _)

/-- A map that is not compact has an occupied slot behind its new end. -/
theorem gappy_of_not_compact (wellFormed : map.WellFormed) (gaps : isCompact map = false) :
    Gappy map := by
  have count := freeMapCountFree_eq wellFormed
  simp only [isCompact, Bool.or_eq_false_iff, beq_eq_false_iff_ne, decide_eq_false_iff_not] at gaps
  have used : map.totalBlocks - freeMapCountFree map = rank map.occupied map.totalBlocks := by omega
  rw [used] at gaps
  rcases exists_rank_eq (Nat.pos_of_ne_zero gaps.1.1) with ⟨index, _, here, _⟩
  exact ⟨used, (le_freeMapHighestUsed wellFormed here).1, Nat.le_of_not_lt gaps.2⟩

/-- In a map that the defragmentation leaves alone the occupied slots are the first ones. -/
theorem occupied_of_isCompact (wellFormed : map.WellFormed) (compact : isCompact map = true) :
    map.occupied index = true ↔ index < rank map.occupied map.totalBlocks := by
  apply occupied_iff_lt_rank
  intro place here
  have count := freeMapCountFree_eq wellFormed
  have inside := (FreeMap.occupied_eq_true.mp here).1
  have counted := rank_lt here inside
  have highest := (le_freeMapHighestUsed wellFormed here).2
  simp only [isCompact, Bool.or_eq_true, beq_iff_eq, decide_eq_true_eq] at compact
  rcases compact with (none | all) | below <;> omega

/-- No operation fails, but for a client's read or write of a block. -/
def Reliable (io : Io) : Prop :=
  ∀ call time, call.isBlockAccess = false → io call time = .complete

/-- The data file holds every occupied slot. -/
def Stored (blockSize : Nat) (map : FreeMap) (data : SlotFile) : Prop :=
  ∀ index, map.occupied index = true → data.Covers blockSize index

/-- A data file after moves, whose size they do not change. -/
def movedData (data : SlotFile) (moves : List Move) : SlotFile where
  slots := moveAll data.slots moves
  size := data.size

section
variable {io : Io} {config : SectionConfig} {map : FreeMap} {data : SlotFile}

def defragmentMoves (map : FreeMap) : List Move :=
  movesOf (freeMapDefragment map).1.relocation

theorem defragmentMoves_eq :
    defragmentMoves map = movesOf (relocation map.occupied map.totalBlocks) := by
  rw [defragmentMoves, freeMapDefragment_eq]

theorem moveBlocks_complete (reliable : Reliable io) (stored : Stored config.blockSize map data)
    (time : Nat) (size : data.size ≤ later.size) :
    moveBlocks io config (freeMapDefragment map).1.relocation time later =
      (movedData later (defragmentMoves map), true) := by
  refine copyAll_complete (fun time => by rw [reliable .readMove time rfl]; rfl)
    (fun time => reliable .writeMove time rfl) ?_ ?_
  · intro next member
    change next ∈ defragmentMoves map at member
    rw [defragmentMoves_eq] at member
    exact le_trans (stored next.1 (mem_movesOf_relocation.mp member).2.1) size
  · change ∀ next ∈ defragmentMoves map, next.2 < next.1
    rw [defragmentMoves_eq]
    exact ascending_movesOf_relocation.forward

end

/-- What recovery from a plan does to a section and its files. -/
structure RolledForward (blockSize : Nat) (map : FreeMap) (before after : SectionFiles)
    (freeMap : FreeMap) : Prop where
  data : after.data =
    (movedData before.data (defragmentMoves map)).truncate blockSize
      (rank map.occupied map.totalBlocks)
  metadata : after.metadata = some (freeMapSerialize freeMap)
  plan : after.plan = none
  freeMap : freeMap = freeMapCompact map.totalBlocks (rank map.occupied map.totalBlocks)

section
variable {io : Io} {config : SectionConfig}

theorem recoverPlan_complete (reliable : Reliable io)
    (needed : defrag.newCount * config.blockSize < (disk.sections sec.id).data.size)
    (moves : moveBlocks io config defrag.relocation disk.time
      (disk.sections sec.id).data = (moved, true)) :
    let after := recoverPlan io config sec defrag disk
    after.1.freeMap = freeMapCompact sec.freeMap.totalBlocks defrag.newCount ∧
      after.2.sections sec.id =
        { data := moved.truncate config.blockSize defrag.newCount
          metadata := some (freeMapSerialize
            (freeMapCompact sec.freeMap.totalBlocks defrag.newCount))
          plan := none } := by
  have opens : (!sec.opened && !(io .openMove disk.time).succeeds) = false := by
    rw [reliable .openMove _ rfl]
    exact Bool.and_false _
  have cuts (time : Nat) : (io .truncateData time).succeeds = true := by
    rw [reliable .truncateData _ rfl]
    rfl
  simp only [recoverPlan, opens, reduceCtorEq, if_false,
    if_neg (Nat.not_le_of_lt needed), moves, cuts, Bool.not_true]
  refine ⟨rfl, ?_⟩
  simp [recoverCommit, sectionSaveMeta, reliable .saveMeta _ rfl, FileWrite.replace]

/-- Without failures a plan that is found is carried out. -/
theorem recover_planned (reliable : Reliable io) (positive : 0 < config.blockSize)
    (small : map.totalBlocks < 2 ^ 32) (gappy : Gappy map) (sec : Section) (disk : Disk)
    (total : sec.freeMap.totalBlocks = map.totalBlocks) (plan : (disk.sections sec.id).plan =
      some (planSerialize map.totalBlocks (freeMapDefragment map).1))
    (stored : Stored config.blockSize map data)
    (size : data.size ≤ (disk.sections sec.id).data.size) :
    let after := sectionDefragPlanRecover io config sec disk
    RolledForward config.blockSize map (disk.sections sec.id)
      (after.2.sections sec.id) after.1.freeMap := by
  have long : rank map.occupied map.totalBlocks * config.blockSize < data.size := by
    have covers := stored _ gappy.highest
    refine lt_of_lt_of_le ?_ covers
    exact Nat.mul_lt_mul_of_pos_right (Nat.lt_succ_of_le gappy.beyond) positive
  have newCount : (freeMapDefragment map).1.newCount = rank map.occupied map.totalBlocks := by
    rw [freeMapDefragment_eq]
  have reads : (io .readPlan disk.time).succeeds = true := by
    rw [reliable .readPlan _ rfl]
    rfl
  have parsed : planParse map.totalBlocks (planSerialize map.totalBlocks
      (freeMapDefragment map).1) = some (freeMapDefragment map).1 := by
    rw [freeMapDefragment_eq]
    refine planParse_planSerialize small length_relocation (rank_le _ _) ?_
    intro index member
    rcases mem_map.mp member with ⟨slot, inside, place⟩
    split at place
    · cases place
      exact lt_of_le_of_lt (rank_le _ _) (mem_range.mp inside)
    · cases place
  rw [← total] at parsed plan
  have needed : (freeMapDefragment map).1.newCount * config.blockSize <
      ((disk.tick 1).sections sec.id).data.size := by
    rw [newCount]
    exact lt_of_lt_of_le long size
  have done := recoverPlan_complete reliable needed
    (moveBlocks_complete reliable stored (disk.tick 1).time size)
  simp only [sectionDefragPlanRecover, plan, reads, if_true, parsed]
  rw [total, newCount] at done
  refine ⟨?_, ?_, ?_, done.1⟩
  · rw [done.2]
    rfl
  · rw [done.2, done.1]
  · rw [done.2]

end

/-- After some of the moves: the plan is written, and the data file is not truncated. -/
def interruptedDefragment (config : SectionConfig) (sec : Section) (count : Nat) (disk : Disk) :
    Disk :=
  let copied := copyAll config.blockSize (fun _ => true)
    (fun _ => .complete) 0 ((defragmentMoves sec.freeMap).take count)
    (disk.sections sec.id).data
  (disk.setPlan sec.id (some (planSerialize sec.freeMap.totalBlocks
      (freeMapDefragment sec.freeMap).1))).setData sec.id copied.1

theorem interruptedDefragment_complete
    (stored : Stored config.blockSize sec.freeMap (disk.sections sec.id).data) (count : Nat) :
    (interruptedDefragment config sec count disk).sections sec.id =
      { (disk.sections sec.id) with
        data := movedData (disk.sections sec.id).data ((defragmentMoves sec.freeMap).take count)
        plan := some (planSerialize sec.freeMap.totalBlocks
          (freeMapDefragment sec.freeMap).1) } := by
  have copied : copyAll config.blockSize (fun _ => true)
      (fun _ => .complete) 0 ((defragmentMoves sec.freeMap).take count)
      (disk.sections sec.id).data = (movedData (disk.sections sec.id).data
          ((defragmentMoves sec.freeMap).take count), true) := by
    refine copyAll_complete (fun _ => rfl) (fun _ => rfl) ?_ ?_
    · intro next member
      have inside := mem_of_mem_take member
      rw [defragmentMoves_eq] at inside
      exact stored next.1 (mem_movesOf_relocation.mp inside).2.1
    · intro next member
      have inside := mem_of_mem_take member
      rw [defragmentMoves_eq] at inside
      exact ascending_movesOf_relocation.forward next inside
  simp only [interruptedDefragment, copied, Disk.sections_setData, Disk.sections_setPlan]

/-- The new place of an occupied slot. -/
theorem relocation_eq_some_iff :
    (freeMapDefragment map).1.relocation[index]? = some (some place) ↔
      map.occupied index = true ∧ place = rank map.occupied index := by
  rw [freeMapDefragment_eq]
  simp only [relocation, getElem?_map]
  by_cases inside : index < map.totalBlocks
  · rw [getElem?_range inside]
    by_cases here : map.occupied index = true
    · simp only [here, if_true, Option.map_some, Option.some.injEq, true_and]
      exact eq_comm
    · simp [here]
  · rw [getElem?_eq_none (by simpa using Nat.le_of_not_lt inside)]
    simp [FreeMap.occupied, inside]

/--
Recovery between the moves gives every slot its content exactly if every move to the source of
another one wrote there what was there before.
-/
theorem recover_interrupted_iff {io : Io} (reliable : Reliable io) {config : SectionConfig}
    (positive : 0 < config.blockSize) {sec : Section} {disk : Disk}
    (wellFormed : sec.freeMap.WellFormed) (small : sec.freeMap.totalBlocks < 2 ^ 32)
    (gaps : isCompact sec.freeMap = false)
    (stored : Stored config.blockSize sec.freeMap (disk.sections sec.id).data) (count : Nat)
    {restarted : Section} (sameId : restarted.id = sec.id)
    (sameTotal : restarted.freeMap.totalBlocks = sec.freeMap.totalBlocks) :
    (∀ index place, (freeMapDefragment sec.freeMap).1.relocation[index]? = some (some place) →
        ((sectionDefragPlanRecover io config restarted
          (interruptedDefragment config sec count disk)).2.sections
            sec.id).data.read config.blockSize place =
          (disk.sections sec.id).data.read config.blockSize index) ↔
      ∀ next ∈ defragmentMoves sec.freeMap, ∀ made ∈ (defragmentMoves sec.freeMap).take count,
          made.2 = next.1 → (disk.sections sec.id).data.slots made.1 =
              (disk.sections sec.id).data.slots next.1 := by
  have gappy := gappy_of_not_compact wellFormed gaps
  have interrupted := interruptedDefragment_complete stored count
  rw [← sameId] at interrupted
  have recovered := recover_planned reliable positive small gappy restarted
    (interruptedDefragment config sec count disk) sameTotal (by rw [interrupted]) stored
    (by rw [interrupted, sameId]; exact le_refl _)
  simp only [sameId] at recovered interrupted ⊢
  rw [defragmentMoves_eq, ← moveAll_again_relocation_iff]
  have inside {index : Nat} (here : sec.freeMap.occupied index = true) :
      index < sec.freeMap.totalBlocks :=
    (FreeMap.occupied_eq_true.mp here).1
  have equal {index : Nat} (here : sec.freeMap.occupied index = true) :
      ((sectionDefragPlanRecover io config restarted
          (interruptedDefragment config sec count disk)).2.sections
            sec.id).data.read config.blockSize (rank sec.freeMap.occupied index) =
        some (moveAll (moveAll (disk.sections sec.id).data.slots
            ((defragmentMoves sec.freeMap).take count))
          (defragmentMoves sec.freeMap)
          (rank sec.freeMap.occupied index)) := by
    rw [recovered.data, SlotFile.read_truncate (rank_lt here (inside here)), interrupted]
    rfl
  rw [← defragmentMoves_eq]
  constructor
  · intro right index _ here
    have same := right index _ (relocation_eq_some_iff.mpr ⟨here, rfl⟩)
    rw [equal here, SlotFile.read_of_covers (stored index here)] at same
    exact Option.some.inj same
  · intro right index place new
    rcases relocation_eq_some_iff.mp new with ⟨here, rfl⟩
    rw [equal here, SlotFile.read_of_covers (stored index here), right index (inside here) here]

/-- A section with four slots, of which the first is free. -/
def gappySection : Section :=
  newSection 0 (freeMapOf 4 [0])

/-- Its files, with blocks of one byte. -/
def gappyDisk : Disk where
  sections := fun _ =>
    { data := { slots := fun index => [UInt8.ofNat index], size := 4 }
      metadata := some (freeMapSerialize gappySection.freeMap)
      plan := none }
  time := 0

/-- Blocks of one byte, saved at once. -/
def byteConfig : SectionConfig where
  blockSize := 1
  hasTimer := false

/-- No operation on a file fails. -/
def reliableIo : Io := fun _ _ => .complete

theorem stored_gappyDisk : Stored 1 gappySection.freeMap (gappyDisk.sections 0).data := by
  intro index here
  have inside := (FreeMap.occupied_eq_true.mp here).1
  change (index + 1) * 1 ≤ 4
  rw [Nat.mul_one]
  exact Nat.succ_le_of_lt inside

theorem wellFormed_gappySection : gappySection.freeMap.WellFormed :=
  wellFormed_freeMapOf (by decide)

/-- After one of three moves recovery is right. -/
theorem recover_after_one_move :
    (freeMapDefragment gappySection.freeMap).1.relocation[1]? = some (some 0) ∧
      ((sectionDefragPlanRecover reliableIo byteConfig gappySection
        (interruptedDefragment byteConfig gappySection 1 gappyDisk)).2.sections 0).data.read 1 0 =
        (gappyDisk.sections 0).data.read 1 1 := by
  have reliable : Reliable reliableIo := fun _ _ _ => rfl
  have positive : 0 < byteConfig.blockSize := by decide
  have harmless : ∀ next ∈ defragmentMoves gappySection.freeMap,
      ∀ made ∈ (defragmentMoves gappySection.freeMap).take 1, made.2 = next.1 →
          (gappyDisk.sections gappySection.id).data.slots made.1 =
            (gappyDisk.sections gappySection.id).data.slots next.1 := by
    decide
  have same : gappySection.id = gappySection.id := rfl
  have moved : (freeMapDefragment gappySection.freeMap).1.relocation[1]? = some (some 0) := by
    decide
  constructor
  · exact moved
  · exact (recover_interrupted_iff reliable positive wellFormed_gappySection
      (by decide) (by decide) stored_gappyDisk 1 same rfl).mpr harmless 1 0 moved

/-- After two of three moves recovery puts the wrong block in front. -/
theorem recover_after_two_moves_is_wrong :
    (freeMapDefragment gappySection.freeMap).1.relocation[1]? = some (some 0) ∧
      (gappyDisk.sections 0).data.read 1 1 = some [1] ∧
      ((sectionDefragPlanRecover reliableIo byteConfig gappySection
        (interruptedDefragment byteConfig gappySection 2
          gappyDisk)).2.sections 0).data.read 1 0 = some [2] := by
  decide

structure DefragmentFailed (io : Io) (sec : Section) (disk : Disk) (after : Section × Disk) :
    Prop where
  gaps : isCompact sec.freeMap = false
  id : after.1.id = sec.id
  freeMap : after.1.freeMap = sec.freeMap
  dirty : after.1.dirty = sec.dirty
  metadata : (after.2.sections sec.id).metadata = (disk.sections sec.id).metadata
  planned : (io .writePlan disk.time).succeeds = true →
    (after.2.sections sec.id).plan =
        some (planSerialize sec.freeMap.totalBlocks (freeMapDefragment sec.freeMap).1) ∧
      (disk.sections sec.id).data.size ≤ (after.2.sections sec.id).data.size
  unplanned : (io .writePlan disk.time).succeeds = false →
    (after.2.sections sec.id).data = (disk.sections sec.id).data ∧
      (after.2.sections sec.id).plan =
        (io .writePlan disk.time).replace (disk.sections sec.id).plan
          (planSerialize sec.freeMap.totalBlocks (freeMapDefragment sec.freeMap).1)

variable {id : UInt64} {after : Section × Disk}

section
variable {io : Io} {config : SectionConfig} {sec : Section} {disk : Disk}

theorem replace_of_succeeds {outcome : FileWrite} (succeeds : outcome.succeeds = true)
    (old : Option Bytes) (new : Bytes) : outcome.replace old new = some new := by
  cases outcome with
  | complete => rfl
  | failed written => cases succeeds

variable (io config) in
theorem size_le_moveBlocks (relocation : List (Option Nat)) (time : Nat) (data : SlotFile) :
    data.size ≤ (moveBlocks io config relocation time data).1.size :=
  size_le_copyAll _ _ _

theorem sectionDefragment_failed (failed : (sectionDefragment io config sec disk).2.2.result = -1) :
    DefragmentFailed io sec disk ((sectionDefragment io config sec disk).1,
        (sectionDefragment io config sec disk).2.1) := by
  revert failed
  unfold sectionDefragment
  split
  · intro impossible
    exact absurd impossible (by simp)
  · rename_i gaps
    have gaps := Bool.eq_false_iff.mpr gaps
    by_cases plans : (io .writePlan disk.time).succeeds = true
    · have written := replace_of_succeeds plans (disk.sections sec.id).plan
        (planSerialize sec.freeMap.totalBlocks (freeMapDefragment sec.freeMap).1)
      simp only [plans, Bool.not_true, reduceCtorEq, if_false]
      have behind {after : Section × Disk} (id : after.1.id = sec.id)
          (freeMap : after.1.freeMap = sec.freeMap) (dirty : after.1.dirty = sec.dirty)
          (metadata : (after.2.sections sec.id).metadata = (disk.sections sec.id).metadata)
          (plan : (after.2.sections sec.id).plan = some (planSerialize sec.freeMap.totalBlocks
              (freeMapDefragment sec.freeMap).1))
          (size : (disk.sections sec.id).data.size ≤ (after.2.sections sec.id).data.size) :
          DefragmentFailed io sec disk after :=
        ⟨gaps, id, freeMap, dirty, metadata, fun _ => ⟨plan, size⟩,
          fun none => absurd (plans.symm.trans none) (by simp)⟩
      split
      · intro _
        refine behind rfl rfl rfl ?_ ?_ ?_ <;> simp [written]
      · split
        · intro _
          refine behind rfl rfl rfl ?_ ?_ ?_
          · simp
          · simp [written]
          · simpa using size_le_moveBlocks io config _ _ _
        · split
          · intro _
            refine behind rfl rfl rfl ?_ ?_ ?_
            · simp
            · simp [written]
            · simpa using size_le_moveBlocks io config _ _ _
          · intro impossible
            exact absurd impossible (by simp [defragmentCommit])
    · have unplanned := Bool.eq_false_iff.mpr plans
      simp only [unplanned, Bool.not_false, if_true]
      intro _
      refine ⟨gaps, rfl, rfl, rfl, by simp, ?_, ?_⟩
      · intro impossible
        exact absurd impossible plans
      · intro _
        simp

/-- The metadata file of a section is up to date, unless it is dirty. -/
def Saved (sec : Section) (files : SectionFiles) : Prop :=
  sec.dirty = false → files.metadata = some (freeMapSerialize sec.freeMap)

/-- The occupied slots hold what they held, and no later creation changes them. -/
structure Atomic (config : SectionConfig) (size : Nat) (sec : Section) (disk : Disk)
    (after : Section × Disk) : Prop where
  kept : ∀ index, after.1.freeMap.occupied index = true →
    (after.2.sections sec.id).data.read config.blockSize index =
      (disk.sections sec.id).data.read config.blockSize index
  inert : ∀ io ops index,
    (sectionOperateAll io config after ops).1.freeMap.occupied index =
        true →
      ((sectionCreate io config size sec.id
          (sectionDestroy io (sectionOperateAll io config after ops).1
            (sectionOperateAll io config after ops).2)).2.sections
              sec.id).data.read config.blockSize index =
        ((sectionOperateAll io config after ops).2.sections sec.id).data.read config.blockSize index

/-- A plan file from which no plan is read. -/
def Unusable (plan : Option Bytes) : Prop :=
  ∀ bytes, plan = some bytes → ∀ total, planParse total bytes = none

theorem recover_unusable (sec : Section) (disk : Disk)
    (unusable : Unusable (disk.sections sec.id).plan) :
    (sectionDefragPlanRecover io config sec disk).2.sections = disk.sections := by
  unfold sectionDefragPlanRecover
  cases found : (disk.sections sec.id).plan with
  | none => rfl
  | some bytes =>
    simp only [unusable bytes found]
    split <;> rfl

theorem sectionCreate_unusable (unusable : Unusable (disk.sections id).plan) (size : Nat) :
    (sectionCreate io config size id disk).2.sections = disk.sections := by
  unfold sectionCreate
  split
  · exact recover_unusable (newSection id (freeMapInit size)) disk unusable
  · split
    · split
      · rfl
      · rename_i freeMap _
        exact recover_unusable (newSection id freeMap) (disk.tick 1) unusable
    · rfl

variable (io) in
theorem sectionDestroy_keeps (sec : Section) (disk : Disk) :
    ((sectionDestroy io sec disk).sections sec.id).plan = (disk.sections sec.id).plan ∧
      ((sectionDestroy io sec disk).sections sec.id).data = (disk.sections sec.id).data := by
  unfold sectionDestroy
  split
  · simp [sectionSaveMeta]
  · exact ⟨rfl, rfl⟩

theorem unusable_of_unplanned (small : sec.freeMap.totalBlocks < 2 ^ 32)
    (fresh : (disk.sections sec.id).plan = none)
    (unplanned : (io .writePlan disk.time).succeeds = false) :
    Unusable ((io .writePlan disk.time).replace (disk.sections sec.id).plan
        (planSerialize sec.freeMap.totalBlocks (freeMapDefragment sec.freeMap).1)) := by
  have length : (freeMapDefragment sec.freeMap).1.relocation.length = sec.freeMap.totalBlocks := by
    rw [freeMapDefragment_eq]
    exact length_relocation
  intro bytes found total
  cases outcome : io .writePlan disk.time with
  | complete =>
    rw [outcome] at unplanned
    cases unplanned
  | failed written =>
    rw [outcome, fresh] at found
    cases written with
    | none => cases found
    | some count =>
      cases found
      exact planParse_partOf small length _ total

/-- A plan that has been left behind is carried out at the next creation. -/
theorem leftover_plan_truncates (positive : 0 < config.blockSize) (sec : Section) (disk : Disk)
    (wellFormed : sec.freeMap.WellFormed) (small : sec.freeMap.totalBlocks < 2 ^ 32)
    (gappy : Gappy sec.freeMap) (stored : Stored config.blockSize sec.freeMap data)
    (longer : data.size ≤ (disk.sections sec.id).data.size) (plan : (disk.sections sec.id).plan =
      some (planSerialize sec.freeMap.totalBlocks (freeMapDefragment sec.freeMap).1))
    (saved : Saved sec (disk.sections sec.id)) (size : Nat) :
    ((sectionCreate reliableIo config size sec.id (sectionDestroy reliableIo sec disk)).2.sections
          sec.id).data.read config.blockSize (freeMapHighestUsed sec.freeMap) = none := by
  have reliable : Reliable reliableIo := fun _ _ _ => rfl
  have kept := sectionDestroy_keeps reliableIo sec disk
  have metadata : ((sectionDestroy reliableIo sec disk).sections sec.id).metadata =
      some (freeMapSerialize sec.freeMap) := by
    unfold sectionDestroy
    split
    · simp [sectionSaveMeta, reliable .saveMeta disk.time rfl, FileWrite.replace]
    · rename_i clean
      exact saved (Bool.eq_false_iff.mpr clean)
  have loads :
      (reliableIo .loadMeta (sectionDestroy reliableIo sec disk).time).succeeds = true := by
    rw [reliable .loadMeta _ rfl]
    rfl
  simp only [sectionCreate, metadata, loads, freeMapDeserialize_freeMapSerialize wellFormed small]
  have rolled := recover_planned reliable positive small gappy (newSection sec.id sec.freeMap)
    ((sectionDestroy reliableIo sec disk).tick 1) rfl (kept.1.trans plan) stored (by
      change data.size ≤ ((sectionDestroy reliableIo sec disk).sections sec.id).data.size
      rw [kept.2]
      exact longer)
  have cut := rolled.data
  change ((sectionDefragPlanRecover reliableIo config (newSection sec.id sec.freeMap)
    ((sectionDestroy reliableIo sec disk).tick 1)).2.sections
      (newSection sec.id sec.freeMap).id).data.read _ _ = _
  rw [cut]
  exact if_neg fun covers => Nat.not_lt_of_le covers
    (Nat.mul_lt_mul_of_pos_right (Nat.lt_succ_of_le gappy.beyond) positive)

section
variable (wellFormed : sec.freeMap.WellFormed) (small : sec.freeMap.totalBlocks < 2 ^ 32)
  (size : Nat) (spec : DefragmentFailed io sec disk after)
include wellFormed small spec

/-- Behind the plan file a failure is not atomic. -/
theorem not_atomic_of_planned (positive : 0 < config.blockSize)
    (stored : Stored config.blockSize sec.freeMap (disk.sections sec.id).data)
    (saved : Saved sec (disk.sections sec.id)) (plans : (io .writePlan disk.time).succeeds = true) :
    ¬ Atomic config size sec disk after := by
  intro atomic
  have gappy := gappy_of_not_compact wellFormed spec.gaps
  rcases spec.planned plans with ⟨plan, longer⟩
  have covers := le_trans (stored _ gappy.highest) longer
  have unchanged := atomic.inert reliableIo [] (freeMapHighestUsed sec.freeMap)
    (by rw [show sectionOperateAll reliableIo config after [] = after
      from rfl, spec.freeMap]; exact gappy.highest)
  have saved' : Saved after.1 (after.2.sections after.1.id) := by
    intro clean
    rw [spec.dirty] at clean
    rw [spec.id, spec.freeMap, spec.metadata]
    exact saved clean
  have gone := leftover_plan_truncates positive after.1 after.2
    (by rwa [spec.freeMap]) (by rwa [spec.freeMap]) (by rwa [spec.freeMap]) (by rwa [spec.freeMap])
    (by rwa [spec.id]) (by rw [spec.id, spec.freeMap]; exact plan) saved' size
  rw [spec.id, spec.freeMap] at gone
  have lost := gone.symm.trans unchanged
  rw [show sectionOperateAll reliableIo config after [] = after from rfl,
    SlotFile.read_of_covers covers] at lost
  cases lost

/-- A failure at the plan file is atomic. -/
theorem atomic_of_unplanned (fresh : (disk.sections sec.id).plan = none)
    (unplanned : (io .writePlan disk.time).succeeds = false) :
    Atomic config size sec disk after := by
  rcases spec.unplanned unplanned with ⟨data, plan⟩
  have unusable := unusable_of_unplanned small fresh unplanned
  rw [← plan] at unusable
  refine ⟨fun index _ => by rw [data], ?_⟩
  intro io' ops index _
  have keeps := sectionOperateAll_keepsPlan io' config (by rw [spec.freeMap]; exact wellFormed) ops
  have id := keeps.id.trans spec.id
  have still := keeps.plan
  rw [spec.id] at still
  have destroyed := sectionDestroy_keeps io' (sectionOperateAll io' config after ops).1
    (sectionOperateAll io' config after ops).2
  rw [id] at destroyed
  rw [sectionCreate_unusable (by rw [destroyed.1, still]; exact unusable), destroyed.2]

end

end

/-- Every operation of one kind fails, and all others succeed. -/
def failingIo (failing : IoCall) : Io := fun call _ =>
  if call = failing then .failed none else .complete

end Liboffs.BlockCache

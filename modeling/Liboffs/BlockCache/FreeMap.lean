import Liboffs.Library.ByteOrder
import Liboffs.Library.Compaction
import Liboffs.Library.WordSet

/-!
# The map of the free slots of a section

A set bit stands for a free slot.  The bits behind the last slot are never
set, so that they are never allocated.
-/

namespace Liboffs.BlockCache

open Library.ByteOrder Library.Compaction Library List WordSet Bool

/-- `free_map_t`; the capacity is the number of words. -/
structure FreeMap where
  words : List (BitVec 32)
  totalBlocks : Nat
deriving DecidableEq

open FreeMap

/-- The number of words for a number of slots. -/
def mapCapacity (totalBlocks : Nat) : Nat :=
  (totalBlocks + 31) / 32

/-- A map with the free slots of a list, and all others occupied. -/
def freeMapOf (totalBlocks : Nat) (free : List Nat) : FreeMap where
  words := WordSet.insertAll (List.replicate (mapCapacity totalBlocks) 0#32) free
  totalBlocks := totalBlocks

/-- `free_map_init`. -/
def freeMapInit (totalBlocks : Nat) : FreeMap :=
  freeMapOf totalBlocks (List.range totalBlocks)

/-- A map with a number of occupied slots at the front. -/
def freeMapCompact (totalBlocks newCount : Nat) : FreeMap :=
  freeMapOf totalBlocks (List.range' newCount (totalBlocks - newCount))

/-- `free_map_alloc`. -/
def freeMapAlloc (map : FreeMap) : Option (Nat × FreeMap) :=
  (WordSet.first map.words).map fun index =>
    (index, { map with words := WordSet.remove map.words index })

/-- `free_map_dealloc`; there is no map if the slot is not allocated. -/
def freeMapDealloc (map : FreeMap) (index : Nat) : Option FreeMap :=
  if map.totalBlocks ≤ index then
    none
  else if WordSet.mem map.words index then
    none
  else
    some { map with words := WordSet.insert map.words index }

/-- `free_map_is_full`. -/
def freeMapIsFull (map : FreeMap) : Bool :=
  map.words.all (· == 0#32)

/-- `free_map_count_free`. -/
def freeMapCountFree (map : FreeMap) : Nat :=
  WordSet.count map.words

/-- The bits of a word that stand for slots. -/
def validMask (map : FreeMap) (word : Nat) : BitVec 32 :=
  if word + 1 = map.words.length ∧ map.totalBlocks % 32 ≠ 0 then
    (1#32 <<< (map.totalBlocks % 32)) - 1#32
  else
    BitVec.allOnes 32

/-- The loop of `free_map_highest_used` over the words below one. -/
def highestUsedBelow (map : FreeMap) : Nat → Nat
  | 0 => map.totalBlocks
  | word + 1 =>
    match WordSet.highest (~~~(map.words.getD word 0#32) &&& validMask map word) with
    | some bit => word * 32 + bit
    | none => highestUsedBelow map word

/-- `free_map_highest_used`. -/
def freeMapHighestUsed (map : FreeMap) : Nat :=
  highestUsedBelow map map.words.length

/-- A slot is occupied. -/
def FreeMap.occupied (map : FreeMap) (index : Nat) : Bool :=
  decide (index < map.totalBlocks) && !WordSet.mem map.words index

/-- `free_map_defrag_result_t`; free slots have no new place. -/
structure FreeMapDefragResult where
  relocation : List (Option Nat)
  newCount : Nat

/-- The loop of `free_map_defragment`: new places for the slots of a list. -/
def relocateSlots (map : FreeMap) : List Nat → Nat → List (Option Nat) × Nat
  | [], writePos => ([], writePos)
  | index :: rest, writePos =>
    if WordSet.mem map.words index then
      let later := relocateSlots map rest writePos
      (none :: later.1, later.2)
    else
      let later := relocateSlots map rest (writePos + 1)
      (some writePos :: later.1, later.2)

/-- `free_map_defragment`. -/
def freeMapDefragment (map : FreeMap) : FreeMapDefragResult × FreeMap :=
  let slots := relocateSlots map (List.range map.totalBlocks) 0
  ({ relocation := slots.1, newCount := slots.2 }, freeMapCompact map.totalBlocks slots.2)

/-- `free_map_serialize`. -/
def freeMapSerialize (map : FreeMap) : Bytes :=
  littleEndian 4 map.totalBlocks ++ littleEndianAll 4 (map.words.map BitVec.toNat)

/-- `free_map_deserialize`. -/
def freeMapDeserialize (bytes : Bytes) : Option FreeMap :=
  if bytes.length < 4 then
    none
  else
    let totalBlocks := ofLittleEndian (bytes.take 4)
    if bytes.length < 4 + mapCapacity totalBlocks * 4 then
      none
    else
      some
        { words :=
            (ofLittleEndianAll 4 (mapCapacity totalBlocks) (bytes.drop 4)).map (BitVec.ofNat 32)
          totalBlocks := totalBlocks }

variable {index totalBlocks : Nat} {map : FreeMap}

namespace FreeMap

/-- The words have the right number, and no bit is set behind the slots. -/
structure WellFormed (map : FreeMap) : Prop where
  capacity : map.words.length = mapCapacity map.totalBlocks
  padding : ∀ index, map.totalBlocks ≤ index → WordSet.mem map.words index = false

theorem occupied_eq_true :
    map.occupied index = true ↔ index < map.totalBlocks ∧ WordSet.mem map.words index = false := by
  simp [occupied]

end FreeMap

theorem le_mapCapacity (totalBlocks : Nat) : totalBlocks ≤ mapCapacity totalBlocks * 32 := by
  unfold mapCapacity
  omega

section
variable {free : List Nat} (inside : ∀ index ∈ free, index < totalBlocks)
include inside

theorem mem_freeMapOf (index : Nat) :
    WordSet.mem (freeMapOf totalBlocks free).words index = decide (index ∈ free) := by
  have room : ∀ index ∈ free, index < (List.replicate (mapCapacity totalBlocks) 0#32).length *
        32 := by
    intro index member
    rw [length_replicate]
    exact lt_of_lt_of_le (inside index member) (le_mapCapacity totalBlocks)
  rw [freeMapOf, mem_insertAll (by decide) _ room, mem_replicate_zero, Bool.false_or]

theorem wellFormed_freeMapOf : (freeMapOf totalBlocks free).WellFormed where
  capacity := by simp [freeMapOf]
  padding := by
    intro index beyond
    rw [mem_freeMapOf inside]
    refine decide_eq_false fun member => ?_
    exact Nat.not_lt_of_le beyond (inside index member)

end

theorem wellFormed_freeMapInit : (freeMapInit totalBlocks).WellFormed :=
  wellFormed_freeMapOf fun _ member => mem_range.mp member

theorem occupied_freeMapInit : (freeMapInit totalBlocks).occupied index = false := by
  have free := mem_freeMapOf (fun index (member : index ∈ List.range totalBlocks) =>
      mem_range.mp member) index
  change (decide (index < totalBlocks) &&
    !WordSet.mem (freeMapOf totalBlocks _).words index) = false
  rw [free]
  simp

theorem mem_compact_free :
    index ∈ List.range' newCount (totalBlocks - newCount) ↔
      newCount ≤ index ∧ index < totalBlocks := by
  rw [mem_range'_1]
  omega

theorem occupied_freeMapCompact (few : newCount ≤ totalBlocks) :
    (freeMapCompact totalBlocks newCount).occupied index = decide (index < newCount) := by
  have free := mem_freeMapOf (fun index (member :
        index ∈ List.range' newCount (totalBlocks - newCount)) =>
      (mem_compact_free.mp member).2) index
  change (decide (index < totalBlocks) && !WordSet.mem (freeMapOf totalBlocks _).words index) = _
  rw [free, Bool.eq_iff_iff]
  simp only [mem_compact_free, Bool.and_eq_true, decide_eq_true_eq,
    Bool.not_eq_true', decide_eq_false_iff_not]
  omega

section
variable {map : FreeMap}

structure Allocated (map : FreeMap) (index : Nat) (after : FreeMap) : Prop where
  inside : index < map.totalBlocks
  free : map.occupied index = false
  wellFormed : after.WellFormed
  totalBlocks : after.totalBlocks = map.totalBlocks
  occupied : ∀ other, after.occupied other = (map.occupied other || decide (other = index))
  undo : freeMapDealloc after index = some map

theorem freeMapAlloc_spec (wellFormed : map.WellFormed) {after : FreeMap}
    (allocated : freeMapAlloc map = some (index, after)) : Allocated map index after := by
  rcases Option.map_eq_some_iff.mp allocated with ⟨found, first, equal⟩
  obtain ⟨rfl, rfl⟩ := Prod.mk.inj equal
  rcases first_eq_some (by decide) first with ⟨set, _⟩
  have inside : found < map.totalBlocks := by
    refine Nat.lt_of_not_le fun beyond => ?_
    rw [wellFormed.padding found beyond] at set
    cases set
  have members := mem_remove (by decide) map.words found
  refine ⟨inside, ?_, ⟨?_, ?_⟩, rfl, ?_, ?_⟩
  · simp [occupied, set]
  · rw [length_remove]
    exact wellFormed.capacity
  · intro other beyond
    rw [members, wellFormed.padding other beyond, Bool.false_and]
  · intro other
    simp only [occupied, members]
    by_cases same : other = found
    · simp [same, inside]
    · simp [same]
  · have cleared : mem (remove map.words found) found = false := by
      rw [members]
      simp
    simp only [freeMapDealloc, cleared, if_neg (Nat.not_le_of_lt inside),
      insert_remove (by decide) set]
    rfl

theorem freeMapDealloc_spec (wellFormed : map.WellFormed) {after : FreeMap}
    (released : freeMapDealloc map index = some after) :
    map.occupied index = true ∧ after.WellFormed ∧ after.totalBlocks = map.totalBlocks ∧
      ∀ other, after.occupied other = (map.occupied other && !decide (other = index)) := by
  unfold freeMapDealloc at released
  split at released
  · cases released
  · rename_i inside
    split at released
    · cases released
    · rename_i taken
      cases released
      have below := Nat.lt_of_not_le inside
      have room : index < map.words.length * 32 := by
        rw [wellFormed.capacity]
        exact lt_of_lt_of_le below (le_mapCapacity _)
      have members := mem_insert (by decide) map.words room
      refine ⟨?_, ⟨?_, ?_⟩, rfl, ?_⟩
      · exact occupied_eq_true.mpr ⟨below, eq_false_iff.mpr taken⟩
      · rw [length_insert]
        exact wellFormed.capacity
      · intro other beyond
        have different : other ≠ index := by
          rintro rfl
          exact inside beyond
        rw [members, wellFormed.padding other beyond]
        simp [different]
      · intro other
        simp only [occupied, members]
        by_cases same : other = index
        · simp [same]
        · simp [same]

end

section

theorem freeMapCountFree_eq (wellFormed : map.WellFormed) :
    freeMapCountFree map + rank map.occupied map.totalBlocks = map.totalBlocks := by
  have room := le_mapCapacity map.totalBlocks
  rw [← wellFormed.capacity] at room
  rcases Nat.exists_eq_add_of_le room with ⟨extra, split⟩
  have padding : (List.range extra).countP
      (mem map.words ∘ fun index => map.totalBlocks + index) = 0 := by
    refine countP_eq_zero.mpr fun index _ => ?_
    rw [Function.comp, wellFormed.padding _ (Nat.le_add_right _ _)]
    exact false_ne_true
  have used : rank map.occupied map.totalBlocks = (List.range map.totalBlocks).countP
        fun index => !WordSet.mem map.words index := by
    refine countP_congr fun index member => ?_
    simp [occupied, mem_range.mp member]
  rw [freeMapCountFree, count_eq (by decide), split,
    range_add, countP_append, countP_map, padding, add_zero, used]
  have both := length_eq_countP_add_countP (mem map.words) (l := List.range map.totalBlocks)
  simpa using both.symm

theorem getLsbD_lowMask :
    ∀ size < 32, ∀ bit < 32, ((1#32 <<< size) - 1#32).getLsbD bit = decide (bit < size) := by
  decide

/-- The bits of an inverted word that stand for occupied slots. -/
theorem getLsbD_used (wellFormed : map.WellFormed) (inside : word < map.words.length)
    (low : bit < 32) :
    (~~~(map.words.getD word 0#32) &&& validMask map word).getLsbD bit =
      map.occupied (word * 32 + bit) := by
  have quotient : (word * 32 + bit) / 32 = word := by omega
  have remainder : (word * 32 + bit) % 32 = bit := by omega
  have mask : (validMask map word).getLsbD bit = decide (word * 32 + bit < map.totalBlocks) := by
    have capacity := wellFormed.capacity
    unfold mapCapacity at capacity
    unfold validMask
    split
    · rename_i last
      rw [getLsbD_lowMask _ (Nat.mod_lt _ (by decide)) _ low, decide_eq_decide]
      omega
    · rename_i whole
      rw [BitVec.getLsbD_allOnes, decide_eq_decide]
      omega
  rw [BitVec.getLsbD_and, BitVec.getLsbD_not, mask, occupied,
    mem, quotient, remainder, decide_eq_true low, Bool.true_and, Bool.and_comm]

theorem highestUsedBelow_spec (wellFormed : map.WellFormed) (inside : bound ≤ map.words.length)
    (below : index < bound * 32) (here : map.occupied index = true) :
    map.occupied (highestUsedBelow map bound) = true ∧ index ≤ highestUsedBelow map bound := by
  induction bound with
  | zero => simp at below
  | succ word ih =>
    rw [highestUsedBelow]
    cases found : highest (~~~(map.words.getD word 0#32) &&& validMask map word) with
    | some bit =>
      rcases highestBelow_eq_some found with ⟨low, set, clear⟩
      rw [getLsbD_used wellFormed inside low] at set
      refine ⟨set, Nat.le_of_not_lt fun above => ?_⟩
      have rest : index = word * 32 + (index - word * 32) := by
        simp only at above
        omega
      simp only at above
      have none := clear (index - word * 32) (by omega) (by omega)
      rw [getLsbD_used wellFormed inside (by omega), ← rest, here] at none
      cases none
    | none =>
      have lower : index < word * 32 := by
        refine Nat.lt_of_not_le fun above => ?_
        have none := highestBelow_eq_none found (index - word * 32) (by omega)
        rw [getLsbD_used wellFormed inside (by omega), Nat.add_sub_cancel' above, here] at none
        cases none
      exact ih (Nat.le_of_succ_le inside) lower

end

theorem relocateSlots_eq (map : FreeMap) (length start : Nat)
    (inside : start + length ≤ map.totalBlocks) :
    relocateSlots map (List.range' start length) (rank map.occupied start) =
      ((List.range' start length).map fun index =>
        if map.occupied index then some (rank map.occupied index)
        else none, rank map.occupied (start + length)) := by
  induction length generalizing start with
  | zero => rfl
  | succ length ih =>
    have step := rank_succ map.occupied start
    have later := ih (start + 1) (by omega)
    have head : map.occupied start = !WordSet.mem map.words start := by
      rw [occupied, decide_eq_true (by omega), Bool.true_and]
    rw [range'_succ, relocateSlots, map_cons,
      show start + (length + 1) = start + 1 + length by omega, head]
    cases free : mem map.words start with
    | true =>
      rw [head, free] at step
      rw [step] at later
      simp only [if_true, Bool.not_true, reduceCtorEq, if_false, add_zero] at later ⊢
      rw [later]
    | false =>
      rw [head, free] at step
      rw [step] at later
      simp only [if_true, Bool.not_false, reduceCtorEq, if_false] at later ⊢
      rw [later]

/-- A defragmentation sends every occupied slot to its rank. -/
theorem freeMapDefragment_eq (map : FreeMap) :
    freeMapDefragment map =
      ({ relocation := relocation map.occupied map.totalBlocks
         newCount := rank map.occupied map.totalBlocks },
        freeMapCompact map.totalBlocks (rank map.occupied map.totalBlocks)) := by
  have slots := relocateSlots_eq map map.totalBlocks 0 (by omega)
  rw [rank_zero, zero_add] at slots
  simp only [freeMapDefragment, range_eq_range', slots, relocation]

theorem freeMapDeserialize_freeMapSerialize (wellFormed : map.WellFormed)
    (small : map.totalBlocks < 2 ^ 32) : freeMapDeserialize (freeMapSerialize map) = some map := by
  have total : ofLittleEndian ((freeMapSerialize map).take 4) = map.totalBlocks := by
    rw [freeMapSerialize, take_left' (length_littleEndian _ _), ofLittleEndian_of_lt small]
  have size : (freeMapSerialize map).length = 4 + mapCapacity map.totalBlocks * 4 := by
    simp [freeMapSerialize, wellFormed.capacity, mul_comm]
  have words : (ofLittleEndianAll 4 (mapCapacity map.totalBlocks)
      ((freeMapSerialize map).drop 4)).map (BitVec.ofNat 32) = map.words := by
    have fit : ∀ number ∈ map.words.map BitVec.toNat, number < 256 ^ 4 := by
      intro number member
      rcases mem_map.mp member with ⟨word, _, rfl⟩
      exact word.isLt
    have decoded := ofLittleEndianAll_littleEndianAll fit
    rw [length_map, wellFormed.capacity] at decoded
    rw [freeMapSerialize, drop_left' (length_littleEndian _ _), decoded, map_map]
    simp [Function.comp_def]
  rw [freeMapDeserialize, size, if_neg (by omega)]
  simp [total, words]

end Liboffs.BlockCache

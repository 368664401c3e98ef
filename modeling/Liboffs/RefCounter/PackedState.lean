import Mathlib.Tactic.Ring

/-!
# The packed state of a reference counter

A reference counter is one word of 32 bits: sixteen bits count the references,
eight bits count the hand-overs that no receiver has taken yet, and eight bits
count the releases that arrived during a hand-over.  Every operation reads the
word, computes a new one, and tries to exchange the two.
-/

namespace Liboffs.RefCounter

/-- `refcounter_pack`. -/
def refcounterPack (count : UInt16) (yield pending : UInt8) : UInt32 :=
  count.toUInt32 ||| (yield.toUInt32 <<< 16) ||| (pending.toUInt32 <<< 24)

/-- `refcounter_packed_count`. -/
def refcounterPackedCount (state : UInt32) : UInt16 :=
  (state &&& 0xFFFF).toUInt16

/-- `refcounter_packed_yield`. -/
def refcounterPackedYield (state : UInt32) : UInt8 :=
  ((state >>> 16) &&& 0xFF).toUInt8

/-- `refcounter_packed_pending`. -/
def refcounterPackedPending (state : UInt32) : UInt8 :=
  ((state >>> 24) &&& 0xFF).toUInt8

/-- `refcounter_init`. -/
def refcounterInit : UInt32 :=
  refcounterPack 1 0 0

/-- The word that `refcounter_yield` tries to store, unless the counter is full. -/
def refcounterYield (state : UInt32) : Option UInt32 :=
  let yield := refcounterPackedYield state
  if yield = 0xFF then
    none
  else
    some (refcounterPack (refcounterPackedCount state) (yield + 1) (refcounterPackedPending state))

/-- The word that `refcounter_reference` tries to store. -/
def refcounterReference (state : UInt32) : UInt32 :=
  let count := refcounterPackedCount state
  let yield := refcounterPackedYield state
  let pending := refcounterPackedPending state
  if 0 < yield then
    if 0 < pending then
      refcounterPack (count - 1) (yield - 1) (pending - 1)
    else
      refcounterPack count (yield - 1) pending
  else if count < 0xFFFF then
    refcounterPack (count + 1) yield pending
  else
    state

/--
The word that `refcounter_dereference_is_zero` tries to store and its result, if there is room.
-/
def refcounterDereferenceIsZero (state : UInt32) : Option (UInt32 × Bool) :=
  let count := refcounterPackedCount state
  let yield := refcounterPackedYield state
  let pending := refcounterPackedPending state
  if 0 < yield then
    if pending = 0xFF then
      none
    else
      some (refcounterPack count yield (pending + 1), false)
  else if 0 < count then
    some (refcounterPack (count - 1) yield pending, decide (count = 1) && decide (pending = 0))
  else
    some (state, decide (pending = 0))

section
variable (count : UInt16) (yield pending : UInt8)
include count yield pending

/-- The fields of a packed word do not overlap. -/
theorem toNat_refcounterPack :
    (refcounterPack count yield pending).toNat =
      count.toNat + yield.toNat * 2 ^ 16 + pending.toNat * 2 ^ 24 := by
  have countBound := count.toNat_lt
  have yieldBound := yield.toNat_lt
  have pendingBound := pending.toNat_lt
  have yieldFits : (yield.toNat <<< 16) % 2 ^ 32 = yield.toNat <<< 16 := by
    rw [Nat.shiftLeft_eq]
    apply Nat.mod_eq_of_lt
    omega
  have pendingFits : (pending.toNat <<< 24) % 2 ^ 32 = pending.toNat <<< 24 := by
    rw [Nat.shiftLeft_eq]
    apply Nat.mod_eq_of_lt
    omega
  have low : count.toNat ||| yield.toNat <<< 16 = yield.toNat <<< 16 + count.toNat := by
    rw [Nat.or_comm, Nat.shiftLeft_add_eq_or_of_lt countBound]
  simp only [refcounterPack, UInt32.toNat_or, UInt32.toNat_shiftLeft, UInt16.toNat_toUInt32,
    UInt8.toNat_toUInt32, UInt32.reduceToNat, Nat.reduceMod, yieldFits, pendingFits, low]
  rw [Nat.or_comm, ← Nat.shiftLeft_add_eq_or_of_lt]
  · simp only [Nat.shiftLeft_eq]
    omega
  · simp only [Nat.shiftLeft_eq]
    omega

@[simp]
theorem refcounterPackedCount_pack :
    refcounterPackedCount (refcounterPack count yield pending) = count := by
  have countBound := count.toNat_lt
  have mask : (0xFFFF : UInt32).toNat = 2 ^ 16 - 1 := rfl
  apply UInt16.toNat_inj.mp
  rw [refcounterPackedCount, UInt32.toNat_toUInt16, UInt32.toNat_and,
    toNat_refcounterPack, mask, Nat.and_two_pow_sub_one_eq_mod]
  omega

@[simp]
theorem refcounterPackedYield_pack :
    refcounterPackedYield (refcounterPack count yield pending) = yield := by
  have countBound := count.toNat_lt
  have yieldBound := yield.toNat_lt
  have mask : (0xFF : UInt32).toNat = 2 ^ 8 - 1 := rfl
  have shift : (16 : UInt32).toNat % 32 = 16 := rfl
  apply UInt8.toNat_inj.mp
  rw [refcounterPackedYield, UInt32.toNat_toUInt8, UInt32.toNat_and, UInt32.toNat_shiftRight,
    toNat_refcounterPack, mask, shift, Nat.and_two_pow_sub_one_eq_mod, Nat.shiftRight_eq_div_pow]
  omega

@[simp]
theorem refcounterPackedPending_pack :
    refcounterPackedPending (refcounterPack count yield pending) = pending := by
  have countBound := count.toNat_lt
  have yieldBound := yield.toNat_lt
  have pendingBound := pending.toNat_lt
  have mask : (0xFF : UInt32).toNat = 2 ^ 8 - 1 := rfl
  have shift : (24 : UInt32).toNat % 32 = 24 := rfl
  apply UInt8.toNat_inj.mp
  rw [refcounterPackedPending, UInt32.toNat_toUInt8, UInt32.toNat_and, UInt32.toNat_shiftRight,
    toNat_refcounterPack, mask, shift, Nat.and_two_pow_sub_one_eq_mod, Nat.shiftRight_eq_div_pow]
  omega

end

/-- The word counts owners, hand-overs and releases during these, of which there are no more. -/
structure Counts (word : UInt32) (owners handOvers pending : Nat) : Prop where
  count : (refcounterPackedCount word).toNat = owners + handOvers + pending
  yield : (refcounterPackedYield word).toNat = handOvers
  parked : (refcounterPackedPending word).toNat = pending
  bounded : pending ≤ handOvers

theorem counts_refcounterInit : Counts refcounterInit 1 0 0 := by
  constructor <;> simp [refcounterInit]

/-- A word with the three fields. -/
theorem counts_refcounterPack (total : count.toNat = owners + handOvers + pending)
    (yields : yield.toNat = handOvers) (parks : parked.toNat = pending)
    (bounded : pending ≤ handOvers) :
    Counts (refcounterPack count yield parked) owners handOvers pending := by
  constructor
  · rw [refcounterPackedCount_pack, total]
  · rw [refcounterPackedYield_pack, yields]
  · rw [refcounterPackedPending_pack, parks]
  · exact bounded

/-- An owner hands its reference over. -/
theorem Counts.consume (counts : Counts word (owners + 1) handOvers pending)
    (room : handOvers < 255) :
    ∃ next, refcounterYield word = some next ∧ Counts next owners (handOvers + 1) pending := by
  have yields := counts.yield
  have notFull : refcounterPackedYield word ≠ 0xFF := by
    intro full
    rw [full] at yields
    simp at yields
    omega
  refine ⟨_, if_neg notFull, ?_⟩
  apply counts_refcounterPack
  · rw [counts.count]
    omega
  · rw [UInt8.toNat_add, yields]
    simp
    omega
  · exact counts.parked
  · exact Nat.le_succ_of_le counts.bounded

/-- A new owner references a counter without hand-overs. -/
theorem Counts.reference (counts : Counts word owners 0 pending) (room : owners + 1 < 2 ^ 16) :
    Counts (refcounterReference word) (owners + 1) 0 pending := by
  have none_ : pending = 0 := Nat.le_zero.mp counts.bounded
  subst none_
  have total := counts.count
  have noYield : ¬ 0 < refcounterPackedYield word := by
    rw [UInt8.lt_iff_toNat_lt, counts.yield]
    simp
  have notFull : refcounterPackedCount word < 0xFFFF := by
    rw [UInt16.lt_iff_toNat_lt, total]
    simp
    omega
  simp only [refcounterReference, if_neg noYield, if_pos notFull]
  apply counts_refcounterPack
  · rw [UInt16.toNat_add, total]
    simp
    omega
  · exact counts.yield
  · exact counts.parked
  · exact Nat.le_refl 0

/-- A receiver takes what was handed over; one parked release takes effect. -/
theorem Counts.receive (counts : Counts word owners (handOvers + 1) pending) :
    Counts (refcounterReference word) (owners + 1) handOvers (pending - 1) := by
  have total := counts.count
  have yields := counts.yield
  have parks := counts.parked
  have bounded := counts.bounded
  have someYield : 0 < refcounterPackedYield word := by
    rw [UInt8.lt_iff_toNat_lt, yields]
    simp
  have oneYield : (1 : UInt8) ≤ refcounterPackedYield word := by
    rw [UInt8.le_iff_toNat_le, yields]
    simp
  have fewer : (refcounterPackedYield word - 1).toNat = handOvers := by
    rw [UInt8.toNat_sub_of_le _ _ oneYield, yields]
    simp
  simp only [refcounterReference, if_pos someYield]
  cases pending with
  | zero =>
    have noPending : ¬ 0 < refcounterPackedPending word := by
      rw [UInt8.lt_iff_toNat_lt, parks]
      simp
    rw [if_neg noPending]
    apply counts_refcounterPack
    · rw [total]
      omega
    · exact fewer
    · exact parks
    · exact Nat.zero_le _
  | succ pending =>
    have somePending : 0 < refcounterPackedPending word := by
      rw [UInt8.lt_iff_toNat_lt, parks]
      simp
    have onePending : (1 : UInt8) ≤ refcounterPackedPending word := by
      rw [UInt8.le_iff_toNat_le, parks]
      simp
    have oneCount : (1 : UInt16) ≤ refcounterPackedCount word := by
      rw [UInt16.le_iff_toNat_le, total]
      simp
      omega
    rw [if_pos somePending]
    apply counts_refcounterPack
    · rw [UInt16.toNat_sub_of_le _ _ oneCount, total]
      simp
      omega
    · exact fewer
    · rw [UInt8.toNat_sub_of_le _ _ onePending, parks]
      simp
    · omega

/-- The release of an owner while a hand-over is outstanding is parked. -/
theorem Counts.park (counts : Counts word (owners + 1) handOvers pending)
    (room : pending < handOvers) (few : handOvers < 255) :
    ∃ next, refcounterDereferenceIsZero word = some (next, false) ∧
      Counts next owners handOvers (pending + 1) := by
  have parks := counts.parked
  have someYield : 0 < refcounterPackedYield word := by
    rw [UInt8.lt_iff_toNat_lt, counts.yield]
    simp
    omega
  have notFull : refcounterPackedPending word ≠ 0xFF := by
    intro full
    rw [full] at parks
    simp at parks
    omega
  refine ⟨refcounterPack (refcounterPackedCount word)
    (refcounterPackedYield word) (refcounterPackedPending word + 1), ?_, ?_⟩
  · simp only [refcounterDereferenceIsZero, if_pos someYield, if_neg notFull]
  · apply counts_refcounterPack
    · rw [counts.count]
      omega
    · exact counts.yield
    · rw [UInt8.toNat_add, parks]
      simp
      omega
    · exact room

/-- The release of an owner without hand-overs tells whether it was last. -/
theorem Counts.release (counts : Counts word (owners + 1) 0 pending) :
    ∃ next, refcounterDereferenceIsZero word = some (next, decide (owners = 0)) ∧
        Counts next owners 0 0 := by
  have none_ : pending = 0 := Nat.le_zero.mp counts.bounded
  subst none_
  have total := counts.count
  have noYield : ¬ 0 < refcounterPackedYield word := by
    rw [UInt8.lt_iff_toNat_lt, counts.yield]
    simp
  have someCount : 0 < refcounterPackedCount word := by
    rw [UInt16.lt_iff_toNat_lt, total]
    simp
  have oneCount : (1 : UInt16) ≤ refcounterPackedCount word := by
    rw [UInt16.le_iff_toNat_le, total]
    simp
  have last : refcounterPackedCount word = 1 ↔ owners = 0 := by
    rw [← UInt16.toNat_inj, total]
    simp
  have unparked : refcounterPackedPending word = 0 := by
    rw [← UInt8.toNat_inj, counts.parked]
    rfl
  refine ⟨refcounterPack (refcounterPackedCount word - 1)
    (refcounterPackedYield word) (refcounterPackedPending word), ?_, ?_⟩
  · simp [refcounterDereferenceIsZero, if_neg noYield, if_pos someCount, last, unparked]
  · apply counts_refcounterPack
    · rw [UInt16.toNat_sub_of_le _ _ oneCount, total]
      simp
    · exact counts.yield
    · exact counts.parked
    · exact Nat.le_refl 0

end Liboffs.RefCounter

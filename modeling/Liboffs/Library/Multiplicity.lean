import Mathlib.Data.List.Count

/-!
# Multiplicities of coordinates

A filter keeps, for every coordinate, how often it holds it.  Elements are
represented by lists of coordinates, and different elements may share some.
To enter an element, each of its coordinates that is missing is added once;
to withdraw it, each of its coordinates is taken away once.

The rules say which elements stay covered: entering loses nothing, and
withdrawing loses exactly the coordinates of which no copy is left over.
-/

namespace Liboffs.Library.Multiplicity

universe u

variable {Coordinate : Type u}

/-- Every wanted coordinate is held. -/
def Covers (copies : Coordinate → Nat) (wanted : List Coordinate) : Prop :=
  ∀ coordinate ∈ wanted, 0 < copies coordinate

variable [DecidableEq Coordinate]

/-- One copy of a missing coordinate is added. -/
def enter (copies : Coordinate → Nat) (entering : Coordinate) : Coordinate → Nat :=
  fun coordinate =>
    if coordinate = entering then max 1 (copies coordinate)
    else copies coordinate

/-- The coordinates of an element are entered one after the other. -/
def enterAll (copies : Coordinate → Nat) (entering : List Coordinate) : Coordinate → Nat :=
  entering.foldl enter copies

/-- One copy of a coordinate is taken away. -/
def withdraw (copies : Coordinate → Nat) (leaving : Coordinate) : Coordinate → Nat :=
  fun coordinate =>
    if coordinate = leaving then copies coordinate - 1
    else copies coordinate

/-- The coordinates of an element are taken away one after the other. -/
def withdrawAll (copies : Coordinate → Nat) (leaving : List Coordinate) : Coordinate → Nat :=
  leaving.foldl withdraw copies

theorem enter_pos_iff {entering : Coordinate} :
    0 < enter copies entering coordinate ↔ coordinate = entering ∨ 0 < copies coordinate := by
  by_cases same : coordinate = entering
  · rw [enter, if_pos same]
    simp only [same, true_or, iff_true]
    omega
  · rw [enter, if_neg same]
    simp [same]

theorem enterAll_pos_iff {entering : List Coordinate} :
    0 < enterAll copies entering coordinate ↔ coordinate ∈ entering ∨ 0 < copies coordinate := by
  induction entering generalizing copies with
  | nil => simp [enterAll]
  | cons first rest ih =>
    change 0 < enterAll (enter copies first) rest coordinate ↔ _
    rw [ih, enter_pos_iff, List.mem_cons]
    tauto

/-- To enter an element loses no other. -/
theorem Covers.enterAll {wanted : List Coordinate} (covers : Covers copies wanted)
    (entering : List Coordinate) : Covers (enterAll copies entering) wanted :=
  fun coordinate member => enterAll_pos_iff.mpr (.inr (covers coordinate member))

theorem withdrawAll_eq (copies : Coordinate → Nat) (leaving : List Coordinate)
    (coordinate : Coordinate) :
    withdrawAll copies leaving coordinate = copies coordinate - leaving.count coordinate := by
  induction leaving generalizing copies with
  | nil => simp [withdrawAll]
  | cons first rest ih =>
    change withdrawAll (withdraw copies first) rest coordinate = _
    rw [ih, withdraw, List.count_cons]
    by_cases same : coordinate = first
    · rw [if_pos same, same, if_pos (beq_self_eq_true first)]
      omega
    · rw [if_neg same, if_neg (by simpa using Ne.symm same)]
      omega

/-- A coordinate stays exactly when it is held more often than it leaves. -/
theorem withdrawAll_pos_iff {leaving : List Coordinate} :
    0 < withdrawAll copies leaving coordinate ↔ leaving.count coordinate < copies coordinate := by
  rw [withdrawAll_eq]
  omega

end Liboffs.Library.Multiplicity

import Mathlib.Data.List.Basic

/-!
# Compaction of an array

The occupied places of an array are moved to its front in order.  Each of
them goes to the number of occupied places before it, its rank.  The moves
are made one after the other from the front to the back, so that no place is
overwritten before it has been read.

A second run of the moves on an array in which some of them have been made
does not have this property: it reads places that the first run has
overwritten.
-/

namespace Liboffs.Library.Compaction

open List Function

section
variable (occupied : Nat → Bool)

/-- The number of occupied places before a place. -/
def rank (place : Nat) : Nat :=
  (List.range place).countP occupied

@[simp]
theorem rank_zero : rank occupied 0 = 0 := rfl

theorem rank_succ (place : Nat) :
    rank occupied (place + 1) = rank occupied place + if occupied place then 1 else 0 := by
  rw [rank, range_succ, countP_append, countP_singleton]
  rfl

theorem rank_le (place : Nat) : rank occupied place ≤ place := by
  have bound := countP_le_length (p := occupied) (l := List.range place)
  rwa [length_range] at bound

theorem rank_mono (order : first ≤ second) : rank occupied first ≤ rank occupied second := by
  induction order with
  | refl => exact Nat.le_refl _
  | step _ ih =>
    rw [rank_succ]
    exact Nat.le_trans ih (Nat.le_add_right _ _)

variable {occupied}

/-- Occupied places keep their order. -/
theorem rank_lt (here : occupied first = true) (order : first < second) :
    rank occupied first < rank occupied second := by
  have step := rank_succ occupied first
  rw [if_pos here] at step
  have later := rank_mono occupied (Nat.succ_le_of_lt order)
  rw [step] at later
  exact Nat.lt_of_succ_le later

theorem rank_injective (here : occupied first = true) (there : occupied second = true)
    (equal : rank occupied first = rank occupied second) : first = second := by
  rcases Nat.lt_trichotomy first second with less | same | less
  · exact absurd equal (Nat.ne_of_lt (rank_lt here less))
  · exact same
  · exact absurd equal.symm (Nat.ne_of_lt (rank_lt there less))

theorem exists_rank_eq (below : number < rank occupied bound) :
    ∃ place < bound, occupied place = true ∧ rank occupied place = number := by
  induction bound with
  | zero => simp at below
  | succ bound ih =>
    rw [rank_succ] at below
    by_cases earlier : number < rank occupied bound
    · rcases ih earlier with ⟨place, inside, found⟩
      exact ⟨place, Nat.lt_succ_of_lt inside, found⟩
    · by_cases here : occupied bound = true
      · rw [if_pos here] at below
        exact ⟨bound, Nat.lt_succ_self bound, here, by omega⟩
      · rw [if_neg here] at below
        exact absurd below earlier

theorem occupied_of_rank_eq (full : rank occupied bound = bound) (below : place < bound) :
    occupied place = true := by
  induction bound with
  | zero => cases below
  | succ bound ih =>
    have most := rank_le occupied bound
    rw [rank_succ] at full
    by_cases here : occupied bound = true
    · rw [if_pos here] at full
      rcases Nat.lt_succ_iff_lt_or_eq.mp below with earlier | rfl
      · exact ih (Nat.succ.inj full) earlier
      · exact here
    · rw [if_neg here] at full
      omega

theorem rank_of_free (order : first ≤ second)
    (free : ∀ place, first ≤ place → occupied place ≠ true) :
    rank occupied second = rank occupied first := by
  induction order with
  | refl => rfl
  | step order ih => rw [rank_succ, if_neg (free _ order), Nat.add_zero, ih]

/-- Occupied places that all lie below their number are the first ones. -/
theorem occupied_iff_lt_rank
    (within : ∀ place, occupied place = true → place < rank occupied bound) :
    occupied place = true ↔ place < rank occupied bound := by
  refine ⟨within place, occupied_of_rank_eq (rank_of_free (rank_le _ _) ?_).symm⟩
  intro other above here
  exact Nat.not_lt_of_le above (within other here)

end

/-- A move from a place to another one. -/
abbrev Move := Nat × Nat

variable {place : Nat}

section
variable {α : Type*}

/-- Make a move. -/
def move (array : Nat → α) (next : Move) : Nat → α :=
  Function.update array next.2 (array next.1)

/-- Make moves in order. -/
def moveAll (array : Nat → α) (moves : List Move) : Nat → α :=
  moves.foldl move array

/-- The moves go towards the front, and sources and targets ascend. -/
structure Ascending (moves : List Move) : Prop where
  sources : moves.Pairwise fun early late => early.1 < late.1
  targets : moves.Pairwise fun early late => early.2 < late.2
  forward : ∀ next ∈ moves, next.2 < next.1

theorem Ascending.tail (ascending : Ascending (first :: rest)) : Ascending rest :=
  ⟨(pairwise_cons.mp ascending.sources).2, (pairwise_cons.mp ascending.targets).2,
    fun next member => ascending.forward next (mem_cons_of_mem _ member)⟩

theorem Ascending.take (ascending : Ascending moves) (count : Nat) : Ascending (moves.take count) :=
  ⟨ascending.sources.sublist (take_sublist _ _),
    ascending.targets.sublist (take_sublist _ _), fun next member => ascending.forward next
      (mem_of_mem_take member)⟩

/-- A place that is no target keeps its content. -/
theorem moveAll_of_not_target (array : Nat → α) (spared : ∀ next ∈ moves, next.2 ≠ place) :
    moveAll array moves place = array place := by
  induction moves generalizing array with
  | nil => rfl
  | cons first rest ih =>
    refine (ih (move array first) fun next member =>
      spared next (mem_cons_of_mem _ member)).trans ?_
    exact update_of_ne (spared first mem_cons_self).symm _ _

/-- Every target receives what its source had at the beginning. -/
theorem moveAll_target (ascending : Ascending moves) (array : Nat → α) (member : new ∈ moves) :
    moveAll array moves new.2 = array new.1 := by
  induction moves generalizing array with
  | nil => cases member
  | cons first rest ih =>
    have later := pairwise_cons.mp ascending.targets
    rcases mem_cons.mp member with rfl | member
    · have spared : ∀ other ∈ rest, other.2 ≠ new.2 :=
        fun other inside => Nat.ne_of_gt (later.1 other inside)
      exact (moveAll_of_not_target (move array new) spared).trans (update_self _ _ _)
    · refine (ih ascending.tail (move array first) member).trans ?_
      have source := (pairwise_cons.mp ascending.sources).1 new member
      have target := ascending.forward first mem_cons_self
      exact update_of_ne (Nat.ne_of_gt (Nat.lt_trans target source)) _ _

/--
All moves after some of them give the result of one run exactly if those have not changed a
source.
-/
theorem moveAll_again_iff (ascending : Ascending moves) (array : Nat → α) (count : Nat) :
    (∀ next ∈ moves, moveAll (moveAll array (moves.take count)) moves next.2 = array next.1) ↔
      ∀ next ∈ moves, ∀ made ∈ moves.take count, made.2 = next.1 → array made.1 = array next.1 := by
  constructor
  · intro right next member made done same
    have result := right next member
    rw [moveAll_target ascending _ member, ← same,
      moveAll_target (ascending.take count) _ done] at result
    rw [result, same]
  · intro harmless next member
    rw [moveAll_target ascending _ member]
    by_cases overwritten : ∃ made ∈ moves.take count, made.2 = next.1
    · rcases overwritten with ⟨made, done, same⟩
      rw [← same, moveAll_target (ascending.take count) _ done]
      rw [harmless next member made done same, same]
    · exact moveAll_of_not_target _ fun made done same => overwritten ⟨made, done, same⟩

end

/-- Where each place goes; free places go nowhere. -/
def relocation (occupied : Nat → Bool) (total : Nat) : List (Option Nat) :=
  (List.range total).map fun place => if occupied place then some (rank occupied place) else none

/-- The moves that a relocation asks for. -/
def movesOf (relocation : List (Option Nat)) : List Move :=
  (List.range relocation.length).filterMap fun place =>
    match relocation.getD place none with
    | some target => if target ≠ place then some (place, target) else none
    | none => none

section

@[simp]
theorem length_relocation : (relocation occupied total).length = total := by
  simp [relocation]

theorem getD_relocation (inside : place < total) :
    (relocation occupied total).getD place none =
      if occupied place then some (rank occupied place) else none := by
  simp [relocation, inside]

theorem movesOf_relocation :
    movesOf (relocation occupied total) = ((List.range total).filter fun place =>
        occupied place && decide (rank occupied place ≠ place)).map
          fun place => (place, rank occupied place) := by
  rw [movesOf, length_relocation]
  have steps : ∀ places : List Nat, (∀ place ∈ places, place < total) →
      places.filterMap (fun place =>
        match (relocation occupied total).getD place none with
        | some target => if target ≠ place then some (place, target) else none
        | none => none) = (places.filter fun place =>
        occupied place && decide (rank occupied place ≠ place)).map
          fun place => (place, rank occupied place) := by
    intro places inside
    induction places with
    | nil => rfl
    | cons place rest ih =>
      have head := inside place mem_cons_self
      have tail := ih fun other member => inside other (mem_cons_of_mem _ member)
      rw [filterMap_cons, filter_cons, getD_relocation head, tail]
      by_cases here : occupied place = true
      · by_cases same : rank occupied place = place
        · simp [here, same]
        · simp [here, same]
      · simp [here]
  exact steps _ fun place member => mem_range.mp member

theorem mem_movesOf_relocation :
    new ∈ movesOf (relocation occupied total) ↔
      new.1 < total ∧ occupied new.1 = true ∧ new.2 = rank occupied new.1 ∧ new.2 ≠ new.1 := by
  rw [movesOf_relocation]
  simp only [mem_map, mem_filter, mem_range, Bool.and_eq_true, decide_eq_true_eq]
  constructor
  · rintro ⟨place, ⟨inside, here, moved⟩, rfl⟩
    exact ⟨inside, here, rfl, moved⟩
  · rintro ⟨inside, here, target, moved⟩
    refine ⟨new.1, ⟨inside, here, ?_⟩, ?_⟩
    · rwa [← target]
    · rw [← target]

theorem ascending_movesOf_relocation : Ascending (movesOf (relocation occupied total)) := by
  have order : ((List.range total).filter fun place =>
      occupied place && decide (rank occupied place ≠ place)).Pairwise (· < ·) :=
    pairwise_lt_range.sublist filter_sublist
  refine ⟨?_, ?_, ?_⟩
  · rw [movesOf_relocation]
    exact pairwise_map.mpr order
  · rw [movesOf_relocation]
    refine pairwise_map.mpr (order.imp_of_mem ?_)
    intro early late here _ less
    have occupied' := (mem_filter.mp here).2
    exact rank_lt (Bool.and_eq_true_iff.mp occupied').1 less
  · intro next member
    rcases mem_movesOf_relocation.mp member with ⟨_, _, target, moved⟩
    have bound := rank_le occupied next.1
    rw [← target] at bound
    exact Nat.lt_of_le_of_ne bound moved

theorem not_target_of_stays (here : occupied place = true) (stays : rank occupied place = place) :
    ∀ next ∈ movesOf (relocation occupied total), next.2 ≠ place := by
  intro next member target
  rcases mem_movesOf_relocation.mp member with ⟨_, occupied', rank', different⟩
  have same : rank occupied next.1 = rank occupied place := by rw [← rank', target, stays]
  exact different (by rw [target, rank_injective occupied' here same])

theorem mem_movesOf_of_moves (inside : place < total) (here : occupied place = true)
    (moves : rank occupied place ≠ place) :
    (place, rank occupied place) ∈ movesOf (relocation occupied total) :=
  mem_movesOf_relocation.mpr ⟨inside, here, rfl, moves⟩

theorem moveAll_relocation (inside : place < total) (here : occupied place = true) :
    moveAll array (movesOf (relocation occupied total)) (rank occupied place) = array place := by
  by_cases stays : rank occupied place = place
  · rw [stays]
    exact moveAll_of_not_target array (not_target_of_stays here stays)
  · exact moveAll_target ascending_movesOf_relocation array (mem_movesOf_of_moves inside here stays)

/--
A second run of a compaction is right exactly if the moves already made have not changed a source.
-/
theorem moveAll_again_relocation_iff (array : Nat → α) (count : Nat) :
    (∀ place < total, occupied place = true → moveAll (moveAll array
              ((movesOf (relocation occupied total)).take count))
            (movesOf (relocation occupied total)) (rank occupied place) =
          array place) ↔
      ∀ next ∈ movesOf (relocation occupied total),
        ∀ made ∈ (movesOf (relocation occupied total)).take count,
          made.2 = next.1 → array made.1 = array next.1 := by
  rw [← moveAll_again_iff ascending_movesOf_relocation]
  constructor
  · intro right next member
    rcases mem_movesOf_relocation.mp member with ⟨inside, here, target, _⟩
    rw [target]
    exact right next.1 inside here
  · intro right place inside here
    by_cases stays : rank occupied place = place
    · have spared : ∀ next ∈ movesOf (relocation occupied total),
          next.2 ≠ place := not_target_of_stays here stays
      rw [stays, moveAll_of_not_target _ spared]
      exact moveAll_of_not_target array fun next member => spared next (mem_of_mem_take member)
    · exact right _ (mem_movesOf_of_moves inside here stays)

end

end Liboffs.Library.Compaction

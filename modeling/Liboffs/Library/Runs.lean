import Mathlib.Data.List.Infix
import Mathlib.Tactic.Ring

/-!
# Runs of partial step functions

A component handles one message after the other, and a step has no result
where the component leaves its defined behaviour.  A property of states is
required of every state that a run reaches, and a property of steps of every
step that a run takes; where a step has no result, nothing is required of
what would follow.

The rules reduce statements about whole runs to statements about one step.
-/

namespace Liboffs.Library.Runs

open List Option

universe u v

variable {State : Type u} {Label : Type v} (step : State → Label → Option State)

/-- Every state that the run reaches has the property. -/
def Throughout (holds : State → Prop) : State → List Label → Prop
  | state, [] => holds state
  | state, label :: rest =>
    holds state ∧ ∀ next, step state label = some next → Throughout holds next rest

/-- Every step that the run takes has the property. -/
def EachStep (meets : State → Label → Prop) : State → List Label → Prop
  | _, [] => True
  | state, label :: rest =>
    ∀ next, step state label = some next → meets state label ∧ EachStep meets next rest

/-- Whether all steps have a decidable property is found by running. -/
instance decidableEachStep (meets : State → Label → Prop)
    [∀ state label, Decidable (meets state label)] :
    ∀ state labels, Decidable (EachStep step meets state labels)
  | _, [] => .isTrue trivial
  | state, label :: rest =>
    match reached : step state label with
    | none => .isTrue fun next stepped => by
        rw [reached] at stepped
        cases stepped
    | some next =>
      have := decidableEachStep meets next rest
      decidable_of_iff
        (meets state label ∧ EachStep step meets next rest) (by
          simp [EachStep, reached])

/-- Whether a computation gives a value with a decidable property. -/
instance decidableGives (computed : Option State) (holds : State → Prop) [DecidablePred holds] :
    Decidable (∃ value, computed = some value ∧ holds value) :=
  match computed with
  | none => .isFalse (by simp)
  | some value => decidable_of_iff (holds value) (by simp)

variable {step}
  {holds invariant : State → Prop} {labels : List Label} {meets : State → Label → Prop}
  {start final : State}

theorem Throughout.head (throughout : Throughout step holds state labels) : holds state := by
  cases labels with
  | nil => exact throughout
  | cons label rest => exact throughout.1

variable {gives : State → Label → Prop}

/-- Steps that meet a condition keep an invariant, which gives a property. -/
theorem EachStep.imp (keeps : ∀ state label next, invariant state → meets state label →
      step state label = some next → invariant next)
    (implies : ∀ state label next, invariant state → meets state label →
      step state label = some next → gives state label) (initial : invariant start)
    (each : EachStep step meets start labels) : EachStep step gives start labels := by
  induction labels generalizing start with
  | nil => trivial
  | cons label rest ih =>
    intro next stepped
    have met := each next stepped
    constructor
    · exact implies start label next initial met.1 stepped
    · exact ih (keeps start label next initial met.1 stepped) met.2

/-- A property that follows step by step. -/
theorem EachStep.mono (implies : ∀ state label next, meets state label →
      step state label = some next → gives state label) (each : EachStep step meets start labels) :
    EachStep step gives start labels :=
  each.imp (fun _ _ _ _ _ _ => True.intro)
    (fun state label next _ met stepped => implies state label next met stepped) trivial

/-- Steps that meet a condition keep an invariant, in every state reached. -/
theorem EachStep.throughout (keeps : ∀ state label next, invariant state → meets state label →
      step state label = some next → invariant next)
    (gives : ∀ state, invariant state → holds state) (initial : invariant start)
    (each : EachStep step meets start labels) : Throughout step holds start labels := by
  induction labels generalizing start with
  | nil => exact gives start initial
  | cons label rest ih =>
    constructor
    · exact gives start initial
    · intro next stepped
      have met := each next stepped
      exact ih (keeps start label next initial met.1 stepped) met.2

/-- No step is possible. -/
def Stuck (step : State → Label → Option State) (state : State) : Prop :=
  ∀ label, step state label = none

/-- Every run meets the condition that is always true. -/
theorem eachStep_true (step : State → Label → Option State) (labels : List Label) (start : State) :
    EachStep step (fun _ _ => True) start labels := by
  induction labels generalizing start with
  | nil => trivial
  | cons label rest ih => exact fun next _ => ⟨trivial, ih next⟩

section
variable (keeps : ∀ state label next, invariant state → step state label = some next → invariant
  next)
include keeps

/-- If a step leads to a good state exactly when it meets a condition, so do whole runs. -/
theorem throughout_iff_eachStep (exact_ : ∀ state label next, invariant state → holds state →
      step state label = some next → (holds next ↔ meets state label)) (labels : List Label)
    (initial : invariant start) (good : holds start) :
    Throughout step holds start labels ↔ EachStep step meets start labels := by
  induction labels generalizing start with
  | nil => simp [Throughout, EachStep, good]
  | cons label rest ih =>
    constructor
    · intro throughout next stepped
      have later := throughout.2 next stepped
      have kept := keeps start label next initial stepped
      constructor
      · exact (exact_ start label next initial good stepped).mp later.head
      · exact (ih kept later.head).mp later
    · intro each
      constructor
      · exact good
      · intro next stepped
        have met := each next stepped
        have kept := keeps start label next initial stepped
        apply (ih kept ?_).mpr met.2
        exact (exact_ start label next initial good stepped).mpr met.1

/-- What every step keeps gives a property of every state reached. -/
theorem throughout_of_keeps (gives : ∀ state, invariant state → holds state)
    (initial : invariant start) : Throughout step holds start labels :=
  (eachStep_true step labels start).throughout
    (fun state label next here _ stepped => keeps state label next here stepped) gives initial

end

/-- Steps that meet a condition keep an invariant, to the end of the run. -/
theorem EachStep.foldlM (keeps : ∀ state label next, invariant state → meets state label →
      step state label = some next → invariant next) (initial : invariant start)
    (each : EachStep step meets start labels) (reached : labels.foldlM step start = some final) :
    invariant final := by
  induction labels generalizing start with
  | nil =>
    cases reached
    exact initial
  | cons label rest ih =>
    obtain ⟨next, stepped, later⟩ := bind_eq_some_iff.mp reached
    have met := each next stepped
    exact ih (keeps start label next initial met.1 stepped) met.2 later

/-- Every step spends of a budget, to which some steps add. -/
theorem EachStep.spends (invariant : State → Nat → Prop) (gain : Label → Nat)
    (spends : ∀ state label next budget, invariant state budget →
      meets state label → step state label = some next →
      ∃ left, invariant next left ∧ left < budget + gain label) (initial : invariant start budget)
    (each : EachStep step meets start labels) (reached : labels.foldlM step start = some final) :
    ∃ left, invariant final left ∧ left + labels.length ≤ budget + (labels.map gain).sum := by
  induction labels generalizing start budget with
  | nil =>
    cases reached
    exact ⟨budget, initial, Nat.le_refl _⟩
  | cons label rest ih =>
    obtain ⟨next, stepped, later⟩ := bind_eq_some_iff.mp reached
    have met := each next stepped
    obtain ⟨between, kept, less⟩ := spends start label next budget initial met.1 stepped
    obtain ⟨left, holds, bounded⟩ := ih kept met.2 later
    refine ⟨left, holds, ?_⟩
    rw [length_cons, map_cons, sum_cons]
    omega

/-- If every step decreases a measure, the measure bounds every run. -/
theorem EachStep.length_le (measure : State → Nat)
    (keeps : ∀ state label next, invariant state → meets state label →
      step state label = some next → invariant next)
    (decreases : ∀ state label next, invariant state → meets state label →
      step state label = some next → measure next < measure state) (initial : invariant start)
    (each : EachStep step meets start labels) (reached : labels.foldlM step start = some final) :
    labels.length ≤ measure start := by
  obtain ⟨_, _, bounded⟩ := EachStep.spends
    (fun state budget => invariant state ∧ measure state = budget) (fun _ => 0)
    (fun state label next _ here met stepped =>
      ⟨_, ⟨keeps state label next here.1 met stepped, rfl⟩,
        here.2 ▸ decreases state label next here.1 met stepped⟩)
    ⟨initial, rfl⟩ each reached
  rw [map_const', sum_replicate_nat, Nat.mul_zero] at bounded
  omega

end Liboffs.Library.Runs

import Mathlib.Data.List.Basic

/-!
# Systems that log their operations

An operation changes the state and writes records, and after a crash these are replayed on an
earlier state.  The log is faithful when the records of an operation rebuild its effect, and an
incomplete beginning of them has none.

Then replaying the whole log of a run gives the final state, and a beginning of it gives the state
after the operations that lie in it completely.
-/

namespace Liboffs.Library.LoggedSystem

open List Option

universe u v w

/-- Operations with the records they write, and the action of a record. -/
structure System (State : Type u) (Op : Type v) (Record : Type w) where
  step : State → Op → Option State
  records : State → Op → List Record
  replay : State → Record → Option State

namespace System

variable {State : Type u} {Op : Type v} {Record : Type w} (system : System State Op Record)

/-- Execute operations one after the other. -/
def run : State → List Op → Option State
  | state, [] => some state
  | state, op :: ops => (system.step state op).bind fun next => run next ops

/-- The records that a run writes. -/
def log : State → List Op → List Record
  | _, [] => []
  | state, op :: ops =>
    system.records state op ++
      match system.step state op with
      | some next => log next ops
      | none => []

/-- Replay records one after the other. -/
def replayAll : State → List Record → Option State
  | state, [] => some state
  | state, record :: records => (system.replay state record).bind fun next => replayAll next records

/-- The records rebuild the effect of every operation. -/
structure Faithful (invariant : State → Prop) : Prop where
  preserved : ∀ {state op next}, invariant state → system.step state op = some next → invariant next
  complete : ∀ {state op next}, invariant state →
    system.step state op = some next → system.replayAll state (system.records state op) = some next
  incomplete : ∀ {state op next}, invariant state →
    system.step state op = some next →
      ∀ count < (system.records state op).length,
        system.replayAll state ((system.records state op).take count) = some state

variable {system} {invariant : State → Prop}

theorem replayAll_append (state : State) (first second : List Record) :
    system.replayAll state (first ++ second) = (system.replayAll state first).bind fun next =>
        system.replayAll next second := by
  induction first generalizing state with
  | nil => rfl
  | cons record rest ih =>
    simp only [cons_append, replayAll]
    cases system.replay state record with
    | none => rfl
    | some next => exact ih next

theorem run_append (state : State) :
    system.run state (first ++ second) = (system.run state first).bind fun next =>
        system.run next second := by
  induction first generalizing state with
  | nil => rfl
  | cons op rest ih =>
    simp only [cons_append, run]
    cases system.step state op with
    | none => rfl
    | some next => exact ih next

theorem log_append (ran : system.run state first = some middle) :
    system.log state (first ++ second) = system.log state first ++ system.log middle second := by
  induction first generalizing state with
  | nil =>
    cases ran
    rfl
  | cons op rest ih =>
    obtain ⟨next, stepped, ran⟩ := bind_eq_some_iff.mp ran
    simp [log, stepped, ih ran]

section
variable (faithful : system.Faithful invariant) {state final : State} {ops : List Op}
  (sound : invariant state) (ran : system.run state ops = some final)
include faithful sound ran

theorem Faithful.run_preserved : invariant final := by
  induction ops generalizing state with
  | nil =>
    cases ran
    exact sound
  | cons op rest ih =>
    obtain ⟨next, stepped, ran⟩ := bind_eq_some_iff.mp ran
    exact ih (faithful.preserved sound stepped) ran

/-- Replaying the whole log of a run gives its final state. -/
theorem Faithful.replayAll_log : system.replayAll state (system.log state ops) = some final := by
  induction ops generalizing state with
  | nil => exact ran
  | cons op rest ih =>
    obtain ⟨next, stepped, ran⟩ := bind_eq_some_iff.mp ran
    simp only [log, stepped]
    rw [replayAll_append, faithful.complete sound stepped]
    exact ih (faithful.preserved sound stepped) ran

end

end System

end Liboffs.Library.LoggedSystem

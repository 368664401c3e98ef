import Mathlib.Data.List.Basic

/-!
# Walks over a store

A component asks a store for one value after the other, depending on the answers.  The requests
are part of its state, and the walk settles when all have been answered.

A walk is described by its answers: an answer leads to a walk that settles in the same states, and
without one to give the walk has settled.
-/

namespace Liboffs.Library.StoreWalks

universe u v w

variable {State : Type u} {Key : Type v}

/-- A component and how many of its requests have been answered. -/
structure Walk (State : Type u) where
  state : State
  answered : Nat

variable (requests : State → List Key)
variable (answer : State → Key → Option Value → Option State)
variable (store : Key → Option Value)

/-- The requests that have not been answered. -/
def unanswered (walk : Walk State) : List Key :=
  (requests walk.state).drop walk.answered

def answerOldest (walk : Walk State) : Option (Walk State) :=
  match unanswered requests walk with
  | [] => none
  | key :: _ => do
      let state ← answer walk.state key (store key)
      return ⟨state, walk.answered + 1⟩

/-- A number of requests are answered. -/
def answerMany : Nat → Walk State → Option (Walk State)
  | 0, walk => some walk
  | rounds + 1, walk => do
      let next ← answerOldest requests answer store walk
      answerMany rounds next

/-- With the last answer the component is in this state. -/
def Settles (walk : Walk State) (final : State) : Prop :=
  ∃ rounds last,
    answerMany requests answer store rounds walk = some last ∧ unanswered requests last = [] ∧
    last.state = final

/-- With the answer to the oldest request of the last walk everything is answered. -/
def EndsAt (walk last : Walk State) : Prop :=
  ∃ rounds final,
    answerMany requests answer store rounds walk = some last ∧
    answerOldest requests answer store last = some final ∧ unanswered requests final = []

variable {requests answer store}

theorem settles_of_answered (answered : unanswered requests walk = []) :
    Settles requests answer store walk final ↔ walk.state = final := by
  constructor
  · rintro ⟨rounds, last, run, _, same⟩
    cases rounds with
    | zero =>
      cases run
      exact same
    | succ rounds =>
      rw [answerMany, answerOldest, answered] at run
      cases run
  · intro same
    exact ⟨0, walk, rfl, answered, same⟩

theorem settles_of_answer (step : answerOldest requests answer store walk = some next)
    (final : State) :
    Settles requests answer store walk final ↔ Settles requests answer store next final := by
  constructor
  · rintro ⟨rounds, last, run, done, same⟩
    cases rounds with
    | zero =>
      cases run
      rw [answerOldest, done] at step
      cases step
    | succ rounds =>
      rw [answerMany, step] at run
      exact ⟨rounds, last, run, done, same⟩
  · rintro ⟨rounds, last, run, done, same⟩
    refine ⟨rounds + 1, last, ?_, done, same⟩
    rw [answerMany, step]
    exact run

theorem Settles.unique (one : Settles requests answer store walk first)
    (other : Settles requests answer store walk second) : first = second := by
  obtain ⟨rounds, last, run, done, rfl⟩ := one
  induction rounds generalizing walk with
  | zero =>
    cases run
    exact (settles_of_answered done).mp other
  | succ rounds ih =>
    rw [answerMany] at run
    cases step : answerOldest requests answer store walk with
    | none =>
      rw [step] at run
      cases run
    | some next =>
      rw [step] at run
      exact ih ((settles_of_answer step _).mp other) run

theorem answerOldest_of_answered (answered : unanswered requests walk = []) :
    answerOldest requests answer store walk = none := by
  rw [answerOldest, answered]

/-- The end of a walk that goes on after an answer is that of what follows. -/
theorem endsAt_of_answer (step : answerOldest requests answer store walk = some next)
    (more : unanswered requests next ≠ []) (last : Walk State) :
    EndsAt requests answer store walk last ↔ EndsAt requests answer store next last := by
  constructor
  · rintro ⟨rounds, final, run, ends, done⟩
    cases rounds with
    | zero =>
      cases run
      cases step.symm.trans ends
      exact absurd done more
    | succ rounds =>
      rw [answerMany, step] at run
      exact ⟨rounds, final, run, ends, done⟩
  · rintro ⟨rounds, final, run, ends, done⟩
    refine ⟨rounds + 1, final, ?_, ends, done⟩
    rw [answerMany, step]
    exact run

theorem endsAt_of_last (step : answerOldest requests answer store walk = some next)
    (done : unanswered requests next = []) :
    EndsAt requests answer store walk last ↔ walk = last := by
  constructor
  · rintro ⟨rounds, final, run, ends, _⟩
    cases rounds with
    | zero =>
      cases run
      rfl
    | succ rounds =>
      rw [answerMany, step] at run
      cases rounds with
      | zero =>
        cases run
        rw [answerOldest_of_answered done] at ends
        cases ends
      | succ rounds =>
        change answerMany requests answer store (rounds + 1) next = some last at run
        rw [answerMany, answerOldest_of_answered done] at run
        cases run
  · rintro rfl
    exact ⟨0, next, rfl, step, done⟩

/-- The answer to the only open request. -/
theorem answerOldest_eq (asked : requests walk.state = before ++ [key])
    (answered : walk.answered = before.length) :
    answerOldest requests answer store walk = (answer walk.state key (store key)).map
        fun state => ⟨state, before.length + 1⟩ := by
  have single : unanswered requests walk = [key] := by
    rw [unanswered, asked, answered]
    simp
  rw [answerOldest, single, answered]
  change (answer walk.state key (store key)).bind _ = _
  cases answer walk.state key (store key) with
  | none | some => rfl

/-- After that answer nothing is open if nothing was asked. -/
theorem unanswered_of_silent (asked : requests state = before ++ [key]) :
    unanswered requests ⟨state, before.length + 1⟩ = [] := by
  rw [unanswered, asked]
  simp

end Liboffs.Library.StoreWalks

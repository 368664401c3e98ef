import Liboffs.RefCounter.PackedState
import Liboffs.Library.Runs
import Mathlib.Data.List.Perm.Basic

/-!
# Owners of a counted object

Threads share an object with one reference counter.  An owner lends the object to a new owner,
hands it over, or releases it; a receiver takes what was handed over.  Each is a loop that
exchanges the packed word, and the loops interleave.

The release that leaves no owner and no hand-over is to free the object.  This holds where no new
owner comes during a hand-over and fewer releases are parked than there are hand-overs.
-/

namespace Liboffs.RefCounter

open Library.Runs List Option

/-- What the threads do with a counted object. -/
inductive Operation
  /-- `REFERENCE` by a new owner, through one that keeps the object. -/
  | reference
  /-- `CONSUME` by an owner. -/
  | consume
  /-- `REFERENCE` by the receiver of a hand-over. -/
  | receive
  /-- `refcounter_dereference_is_zero` by an owner. -/
  | release
  deriving DecidableEq

/-- An operation in its loop, with the word that it has read. -/
structure Running where
  operation : Operation
  seen : Option UInt32

/-- The shared word, idle owners and hand-overs, what is running, and the reports of zero. -/
structure Sharing where
  word : UInt32
  idle : Nat
  handed : Nat
  running : List Running
  zeros : Nat

open Sharing

/-- The object has one owner. -/
def Sharing.start : Sharing :=
  ⟨refcounterInit, 1, 0, [], 0⟩

def Sharing.operations (sharing : Sharing) : List Operation :=
  sharing.running.map Running.operation

/-- An owner is one until its hand-over or its release takes effect. -/
def Sharing.owners (sharing : Sharing) : Nat :=
  sharing.idle + sharing.operations.count .consume + sharing.operations.count .release

/-- A hand-over is outstanding until the reference of its receiver. -/
def Sharing.handOvers (sharing : Sharing) : Nat :=
  sharing.handed + sharing.operations.count .receive

/-- One atomic step of one thread. -/
inductive SharingStep
  | begin_ (operation : Operation)
  | load (index : Nat)
  /-- The exchange is weak: it may fail without a reason. -/
  | exchange (index : Nat) (spurious : Bool)

/-- The word to be stored and the result, unless the operation returns at once. -/
def attempt : Operation → UInt32 → Option (UInt32 × Bool)
  | .reference, seen => some (refcounterReference seen, false)
  | .receive, seen => some (refcounterReference seen, false)
  | .consume, seen => (refcounterYield seen).map fun next => (next, false)
  | .release, seen => refcounterDereferenceIsZero seen

/-- A thread enters an operation; an owner is idle while it is referenced through. -/
def Sharing.begin_ (sharing : Sharing) (operation : Operation) : Option Sharing :=
  let running := sharing.running ++ [⟨operation, none⟩]
  match operation with
  | .reference => if 0 < sharing.idle then some { sharing with running } else none
  | .receive =>
    if 0 < sharing.handed then
      some { sharing with handed := sharing.handed - 1, running }
    else
      none
  | .consume | .release =>
    let kept := if .reference ∈ sharing.operations then 1 else 0
    if kept < sharing.idle then
      some { sharing with idle := sharing.idle - 1, running }
    else
      none

/-- A running operation reads the word. -/
def Sharing.read (sharing : Sharing) (index : Nat) : Sharing :=
  { sharing with
    running := sharing.running.modify index fun running =>
      { running with seen := some sharing.word } }

/-- A running operation returns. -/
def Sharing.complete (sharing : Sharing) (index : Nat) (operation : Operation)
    (word : UInt32) (isZero : Bool) : Sharing :=
  let running := sharing.running.eraseIdx index
  match operation with
  | .reference | .receive => { sharing with word, running, idle := sharing.idle + 1 }
  | .consume => { sharing with word, running, handed := sharing.handed + 1 }
  | .release => { sharing with word, running, zeros := sharing.zeros + isZero.toNat }

/-- One step of the threads that share the object. -/
def sharingStep (sharing : Sharing) : SharingStep → Option Sharing
  | .begin_ operation => sharing.begin_ operation
  | .load index => (sharing.running[index]?).map fun _ => sharing.read index
  | .exchange index spurious =>
    match sharing.running[index]? with
    | some ⟨operation, some seen⟩ =>
      match attempt operation seen with
      | none => some (sharing.complete index operation sharing.word false)
      | some (desired, isZero) =>
        if sharing.word = seen ∧ spurious = false then
          some (sharing.complete index operation desired isZero)
        else
          some (sharing.read index)
    | _ => none

def takesEffect (sharing : Sharing) : SharingStep → Option Operation
  | .exchange index false =>
    (sharing.running[index]?).bind fun running =>
      if running.seen = some sharing.word then
        some running.operation
      else
        none
  | _ => none

/-- There are fewer than 2¹⁶ owners and fewer than 255 hand-overs. -/
def Within (sharing : Sharing) (step : SharingStep) : Prop :=
  ∀ next ∈ sharingStep sharing step, next.owners < 2 ^ 16 ∧ next.handOvers < 255

/-- No new owner comes during a hand-over, and releases do not outnumber the hand-overs. -/
def Orderly (sharing : Sharing) (step : SharingStep) : Prop :=
  (takesEffect sharing step = some .reference → sharing.handOvers = 0) ∧
    (takesEffect sharing step = some .release → 0 < sharing.handOvers →
      (refcounterPackedPending sharing.word).toNat < sharing.handOvers)

instance (sharing : Sharing) (step : SharingStep) : Decidable (Within sharing step) :=
  inferInstanceAs (Decidable (∀ next ∈ sharingStep sharing step, _))

instance (sharing : Sharing) (step : SharingStep) : Decidable (Orderly sharing step) :=
  inferInstanceAs (Decidable ((_ → _) ∧ (_ → _ → _)))

/-- `true` is returned by no release before the end, and by exactly one at the end. -/
def Sharing.ReportedOnce (sharing : Sharing) : Prop :=
  sharing.zeros = if sharing.owners + sharing.handOvers = 0 then 1 else 0

/-- Neither of the small counters is full. -/
def Unsaturated (word : UInt32) : Prop :=
  refcounterPackedYield word ≠ 0xFF ∧ refcounterPackedPending word ≠ 0xFF

/-- What every step keeps. -/
structure Sound (sharing : Sharing) : Prop where
  counts : ∃ pending, Counts sharing.word sharing.owners sharing.handOvers pending
  seen : ∀ running ∈ sharing.running, ∀ word, running.seen = some word → Unsaturated word
  lent : Operation.reference ∈ sharing.operations → 0 < sharing.idle
  few : sharing.handOvers < 255
  reported : sharing.ReportedOnce

theorem sound_start : Sound Sharing.start := by
  constructor
  · exact ⟨0, counts_refcounterInit⟩
  · intro running member
    cases member
  · intro member
    cases member
  · decide
  · rfl

theorem attempt_isSome (operation : Operation) (free : Unsaturated seen) :
    (attempt operation seen).isSome = true := by
  cases operation with
  | reference | receive => rfl
  | consume => simp [attempt, refcounterYield, free.1]
  | release =>
    simp only [attempt, refcounterDereferenceIsZero, if_neg free.2]
    split
    · rfl
    · split <;> rfl

section
variable {sharing next : Sharing}

theorem operations_read (index : Nat) : (sharing.read index).operations = sharing.operations := by
  apply ext_getElem?
  intro position
  simp only [Sharing.operations, Sharing.read, List.getElem?_map, List.getElem?_modify]
  split
  · cases sharing.running[position]? <;> rfl
  · cases sharing.running[position]? <;> rfl

variable {operation : Operation}

variable {index : Nat}

/-- The operation that returns stands beside those that go on. -/
theorem perm_operations {running : Running} (found : sharing.running[index]? = some running) :
    (running.operation :: (sharing.running.eraseIdx index).map Running.operation).Perm
        sharing.operations := by
  rcases List.getElem?_eq_some_iff.mp found with ⟨bound, rfl⟩
  exact (getElem_cons_eraseIdx_perm bound).map Running.operation

/-- How an operation that returns changes the owners and the hand-overs. -/
theorem complete_counts {seen : Option UInt32}
    (found : sharing.running[index]? = some ⟨operation, seen⟩) (word : UInt32) :
    let next := sharing.complete index operation word isZero
    match operation with
    | .reference =>
      next.owners = sharing.owners + 1 ∧ next.handOvers = sharing.handOvers
    | .consume =>
      next.owners + 1 = sharing.owners ∧ next.handOvers = sharing.handOvers + 1
    | .receive =>
      next.owners = sharing.owners + 1 ∧ next.handOvers + 1 = sharing.handOvers
    | .release =>
      next.owners + 1 = sharing.owners ∧ next.handOvers = sharing.handOvers := by
  have perm := perm_operations found
  have consumes := perm.count_eq .consume
  have receives := perm.count_eq .receive
  have releases := perm.count_eq .release
  cases operation <;>
    simp [complete, owners, handOvers, operations] at * <;>
    omega

section
variable (sound : Sound sharing)
include sound

/-- A step that leaves the word, the owners and the hand-overs. -/
theorem Sound.unchanged (word : next.word = sharing.word) (zeros : next.zeros = sharing.zeros)
    (owners : next.owners = sharing.owners) (handOvers : next.handOvers = sharing.handOvers)
    (lent : Operation.reference ∈ next.operations → 0 < next.idle)
    (seen : ∀ running ∈ next.running, ∀ word, running.seen = some word → Unsaturated word) :
    Sound next := by
  constructor
  · rw [word, owners, handOvers]
    exact sound.counts
  · exact seen
  · exact lent
  · rw [handOvers]
    exact sound.few
  · rw [Sharing.ReportedOnce, zeros, owners, handOvers]
    exact sound.reported

theorem Sound.read (index : Nat) : Sound (sharing.read index) := by
  have same := @operations_read sharing index
  apply sound.unchanged
  · rfl
  · rfl
  · simp only [Sharing.owners, same]
    rfl
  · simp only [Sharing.handOvers, same]
    rfl
  · rw [same]
    exact sound.lent
  · intro running member word read
    rcases List.getElem?_of_mem member with ⟨position, found⟩
    simp only [Sharing.read, List.getElem?_modify] at found
    cases before : sharing.running[position]? with
    | none => simp [before] at found
    | some old =>
      rcases sound.counts with ⟨pending, counts⟩
      simp only [before, Option.map_eq_map, Option.map_some, Option.some.injEq] at found
      split at found
      · subst found
        cases read
        have yields := counts.yield
        have parks := counts.parked
        have bounded := counts.bounded
        have few := sound.few
        constructor
        · intro full
          rw [full] at yields
          simp at yields
          omega
        · intro full
          rw [full] at parks
          simp at parks
          omega
      · subst found
        exact sound.seen old (mem_of_getElem? before) word read

/-- What a thread that enters an operation leaves as it was. -/
theorem Sound.entered (running : next.running = sharing.running ++ [⟨operation, none⟩])
    (word : next.word = sharing.word) (zeros : next.zeros = sharing.zeros)
    (owners : next.owners = sharing.owners) (handOvers : next.handOvers = sharing.handOvers)
    (lent : Operation.reference ∈ next.operations → 0 < next.idle) : Sound next := by
  apply sound.unchanged word zeros owners handOvers lent
  intro entry member word read
  rw [running, mem_append, mem_singleton] at member
  rcases member with member | rfl
  · exact sound.seen entry member word read
  · cases read

/-- An owner starts to hand the object over or to release it. -/
theorem Sound.enteredOwner (owner : operation = .consume ∨ operation = .release)
    (idle : (if .reference ∈ sharing.operations then 1 else 0) < sharing.idle) :
    Sound
      { sharing with
        idle := sharing.idle - 1
        running := sharing.running ++ [⟨operation, none⟩] } := by
  apply sound.entered
  · rfl
  · rfl
  · rfl
  · rcases owner with rfl | rfl
    · simp [owners, operations]
      omega
    · simp [owners, operations]
      omega
  · rcases owner with rfl | rfl
    · simp [handOvers, operations]
    · simp [handOvers, operations]
  · intro member
    have before : Operation.reference ∈ sharing.operations := by
      rcases owner with rfl | rfl
      · simpa [operations] using member
      · simpa [operations] using member
    rw [if_pos before] at idle
    exact Nat.sub_pos_of_lt idle

theorem Sound.begin_ (stepped : sharing.begin_ operation = some next) : Sound next := by
  cases operation with
  | reference =>
    simp only [begin_, ite_none_right_eq_some, Option.some.injEq] at stepped
    rcases stepped with ⟨idle, rfl⟩
    apply sound.entered
    · rfl
    · rfl
    · rfl
    · simp [owners, operations]
    · simp [handOvers, operations]
    · intro _
      exact idle
  | receive =>
    simp only [begin_, ite_none_right_eq_some, Option.some.injEq] at stepped
    rcases stepped with ⟨handed, rfl⟩
    apply sound.entered
    · rfl
    · rfl
    · rfl
    · simp [owners, operations]
    · simp [handOvers, operations]
      omega
    · intro member
      apply sound.lent
      simpa [operations] using member
  | consume =>
    simp only [begin_, ite_none_right_eq_some, Option.some.injEq] at stepped
    rcases stepped with ⟨idle, rfl⟩
    exact sound.enteredOwner (.inl rfl) idle
  | release =>
    simp only [begin_, ite_none_right_eq_some, Option.some.injEq] at stepped
    rcases stepped with ⟨idle, rfl⟩
    exact sound.enteredOwner (.inr rfl) idle

/-- An operation that returns leaves the others running. -/
theorem Sound.returned (index : Nat) (running : next.running = sharing.running.eraseIdx index)
    (idle : sharing.idle ≤ next.idle)
    (counts : ∃ pending, Counts next.word next.owners next.handOvers pending)
    (few : next.handOvers < 255) (reported : next.ReportedOnce) : Sound next := by
  have fewer : next.running ⊆ sharing.running := by
    rw [running]
    exact eraseIdx_subset
  constructor
  · exact counts
  · intro entry member
    exact sound.seen entry (fewer member)
  · intro member
    have before := sound.lent (map_subset _ fewer member)
    exact Nat.lt_of_lt_of_le before idle
  · exact few
  · exact reported

/-- No release has returned `true` as long as there are owners. -/
theorem Sound.zeros_eq_zero (used : 0 < sharing.owners + sharing.handOvers) :
    sharing.zeros = 0 := by
  have reported := sound.reported
  rw [Sharing.ReportedOnce, if_neg (Nat.ne_of_gt used)] at reported
  exact reported

end

/-- The number of releases that returned `true` stays zero. -/
theorem reportedOnce_of_used (zeros : next.zeros = 0) (used : 0 < next.owners + next.handOvers) :
    next.ReportedOnce := by
  rw [Sharing.ReportedOnce, zeros, if_neg (Nat.ne_of_gt used)]

section
variable {index : Nat} {seen : Option UInt32}

section
variable (sound : Sound sharing)
include sound

theorem Sound.reference (found : sharing.running[index]? = some ⟨.reference, seen⟩)
    (alone : sharing.handOvers = 0) (room : (sharing.complete index .reference
      (refcounterReference sharing.word) false).owners < 2 ^ 16) :
    Sound (sharing.complete index .reference (refcounterReference sharing.word) false) := by
  rcases complete_counts found (refcounterReference sharing.word) with ⟨owners, handOvers⟩
  have lent : 0 < sharing.idle := by
    apply sound.lent
    exact (perm_operations found).subset (mem_cons_self ..)
  have used : 0 < sharing.owners + sharing.handOvers := by
    simp only [Sharing.owners]
    omega
  rcases sound.counts with ⟨pending, counts⟩
  apply sound.returned index
  · rfl
  · exact Nat.le_succ _
  · rw [owners, handOvers, alone]
    rw [owners] at room
    rw [alone] at counts
    exact ⟨pending, counts.reference room⟩
  · rw [handOvers]
    exact sound.few
  · apply reportedOnce_of_used
    · exact sound.zeros_eq_zero used
    · omega

theorem Sound.receive (found : sharing.running[index]? = some ⟨.receive, seen⟩) :
    Sound (sharing.complete index .receive (refcounterReference sharing.word) false) := by
  rcases complete_counts found (refcounterReference sharing.word) with ⟨owners, handOvers⟩
  have few := sound.few
  rcases sound.counts with ⟨pending, counts⟩
  apply sound.returned index
  · rfl
  · exact Nat.le_succ _
  · rw [owners]
    rw [← handOvers] at counts
    exact ⟨pending - 1, counts.receive⟩
  · omega
  · apply reportedOnce_of_used
    · apply sound.zeros_eq_zero
      omega
    · omega

theorem Sound.consume (found : sharing.running[index]? = some ⟨.consume, seen⟩)
    {desired : UInt32} (yields : refcounterYield sharing.word = some desired)
    (few : (sharing.complete index .consume desired false).handOvers < 255) :
    Sound (sharing.complete index .consume desired false) := by
  rcases complete_counts found desired with ⟨owners, handOvers⟩
  rcases sound.counts with ⟨pending, counts⟩
  rw [← owners] at counts
  rcases counts.consume sound.few with ⟨stored, stores, counted⟩
  rw [yields] at stores
  cases stores
  apply sound.returned index
  · rfl
  · exact Nat.le_refl _
  · rw [handOvers]
    exact ⟨pending, counted⟩
  · exact few
  · apply reportedOnce_of_used
    · apply sound.zeros_eq_zero
      omega
    · omega

theorem Sound.release (found : sharing.running[index]? = some ⟨.release, seen⟩) {desired : UInt32}
    {isZero : Bool} (releases : refcounterDereferenceIsZero sharing.word = some (desired, isZero))
    (room : 0 < sharing.handOvers →
      (refcounterPackedPending sharing.word).toNat < sharing.handOvers) :
    Sound (sharing.complete index .release desired isZero) := by
  rcases complete_counts found desired with ⟨owners, handOvers⟩
  have fresh : sharing.zeros = 0 := by
    apply sound.zeros_eq_zero
    omega
  rcases sound.counts with ⟨pending, counts⟩
  rw [← owners] at counts
  rcases Nat.eq_zero_or_pos sharing.handOvers with none_ | outstanding
  · rw [none_] at counts
    rcases counts.release with ⟨stored, stores, counted⟩
    rw [releases, Option.some.injEq, Prod.mk.injEq] at stores
    rcases stores with ⟨rfl, zero⟩
    have last : isZero.toNat =
        if (sharing.complete index .release desired isZero).owners = 0
          then 1 else 0 := by
      generalize (sharing.complete index .release desired isZero).owners = left at zero ⊢
      subst zero
      split <;> simp [*]
    rw [none_] at handOvers
    apply sound.returned index
    · rfl
    · exact Nat.le_refl _
    · rw [handOvers]
      exact ⟨0, counted⟩
    · omega
    · rw [Sharing.ReportedOnce, handOvers, Nat.add_zero]
      show sharing.zeros + isZero.toNat = _
      rw [fresh, Nat.zero_add]
      exact last
  · have parked := room outstanding
    rw [counts.parked] at parked
    rcases counts.park parked sound.few with ⟨stored, stores, counted⟩
    rw [releases] at stores
    cases stores
    apply sound.returned index
    · rfl
    · exact Nat.le_refl _
    · rw [handOvers]
      exact ⟨pending + 1, counted⟩
    · rw [handOvers]
      exact sound.few
    · apply reportedOnce_of_used
      · exact fresh
      · omega

end

end

/-- What can happen when a running operation tries to exchange the word. -/
theorem Sound.exchange (sound : Sound sharing) (within : Within sharing (.exchange index spurious))
    (orderly : Orderly sharing (.exchange index spurious))
    (stepped : sharingStep sharing (.exchange index spurious) = some next) : Sound next := by
  have bounds := within next stepped
  simp only [sharingStep] at stepped
  split at stepped
  · rename_i operation seen found
    have free := sound.seen _ (mem_of_getElem? found) seen rfl
    split at stepped
    · rename_i returned
      have attempted := attempt_isSome operation free
      rw [returned] at attempted
      cases attempted
    · rename_i desired isZero attempted
      split at stepped
      · rename_i exchanged
        rcases exchanged with ⟨same, rfl⟩
        subst same
        cases stepped
        have effect : takesEffect sharing (.exchange index false) = some operation := by
          simp [takesEffect, found]
        cases operation with
        | reference =>
          cases attempted
          exact sound.reference found (orderly.1 effect) bounds.1
        | receive =>
          cases attempted
          exact sound.receive found
        | consume =>
          simp only [attempt, map_eq_some_iff] at attempted
          rcases attempted with ⟨stored, yields, same⟩
          cases same
          exact sound.consume found yields bounds.2
        | release => exact sound.release found attempted (orderly.2 effect)
      · cases stepped
        exact sound.read index
  · cases stepped

theorem Sound.step (sound : Sound sharing) {step : SharingStep}
    (within : Within sharing step) (orderly : Orderly sharing step)
    (stepped : sharingStep sharing step = some next) : Sound next := by
  cases step with
  | begin_ operation => exact sound.begin_ stepped
  | load index =>
    simp only [sharingStep, map_eq_some_iff] at stepped
    rcases stepped with ⟨_, _, rfl⟩
    exact sound.read index
  | exchange index spurious => exact sound.exchange within orderly stepped

end

/--
With fewer than 2¹⁶ owners and 255 hand-overs, no new owner during a hand-over and no more parked
releases than hand-overs, `true` is returned exactly once, when nothing is left.
-/
theorem zero_is_reported_once (steps : List SharingStep) (meets : EachStep sharingStep
      (fun sharing step => Within sharing step ∧ Orderly sharing step) Sharing.start steps) :
    Throughout sharingStep Sharing.ReportedOnce Sharing.start steps := by
  apply EachStep.throughout ?_ ?_ sound_start meets
  · intro sharing step next sound met stepped
    exact sound.step met.1 met.2 stepped
  · intro sharing sound
    exact sound.reported

/-- An operation without interference. -/
def unhindered (operation : Operation) : List SharingStep :=
  [.begin_ operation, .load 0, .exchange 0 false]

/-- An owner hands over, another releases, the receiver releases: the last reports zero. -/
theorem zero_is_reported_once_after_handOver :
    Throughout sharingStep Sharing.ReportedOnce Sharing.start
      (unhindered .reference ++ unhindered .consume ++ unhindered .release ++
        unhindered .receive ++ unhindered .release) := by
  apply zero_is_reported_once
  decide +kernel

/-- A new owner takes the reference that was handed over to another. -/
def takenHandOver : List SharingStep :=
  unhindered .reference ++ unhindered .consume ++ unhindered .reference ++
    unhindered .release ++ unhindered .release

/-- Two releases during one hand-over, of which one is never drained. -/
def parkedReleases : List SharingStep :=
  unhindered .reference ++ unhindered .reference ++ unhindered .consume ++
    unhindered .release ++ unhindered .release ++ unhindered .receive ++ unhindered .release

/-- Zero is reported during a hand-over, and is not reported at the last release. -/
theorem zero_reported_early_or_never :
    EachStep sharingStep Within Sharing.start takenHandOver ∧
      (takenHandOver.foldlM sharingStep Sharing.start).map
        (fun sharing => (sharing.owners, sharing.handOvers, sharing.zeros)) = some (0, 1, 1) ∧
      EachStep sharingStep Within Sharing.start parkedReleases ∧
      (parkedReleases.foldlM sharingStep Sharing.start).map
        (fun sharing => (sharing.owners, sharing.handOvers, sharing.zeros)) = some (0, 0, 0) := by
  decide +kernel

end Liboffs.RefCounter

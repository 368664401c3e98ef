import Liboffs.Actor.MessageQueue

/-!
# The turns of an actor

The push that finds the flag of a mailbox set gives the actor to the scheduler, and the worker that
sets the flag again lets it go.  In between the actor is in a queue of the scheduler or with a
worker.  An actor that sends to a full mailbox enters itself in a list of the receiver and is then
muted.  Workers park muted actors; the receiver unmutes those in its list when it has emptied its
mailbox, and gives them back to the scheduler.

An atomic operation on the flags is a step.  An actor that a worker is putting into a queue, or has
taken and not yet looked at, counts as queued.  The queues lose nothing, and no actor is destroyed.
-/

namespace Liboffs.Actor

open List Library.Runs

/-- The flags of `actor_t`. -/
structure Flags where
  scheduled : Bool
  muted : Bool
  running : Bool
deriving DecidableEq

/-- Where a worker is with the actor, with the flags that it has seen. -/
inductive Phase where
  | parking (seen : Flags)
  | rechecking (seen : Flags)
  | claiming (seen : Flags)
  | running
  /-- `actor_send` has entered the actor in a list, and not yet muted it. -/
  | listed
  | emptied
  | finished
deriving DecidableEq

/-- An actor, and what the threads are about to do with it. -/
structure Turn (Message : Type) where
  mailbox : Mailbox Message
  flags : Flags
  queued : Nat
  /-- Threads that are going to schedule the actor. -/
  wakers : Nat
  workers : List Phase
  /-- Entries of the actor in the lists of full mailboxes. -/
  entries : Nat
  /-- Releases that have unmuted the actor and not yet looked at its flags. -/
  releases : Nat

/-- What a thread does with the actor in one step. -/
inductive TurnStep (Message : Type) where
  | exchange (node : Node) (message : Message)
  | link
  | schedule
  | reinject
  | find
  | unschedule (phase : Phase)
  | recheck (seen : Flags)
  | claim (seen : Flags) (changed : Bool)
  | pop
  | enlist
  | mute
  | unmute
  | release
  | markempty
  | requeue
  | finish

variable {Message : Type}

namespace Turn

/-- `actor_init`. -/
def init (sentinel : Node) (blank : Message) : Turn Message where
  mailbox := .init sentinel blank
  flags := ⟨false, false, false⟩
  queued := 0
  wakers := 0
  workers := []
  entries := 0
  releases := 0

/-- A worker goes on to the next phase, or has done with the actor. -/
def advance (turn : Turn Message) (old : Phase) (new : List Phase) : Option (Turn Message) :=
  if old ∈ turn.workers then
    some { turn with workers := new ++ turn.workers.erase old }
  else
    none

def setScheduled (turn : Turn Message) (scheduled : Bool) : Turn Message :=
  { turn with flags := { turn.flags with scheduled } }

def setMuted (turn : Turn Message) (muted : Bool) : Turn Message :=
  { turn with flags := { turn.flags with muted } }

def setRunning (turn : Turn Message) (running : Bool) : Turn Message :=
  { turn with flags := { turn.flags with running } }

end Turn

/--
The steps of `actor_send`, `actor_run`, `backpressure_release`, `_scheduler_worker_loop` and
`_scheduler_pool_reinject_stranded`.  Flags that are not modelled may have `changed` when a worker
claims the actor, and a worker may put the actor back at any time.
-/
def turnStep (turn : Turn Message) : TurnStep Message → Option (Turn Message)
  | .exchange node message =>
    (mailboxStep turn.mailbox (.exchange node message)).map fun mailbox =>
      { turn with mailbox, wakers := turn.wakers + (mailbox.wakes - turn.mailbox.wakes) }
  | .link => (mailboxStep turn.mailbox .link).map fun mailbox => { turn with mailbox }
  | .schedule =>
    if 0 < turn.wakers then
      some { turn.setScheduled true with wakers := turn.wakers - 1, queued := turn.queued + 1 }
    else
      none
  | .reinject =>
    if turn.flags.muted || messageQueueIsempty turn.mailbox.queue then
      none
    else
      some { turn with wakers := turn.wakers + 1 }
  | .find =>
    if 0 < turn.queued then
      let phase := if turn.flags.muted then Phase.parking turn.flags else .claiming turn.flags
      some { turn with queued := turn.queued - 1, workers := phase :: turn.workers }
    else
      none
  | .unschedule (.parking seen) =>
    (turn.advance (.parking seen) [.rechecking seen]).map (Turn.setScheduled · false)
  | .unschedule .emptied => (turn.advance .emptied [.finished]).map (Turn.setScheduled · false)
  | .unschedule _ => none
  | .recheck seen =>
    turn.advance (.rechecking seen) (if turn.flags.muted then [] else [.claiming seen])
  | .claim seen changed =>
    if seen.running || changed || seen != turn.flags then
      (turn.advance (.claiming seen) []).map fun turn => { turn with queued := turn.queued + 1 }
    else
      (turn.advance (.claiming seen) [.running]).map (Turn.setRunning · true)
  | .pop =>
    if .running ∈ turn.workers then
      (mailboxStep turn.mailbox .pop).map fun mailbox => { turn with mailbox }
    else
      none
  | .enlist =>
    if turn.flags.muted then
      none
    else
      (turn.advance .running [.listed]).map fun turn => { turn with entries := turn.entries + 1 }
  | .mute => (turn.advance .listed [.running]).map (Turn.setMuted · true)
  | .unmute =>
    if 0 < turn.entries then
      some { turn.setMuted false with
        entries := turn.entries - 1, releases := turn.releases + 1 }
    else
      none
  | .release =>
    if 0 < turn.releases then
      some { turn with
        releases := turn.releases - 1
        wakers := if turn.flags.scheduled then turn.wakers else turn.wakers + 1 }
    else
      none
  | .markempty => do
    let mailbox ← mailboxStep turn.mailbox .markempty
    if mailbox.queue.emptyFlag then
      (turn.advance .running [.emptied]).map fun turn => { turn with mailbox }
    else
      none
  | .requeue =>
    (turn.advance .running []).map fun turn =>
      { turn.setRunning false with queued := turn.queued + 1 }
  | .finish => (turn.advance .finished []).map (Turn.setRunning · false)

/-- The worker is inside of `actor_run`, or leaves it. -/
def Phase.runs : Phase → Bool
  | .running | .listed | .emptied | .finished => true
  | _ => false

/-- The worker will run the actor or put it back, unless it parks it. -/
def Phase.keeps : Phase → Bool
  | .parking _ | .claiming _ | .running | .listed => true
  | _ => false

/-- The worker has parked the actor, and looks at its flags again. -/
def Phase.rechecks : Phase → Bool
  | .rechecking _ => true
  | _ => false

namespace Turn
variable (turn : Turn Message)

/-- The queues, threads and workers that have the actor. -/
@[grind =]
def hands : Nat :=
  turn.queued + turn.wakers + turn.workers.countP Phase.keeps

/-- Nobody has the actor, or is going to give it back. -/
def Abandoned : Prop :=
  turn.hands = 0 ∧ turn.workers.countP Phase.rechecks = 0 ∧ turn.releases = 0 ∧
    (turn.flags.muted = true → turn.entries = 0)

end Turn

/-- What the steps keep, the entries only if releases are `timely`. -/
structure TurnInvariant (timely : Prop) (turn : Turn Message) : Prop where
  mailbox : MailboxInvariant turn.mailbox
  alive : turn.mailbox.queue.destroyed = false
  alone : turn.workers.countP Phase.runs = turn.flags.running.toNat
  muted : timely → turn.flags.muted = true ∨ 0 < turn.workers.count .listed → 0 < turn.entries
  scheduled : turn.flags.scheduled = true → turn.mailbox.queue.emptyFlag = false → 0 < turn.hands
  attended : turn.mailbox.queue.emptyFlag = false → turn.flags.muted = true ∨
    0 < turn.hands + turn.workers.countP Phase.rechecks + turn.releases

variable {turn after : Turn Message}

/-- A worker that goes on changes the counts of its phases, and what the step changes besides. -/
theorem advance_counts {change : Turn Message → Turn Message}
    (stepped : (turn.advance old new).map change = some after) :
    ∃ workers, after = change { turn with workers } ∧
      workers.count .listed + [old].count .listed = (new ++ turn.workers).count .listed ∧
      workers.countP Phase.runs + [old].countP Phase.runs =
        (new ++ turn.workers).countP Phase.runs ∧
      workers.countP Phase.keeps + [old].countP Phase.keeps =
        (new ++ turn.workers).countP Phase.keeps ∧
      workers.countP Phase.rechecks + [old].countP Phase.rechecks =
        (new ++ turn.workers).countP Phase.rechecks := by
  obtain ⟨next, advanced, rfl⟩ := Option.map_eq_some_iff.mp stepped
  rw [Turn.advance] at advanced
  split at advanced
  · rename_i here
    cases advanced
    have moved : new ++ turn.workers.erase old ++ [old] ~ new ++ turn.workers := by
      rw [append_assoc]
      exact (perm_append_comm.trans (perm_cons_erase here).symm).append_left new
    have counts (counted : Phase → Bool) := countP_append.symm.trans (moved.countP_eq counted)
    exact ⟨_, rfl, counts _, counts _, counts _, counts _⟩
  · cases advanced

/-- No release comes between the entry in a list and the muting. -/
def Timely (turn : Turn Message) : TurnStep Message → Prop
  | .unmute => turn.workers.count .listed = 0
  | _ => True

theorem mailboxStep_exchange (stepped : mailboxStep mailbox (.exchange node message) = some later)
    (running : mailbox.queue.destroyed = false) : later = mailbox.exchange node message := by
  simp only [mailboxStep, running] at stepped
  split at stepped
  · cases stepped
  · split at stepped
    · contradiction
    · split at stepped <;> cases stepped
      rfl

theorem mailboxStep_pop (stepped : mailboxStep mailbox .pop = some later) :
    later.queue.destroyed = mailbox.queue.destroyed ∧
      later.queue.emptyFlag = mailbox.queue.emptyFlag := by
  simp only [mailboxStep, messageQueuePop] at stepped
  split at stepped
  · cases stepped
  · cases known : mailbox.queue.next mailbox.queue.tail <;> rw [known] at stepped <;>
      cases stepped <;> exact ⟨rfl, rfl⟩

theorem mailboxStep_markempty (stepped : mailboxStep mailbox .markempty = some later) :
    later.queue.destroyed = false := by
  simp only [mailboxStep] at stepped
  split at stepped
  · cases stepped
  · split at stepped <;> cases stepped <;> simp_all

/-- A step that leaves the mailbox keeps the invariant, if as many still have the actor. -/
theorem TurnInvariant.pass (holds : TurnInvariant timely turn) (same : after.mailbox = turn.mailbox)
    (alone : after.workers.countP Phase.runs = after.flags.running.toNat)
    (muted : timely → after.flags.muted = true ∨ 0 < after.workers.count .listed → 0 < after.entries)
    (scheduled : after.flags.scheduled = true → turn.flags.scheduled = true ∨ 0 < after.hands)
    (hands : turn.hands ≤ after.hands)
    (attended : turn.flags.muted = true ∨
        0 < turn.hands + turn.workers.countP Phase.rechecks + turn.releases →
      after.flags.muted = true ∨
        0 < after.hands + after.workers.countP Phase.rechecks + after.releases) :
    TurnInvariant timely after where
  mailbox := same ▸ holds.mailbox
  alive := same ▸ holds.alive
  alone := alone
  muted := muted
  scheduled set flag := by
    rw [same] at flag
    rcases scheduled set with before | some
    · exact (holds.scheduled before flag).trans_le hands
    · exact some
  attended flag := attended (holds.attended (same ▸ flag))

section
variable (holds : TurnInvariant timely turn)
include holds

/-- The steps of the threads that have no worker: the actor is handed from one to the other. -/
theorem TurnInvariant.schedule (stepped : turnStep turn .schedule = some after) :
    TurnInvariant timely after := by
  simp only [turnStep] at stepped
  split at stepped
  · rename_i waking
    cases stepped
    have hands : turn.hands = turn.queued + 1 + (turn.wakers - 1) +
        turn.workers.countP Phase.keeps := by
      rw [Turn.hands]
      omega
    refine holds.pass rfl holds.alone holds.muted (fun _ => .inr ?_) hands.le
      (Or.imp_right fun some => ?_)
    · change 0 < turn.queued + 1 + (turn.wakers - 1) + _
      omega
    · rw [hands] at some
      exact some
  · cases stepped

theorem TurnInvariant.reinject (stepped : turnStep turn .reinject = some after) :
    TurnInvariant timely after := by
  simp only [turnStep] at stepped
  split at stepped
  · cases stepped
  · cases stepped
    have hands : ({ turn with wakers := turn.wakers + 1 } : Turn Message).hands = turn.hands + 1 := by
      simp only [Turn.hands]
      omega
    exact holds.pass rfl holds.alone holds.muted .inl (by omega) fun _ => .inr (by omega)

/-- A worker takes the actor from a queue, and holds it in its place. -/
theorem TurnInvariant.find (stepped : turnStep turn .find = some after) :
    TurnInvariant timely after := by
  simp only [turnStep] at stepped
  split at stepped
  · rename_i waiting
    cases stepped
    generalize taken : (if turn.flags.muted = true then Phase.parking turn.flags
      else .claiming turn.flags) = phase
    have counts : phase.runs = false ∧ phase.keeps = true ∧ phase.rechecks = false ∧
        phase ≠ .listed := by
      subst taken
      split <;> simp [Phase.runs, Phase.keeps, Phase.rechecks]
    have hands : turn.hands = turn.queued - 1 + turn.wakers +
        (phase :: turn.workers).countP Phase.keeps := by
      rw [countP_cons_of_pos counts.2.1, Turn.hands]
      omega
    refine holds.pass rfl ?_ (fun here => ?_) .inl hands.le (Or.imp_right fun some => ?_)
    · exact (countP_cons_of_neg (by simp [counts.1])).trans holds.alone
    · rw [count_cons_of_ne counts.2.2.2]
      exact holds.muted here
    · rw [hands] at some
      rw [countP_cons_of_neg (by simp [counts.2.2.1])]
      exact some
  · cases stepped

/-- A timely release finds no worker that is about to mute the actor. -/
theorem TurnInvariant.unmute (meets : timely → turn.workers.count .listed = 0)
    (stepped : turnStep turn .unmute = some after) : TurnInvariant timely after := by
  simp only [turnStep] at stepped
  split at stepped
  · cases stepped
    refine holds.pass rfl holds.alone (fun here listed => ?_) .inl le_rfl fun _ => .inr ?_
    · rcases listed with muted | some
      · cases muted
      · exact absurd some (by simp [Turn.setMuted, meets here])
    · exact Nat.succ_pos _
  · cases stepped

/-- A release gives the actor to the scheduler, unless it is there. -/
theorem TurnInvariant.release (stepped : turnStep turn .release = some after) :
    TurnInvariant timely after := by
  simp only [turnStep] at stepped
  split at stepped
  · cases stepped
    cases known : turn.flags.scheduled with
    | true =>
      refine ⟨holds.mailbox, holds.alive, holds.alone, holds.muted, holds.scheduled, fun flag => ?_⟩
      have some := holds.scheduled known flag
      exact .inr (Nat.add_pos_left (Nat.add_pos_left some _) _)
    | false =>
      refine holds.pass rfl holds.alone holds.muted .inl ?_ fun _ => .inr ?_ <;>
        simp only [Turn.hands, Bool.false_eq_true, if_false] <;> omega
  · cases stepped

/-- A worker goes on and the actor stays with it, or in a queue. -/
theorem TurnInvariant.advance {workers : List Phase} {flags : Flags} {queued entries : Nat}
    (alone : workers.countP Phase.runs = flags.running.toNat)
    (muted : timely → flags.muted = true ∨ 0 < workers.count .listed → 0 < entries)
    (same : flags.scheduled = true → turn.flags.scheduled = true)
    (still : turn.flags.muted = true → flags.muted = true)
    (keeps : turn.queued + turn.workers.countP Phase.keeps = queued + workers.countP Phase.keeps)
    (rechecks : workers.countP Phase.rechecks = turn.workers.countP Phase.rechecks) :
    TurnInvariant timely { turn with workers, flags, queued, entries } := by
  have hands : turn.hands = queued + turn.wakers + workers.countP Phase.keeps := by
    rw [Turn.hands]
    omega
  refine holds.pass rfl alone muted (fun set => .inl (same set)) hands.le ?_
  rintro (was | some)
  · exact .inl (still was)
  · rw [hands, ← rechecks] at some
    exact .inr some

end

/-- A step passes the actor on, or lets it go with an empty mailbox. -/
theorem TurnInvariant.step (holds : TurnInvariant timely turn)
    (meets : timely → Timely turn label) (stepped : turnStep turn label = some after) :
    TurnInvariant timely after := by
  have alone := holds.alone
  have one := turn.flags.running.toNat_le
  cases label with
  | exchange node message =>
    obtain ⟨later, exchanged, rfl⟩ := Option.map_eq_some_iff.mp stepped
    have kept := holds.mailbox.step exchanged
    obtain rfl := mailboxStep_exchange exchanged holds.alive
    refine ⟨kept, holds.alive, alone, holds.muted, ?_, ?_⟩ <;>
      cases known : turn.mailbox.queue.emptyFlag
    -- A push that finds the flag set wakes the actor, any other one finds it with somebody.
    · exact fun set _ => (holds.scheduled set known).trans_le (by simp only [Turn.hands]; omega)
    · intro _ _
      simp only [Turn.hands, Mailbox.exchange, known]
      simp
    · refine fun _ => (holds.attended known).imp_right fun some => some.trans_le ?_
      simp only [Turn.hands]
      omega
    · refine fun _ => .inr ?_
      simp only [Turn.hands, Mailbox.exchange, known]
      simp
  | link =>
    obtain ⟨later, linked, rfl⟩ := Option.map_eq_some_iff.mp stepped
    have kept := holds.mailbox.step linked
    obtain ⟨_, _, rfl⟩ := Option.map_eq_some_iff.mp linked
    exact ⟨kept, holds.alive, alone, holds.muted, holds.scheduled, holds.attended⟩
  | schedule => exact holds.schedule stepped
  | reinject => exact holds.reinject stepped
  | find => exact holds.find stepped
  | unmute => exact holds.unmute meets stepped
  | release => exact holds.release stepped
  | unschedule phase =>
    cases phase with
    | parking seen =>
      obtain ⟨workers, rfl, listed, runs, keeps, rechecks⟩ := advance_counts stepped
      simp [countP_cons, Phase.runs, Phase.keeps, Phase.rechecks] at listed runs keeps rechecks
      refine ⟨holds.mailbox, holds.alive, runs.trans alone, ?_, fun set => ?_, fun _ => .inr ?_⟩
      · rw [Turn.setScheduled, listed]
        exact holds.muted
      · cases set
      -- The worker looks at the flags once more.
      · simp only [Turn.setScheduled, rechecks]
        omega
    | emptied =>
      obtain ⟨workers, rfl, listed, runs, keeps, rechecks⟩ := advance_counts stepped
      simp [countP_cons, Phase.runs, Phase.keeps, Phase.rechecks] at listed runs keeps rechecks
      exact holds.advance (runs.trans alone) (by rw [listed]; exact holds.muted) (fun set => by cases set)
        id (by rw [keeps]) rechecks
    | _ => cases stepped
  | recheck seen =>
    obtain ⟨workers, rfl, listed, runs, keeps, rechecks⟩ :=
      advance_counts (Option.map_id_apply.trans stepped)
    change TurnInvariant timely { turn with workers }
    cases muted : turn.flags.muted with
    | true =>
      simp [muted, countP_cons, Phase.runs, Phase.keeps, Phase.rechecks] at listed runs keeps rechecks
      refine ⟨holds.mailbox, holds.alive, runs.trans alone, ?_, ?_, fun _ => .inl muted⟩
      · rw [listed]
        exact holds.muted
      · simp only [Turn.hands, keeps]
        exact holds.scheduled
    | false =>
      simp [muted, countP_cons, Phase.runs, Phase.keeps, Phase.rechecks] at listed runs keeps rechecks
      refine ⟨holds.mailbox, holds.alive, runs.trans alone, ?_, fun _ _ => ?_, fun _ => .inr ?_⟩
      · rw [listed]
        exact holds.muted
      · simp only [Turn.hands, keeps]
        omega
      · simp only [Turn.hands, keeps]
        omega
  | claim seen changed =>
    simp only [turnStep] at stepped
    split at stepped <;>
      obtain ⟨workers, rfl, listed, runs, keeps, rechecks⟩ := advance_counts stepped <;>
      simp [countP_cons, Phase.runs, Phase.keeps, Phase.rechecks] at listed runs keeps rechecks
    · change TurnInvariant timely { turn with workers, queued := turn.queued + 1 }
      exact holds.advance (runs.trans alone) (by rw [listed]; exact holds.muted) id id (by omega)
        rechecks
    · rename_i unchanged
      simp only [Bool.or_eq_true, not_or, Bool.not_eq_true, bne_eq_false_iff_eq] at unchanged
      obtain ⟨⟨idle, _⟩, rfl⟩ := unchanged
      rw [idle, Bool.toNat_false] at alone
      change TurnInvariant timely { turn with workers, flags := { turn.flags with running := true } }
      exact holds.advance (by rw [runs, alone]; rfl) (by rw [listed]; exact holds.muted) id id
        (by omega) rechecks
  | pop =>
    simp only [turnStep] at stepped
    split at stepped
    · obtain ⟨later, popped, rfl⟩ := Option.map_eq_some_iff.mp stepped
      obtain ⟨alive, flag⟩ := mailboxStep_pop popped
      refine ⟨holds.mailbox.step popped, alive.trans holds.alive, alone, holds.muted, ?_, ?_⟩
      · exact fun set empty => holds.scheduled set (flag.symm.trans empty)
      · exact fun empty => holds.attended (flag.symm.trans empty)
    · cases stepped
  | enlist =>
    simp only [turnStep] at stepped
    split at stepped
    · cases stepped
    · obtain ⟨workers, rfl, listed, runs, keeps, rechecks⟩ := advance_counts stepped
      simp [countP_cons, Phase.runs, Phase.keeps, Phase.rechecks] at listed runs keeps rechecks
      change TurnInvariant timely { turn with workers, entries := turn.entries + 1 }
      exact holds.advance (runs.trans alone) (fun _ _ => Nat.succ_pos _) id id (by omega) rechecks
  | mute =>
    obtain ⟨workers, rfl, listed, runs, keeps, rechecks⟩ := advance_counts stepped
    simp [countP_cons, Phase.runs, Phase.keeps, Phase.rechecks] at listed runs keeps rechecks
    change TurnInvariant timely { turn with workers, flags := { turn.flags with muted := true } }
    exact holds.advance (runs.trans alone) (fun here _ => holds.muted here (.inr (by omega))) id
      (fun _ => rfl) (by omega) rechecks
  | markempty =>
    obtain ⟨later, marked, stepped⟩ := Option.bind_eq_some_iff.mp stepped
    split at stepped
    · rename_i flag
      obtain ⟨workers, rfl, listed, runs, keeps, rechecks⟩ := advance_counts stepped
      simp [countP_cons, Phase.runs, Phase.keeps, Phase.rechecks] at listed runs keeps rechecks
      refine ⟨holds.mailbox.step marked, mailboxStep_markempty marked, runs.trans alone, ?_, ?_, ?_⟩
      · rw [listed]
        exact holds.muted
      · exact fun _ unset => by cases flag.symm.trans unset
      · exact fun unset => by cases flag.symm.trans unset
    · cases stepped
  | requeue =>
    obtain ⟨workers, rfl, listed, runs, keeps, rechecks⟩ := advance_counts stepped
    simp [countP_cons, Phase.runs, Phase.keeps, Phase.rechecks] at listed runs keeps rechecks
    have none : workers.countP Phase.runs = 0 := by omega
    change TurnInvariant timely
      { turn with workers, flags := { turn.flags with running := false }, queued := turn.queued + 1 }
    exact holds.advance none (by rw [listed]; exact holds.muted) id id (by omega) rechecks
  | finish =>
    obtain ⟨workers, rfl, listed, runs, keeps, rechecks⟩ := advance_counts stepped
    simp [countP_cons, Phase.runs, Phase.keeps, Phase.rechecks] at listed runs keeps rechecks
    have none : workers.countP Phase.runs = 0 := by omega
    change TurnInvariant timely { turn with workers, flags := { turn.flags with running := false } }
    exact holds.advance none (by rw [listed]; exact holds.muted) id id (by omega) rechecks

theorem turnInvariant_init (timely : Prop) (sentinel : Node) (blank : Message) :
    TurnInvariant timely (.init sentinel blank) :=
  ⟨mailboxInvariant_init sentinel blank, rfl, rfl, fun _ => by simp [Turn.init], nofun, nofun⟩

section
variable (sentinel : Node) (blank : Message) (steps : List (TurnStep Message))

/-- In every order of steps at most one worker runs the actor. -/
theorem one_worker_at_a_time :
    Throughout turnStep (fun turn : Turn Message => turn.workers.countP Phase.runs ≤ 1)
      (.init sentinel blank) steps := by
  have keeps (turn label) (after : Turn Message) (holds : TurnInvariant False turn) :
      turnStep turn label = some after → TurnInvariant False after := holds.step False.elim
  refine throughout_of_keeps keeps (fun turn holds => ?_) (turnInvariant_init _ sentinel blank)
  rw [holds.alone]
  exact turn.flags.running.toNat_le

/-- If releases are timely, no message waits in the mailbox of an actor that nobody has. -/
theorem no_message_is_stranded (timely : EachStep turnStep Timely (.init sentinel blank) steps) :
    Throughout turnStep
      (fun turn : Turn Message => turn.Abandoned → turn.mailbox.accepted = turn.mailbox.delivered)
      (.init sentinel blank) steps := by
  refine timely.throughout (fun _ _ _ holds meets => holds.step fun _ => meets)
    (fun turn holds abandoned => ?_) (turnInvariant_init True sentinel blank)
  obtain ⟨_, waiting, linked⟩ := holds.mailbox.used holds.alive
  refine linked.accepted_eq_iff.mpr (linked.flagged ?_)
  have listed := holds.muted trivial
  have attended := holds.attended
  grind [Turn.Abandoned]

end

instance (turn : Turn Message) (label : TurnStep Message) : Decidable (Timely turn label) := by
  cases label <;> unfold Timely <;> infer_instance

theorem late_release_strands_nothing :
    Throughout turnStep
      (fun turn : Turn Unit => turn.Abandoned → turn.mailbox.accepted = turn.mailbox.delivered)
      (.init 0 ())
      [.exchange 1 (), .link, .schedule, .find, .claim ⟨true, false, false⟩ false, .enlist, .mute,
        .unmute, .release] :=
  no_message_is_stranded 0 () _ (by decide)

/-- An actor that is muted and in no list, with a message that waits. -/
structure Turn.Lost (turn : Turn Message) : Prop where
  muted : turn.flags.muted = true
  workers : turn.workers = []
  others : turn.queued + turn.wakers + turn.entries + turn.releases = 0
  alive : turn.mailbox.queue.destroyed = false
  flag : turn.mailbox.queue.emptyFlag = false
  waiting : turn.mailbox.delivered.length < turn.mailbox.accepted.length

/-- The actor sends to a full mailbox, and is released before it is muted. -/
def earlyRelease : List (TurnStep Unit) :=
  [.exchange 1 (), .link, .schedule, .find, .claim ⟨true, false, false⟩ false, .pop, .enlist,
    .unmute, .release, .mute, .exchange 2 (), .link, .requeue, .find,
    .unschedule (.parking ⟨true, true, false⟩), .recheck ⟨true, true, false⟩]

theorem Turn.Lost.step (lost : turn.Lost) (stepped : turnStep turn label = some after) :
    after.Lost := by
  obtain ⟨muted, workers, others, alive, flag, waiting⟩ := lost
  cases label with
  | exchange node message =>
    obtain ⟨later, exchanged, rfl⟩ := Option.map_eq_some_iff.mp stepped
    obtain rfl := mailboxStep_exchange exchanged alive
    have none : turn.wakers + ((turn.mailbox.exchange node message).wakes - turn.mailbox.wakes) =
        turn.wakers := by
      simp [Mailbox.exchange, flag]
    refine ⟨muted, workers, ?_, alive, ?_, ?_⟩
    · rw [none]
      exact others
    · simp [Mailbox.exchange, flag]
    · simp only [Mailbox.exchange, length_append]
      omega
  | link =>
    obtain ⟨later, linked, rfl⟩ := Option.map_eq_some_iff.mp stepped
    obtain ⟨_, _, rfl⟩ := Option.map_eq_some_iff.mp linked
    exact ⟨muted, workers, others, alive, flag, waiting⟩
  | unschedule phase => cases phase <;> simp [turnStep, Turn.advance, workers] at stepped
  | _ => simp [turnStep, Turn.advance, workers, muted] at stepped <;> omega

/-- A release before the muting can leave an actor muted for ever with a message. -/
theorem early_release_strands : ∃ turn, earlyRelease.foldlM turnStep (.init 0 ()) = some turn ∧
    ∀ steps, Throughout turnStep Turn.Lost turn steps := by
  refine ⟨_, rfl, fun steps => ?_⟩
  exact throughout_of_keeps (fun _ _ _ => Turn.Lost.step) (fun _ => id)
    ⟨rfl, rfl, rfl, rfl, rfl, by decide⟩

end Liboffs.Actor

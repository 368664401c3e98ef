import Liboffs.Library.Runs

/-!
# The mailbox of an actor

Any thread pushes messages, and the worker that runs the actor pops them.  A push holds the send
lock, exchanges the head for its node and then links the old head to it; in between the worker
does not reach the node.  The head carries a flag, which the worker sets when it has found the
queue empty.  The push that takes the flag away wakes the actor.

An atomic operation on the links or on the head is a step.  What a push does before its exchange
concerns only its own node and what the lock protects, and a failed exchange of the flag changes
nothing.  The allocator may give a freed node out again.  The counters of messages are left out.
-/

namespace Liboffs.Actor

open Function List Library.Runs

/-- The address of a `message_node_t`. -/
abbrev Node := Nat

/-- `message_queue_t` and the nodes; the lowest bit of the head is a field of its own. -/
structure MessageQueue (Message : Type) where
  message : Node → Message
  next : Node → Option Node
  head : Node
  emptyFlag : Bool
  tail : Node
  destroyed : Bool

/--
A mailbox with the nodes in use and the messages so far.  The push that has exchanged the head
has its node and the old head.
-/
structure Mailbox (Message : Type) where
  queue : MessageQueue Message
  push : Option (Node × Node)
  nodes : List Node
  accepted : List Message
  delivered : List Message
  discarded : List Message
  wakes : Nat
  marks : Nat

inductive MailboxStep (Message : Type) where
  | exchange (node : Node) (message : Message)
  | link
  | pop
  | markempty
  | destroy

variable {Message : Type}

/-- `message_queue_init`. -/
def messageQueueInit (sentinel : Node) (blank : Message) : MessageQueue Message where
  message := fun _ => blank
  next := fun _ => none
  head := sentinel
  emptyFlag := true
  tail := sentinel
  destroyed := false

/-- `message_queue_pop`; the old tail is freed. -/
def messageQueuePop (queue : MessageQueue Message) : Option (Node × MessageQueue Message) :=
  (queue.next queue.tail).map fun node => (node, { queue with tail := node })

/-- `message_queue_isempty`. -/
def messageQueueIsempty (queue : MessageQueue Message) : Bool :=
  queue.emptyFlag || queue.head == queue.tail

/-- The loop of `message_queue_destroy`, with the messages whose payloads it destroys. -/
def drainQueue : Nat → MessageQueue Message → List Message
  | 0, _ => []
  | pops + 1, queue =>
    match messageQueuePop queue with
    | none => []
    | some (node, rest) => queue.message node :: drainQueue pops rest

namespace Mailbox

/-- A mailbox after `message_queue_init`. -/
def init (sentinel : Node) (blank : Message) : Mailbox Message where
  queue := messageQueueInit sentinel blank
  push := none
  nodes := [sentinel]
  accepted := []
  delivered := []
  discarded := []
  wakes := 0
  marks := 0

/-- `message_queue_push` up to the exchange, which shows whether the flag was set. -/
def exchange (state : Mailbox Message) (node : Node) (message : Message) : Mailbox Message :=
  { state with
    queue := { state.queue with
      message := update state.queue.message node message
      next := update state.queue.next node none
      head := node
      emptyFlag := false }
    push := some (node, state.queue.head)
    nodes := state.nodes ++ [node]
    accepted := state.accepted ++ [message]
    wakes := state.wakes + state.queue.emptyFlag.toNat }

/-- The link from the old head, and the end of the push. -/
def link (state : Mailbox Message) (node prev : Node) : Mailbox Message :=
  { state with
    queue := { state.queue with next := update state.queue.next prev (some node) }
    push := none }

/-- A message is popped, and the old tail freed. -/
def take (state : Mailbox Message) (node : Node) (queue : MessageQueue Message) : Mailbox Message :=
  { state with
    queue
    nodes := state.nodes.erase state.queue.tail
    delivered := state.delivered ++ [queue.message node] }

end Mailbox

/--
The steps of `message_queue_push`, `message_queue_pop`, `message_queue_markempty` and
`message_queue_destroy`.  The worker has left a mailbox that is destroyed.
-/
def mailboxStep (state : Mailbox Message) : MailboxStep Message → Option (Mailbox Message)
  | .exchange node message =>
    if state.push.isSome then
      none
    else if state.queue.destroyed then
      -- The push frees its message and returns `false`.
      some state
    else if node ∈ state.nodes then
      none
    else
      some (state.exchange node message)
  | .link => state.push.map fun nodes => state.link nodes.1 nodes.2
  | .pop =>
    if state.queue.destroyed then
      none
    else
      match messageQueuePop state.queue with
      | none => some state
      | some (node, queue) => some (state.take node queue)
  | .markempty =>
    if state.queue.destroyed then
      none
    else if state.queue.emptyFlag || state.queue.head != state.queue.tail then
      some state
    else
      some { state with
        queue := { state.queue with emptyFlag := true }
        marks := state.marks + 1 }
  | .destroy =>
    if state.push.isSome || state.queue.destroyed then
      none
    else
      some { state with
        queue := { state.queue with destroyed := true }
        nodes := []
        discarded := drainQueue state.nodes.length state.queue }

/-- The links lead from a node through the nodes of a list, and end there. -/
def Path (next : Node → Option Node) : Node → List Node → Prop
  | node, [] => next node = none
  | node, later :: rest => next node = some later ∧ Path next later rest

/-- A link of a node elsewhere changes no path. -/
theorem Path.update (path : Path links first nodes) (outside : node ∉ first :: nodes)
    (target : Option Node) : Path (update links node target) first nodes := by
  induction nodes generalizing first with
  | nil => exact (update_of_ne (ne_of_not_mem_cons outside).symm _ _).trans path
  | cons later rest ih =>
    refine ⟨(update_of_ne (ne_of_not_mem_cons outside).symm _ _).trans path.1, ?_⟩
    exact ih path.2 (not_mem_of_not_mem_cons outside)

theorem getLastD_mem (first : Node) (nodes : List Node) :
    nodes.getLastD first ∈ first :: nodes := by
  cases nodes using List.reverseRecOn <;> simp

theorem Path.ends (path : Path links first nodes) : links (nodes.getLastD first) = none := by
  induction nodes generalizing first with
  | nil => exact path
  | cons later rest ih =>
    rw [getLastD_cons]
    exact ih path.2

/-- A link of the last node makes the path longer. -/
theorem Path.concat (path : Path links first nodes) (distinct : (first :: (nodes ++ [node])).Nodup)
    (ends : links node = none) :
    Path (Function.update links (nodes.getLastD first) (some node)) first (nodes ++ [node]) := by
  induction nodes generalizing first with
  | nil =>
    have other : node ≠ first := by
      rintro rfl
      simp at distinct
    exact ⟨update_self _ _ _, (update_of_ne other _ _).trans ends⟩
  | cons later rest ih =>
    obtain ⟨outside, distinct⟩ := nodup_cons.mp distinct
    have apart : first ≠ rest.getLastD later := by
      intro same
      exact outside (mem_append_left [node] (same ▸ getLastD_mem later rest))
    rw [getLastD_cons]
    exact ⟨(update_of_ne apart _ _).trans path.1, ih path.2 distinct⟩

theorem drainQueue_eq {queue : MessageQueue Message} (path : Path queue.next queue.tail waiting)
    (enough : waiting.length ≤ pops) : drainQueue pops queue = waiting.map queue.message := by
  induction waiting generalizing pops queue with
  | nil =>
    cases pops with
    | zero => rfl
    | succ pops =>
      rw [drainQueue, messageQueuePop, show queue.next queue.tail = none from path]
      rfl
  | cons node rest ih =>
    cases pops with
    | zero => cases enough
    | succ pops =>
      rw [drainQueue, messageQueuePop, path.1]
      refine congrArg (queue.message node :: ·) ?_
      exact ih path.2 (Nat.le_of_succ_le_succ enough)

/-- The node that the head names and no link reaches. -/
def Mailbox.unlinked (state : Mailbox Message) : List Node :=
  state.push.toList.map Prod.fst

/-- The nodes behind the tail, while the mailbox is in use. -/
structure Linked (state : Mailbox Message) (waiting : List Node) : Prop where
  path : Path state.queue.next state.queue.tail waiting
  nodes : state.nodes = state.queue.tail :: (waiting ++ state.unlinked)
  distinct : state.nodes.Nodup
  head : state.queue.head = (waiting ++ state.unlinked).getLastD state.queue.tail
  accepted : state.accepted = state.delivered ++ (waiting ++ state.unlinked).map state.queue.message
  flagged : state.queue.emptyFlag = true → state.queue.head = state.queue.tail
  push : ∀ node old, state.push = some (node, old) →
    old = waiting.getLastD state.queue.tail ∧ state.queue.next node = none

/-- What the steps keep. -/
structure MailboxInvariant (state : Mailbox Message) : Prop where
  handshake : state.wakes + state.queue.emptyFlag.toNat = state.marks + 1
  used : state.queue.destroyed = false → state.discarded = [] ∧ ∃ waiting, Linked state waiting
  drained : state.queue.destroyed = true →
    state.push = none ∧ state.accepted = state.delivered ++ state.discarded

variable {state after : Mailbox Message} {waiting : List Node}

namespace Linked

/-- The head is the tail exactly if no message waits. -/
theorem head_eq_tail_iff (linked : Linked state waiting) :
    state.queue.head = state.queue.tail ↔ waiting ++ state.unlinked = [] := by
  rw [linked.head]
  constructor
  · intro same
    by_contra more
    have among := getLast_mem more
    rw [getLastD_eq_getLast?, getLast?_eq_some_getLast more, Option.getD_some] at same
    have distinct := linked.distinct
    rw [linked.nodes, nodup_cons] at distinct
    exact distinct.1 (same ▸ among)
  · intro none
    rw [none, getLastD_nil]

theorem accepted_eq_iff (linked : Linked state waiting) :
    state.accepted = state.delivered ↔ state.queue.head = state.queue.tail := by
  rw [linked.accepted, append_right_eq_self, map_eq_nil_iff, linked.head_eq_tail_iff]

theorem exchange (linked : Linked state waiting) (free : state.push = none)
    (fresh : node ∉ state.nodes) (message : Message) :
    Linked (state.exchange node message) waiting := by
  have none : state.unlinked = [] := by rw [Mailbox.unlinked, free]; rfl
  obtain ⟨path, nodes, distinct, head, accepted, _, _⟩ := linked
  rw [none, append_nil] at nodes head accepted
  have outside : node ∉ state.queue.tail :: waiting := nodes ▸ fresh
  constructor
  · exact path.update outside .none
  · simp [Mailbox.exchange, Mailbox.unlinked, nodes]
  · refine nodup_append.mpr ⟨distinct, pairwise_singleton _ node, ?_⟩
    intro other among _ only
    exact mem_singleton.mp only ▸ ne_of_mem_of_not_mem among fresh
  · simp [Mailbox.exchange, Mailbox.unlinked]
  · have same : waiting.map (update state.queue.message node message) =
        waiting.map state.queue.message := by
      refine map_congr_left fun other among => ?_
      exact update_of_ne (ne_of_mem_of_not_mem (mem_cons_of_mem _ among) outside) _ _
    simp [Mailbox.exchange, Mailbox.unlinked, accepted, same]
  · nofun
  · rintro _ _ ⟨⟩
    exact ⟨head, update_self _ _ _⟩

theorem link (linked : Linked state waiting) (push : state.push = some (node, old)) :
    Linked (state.link node old) (waiting ++ [node]) := by
  have one : state.unlinked = [node] := by rw [Mailbox.unlinked, push]; rfl
  obtain ⟨path, nodes, distinct, head, accepted, flagged, pushed⟩ := linked
  obtain ⟨rfl, ends⟩ := pushed node old push
  rw [one] at nodes head accepted
  constructor
  · exact path.concat (nodes ▸ distinct) ends
  · simpa [Mailbox.link, Mailbox.unlinked] using nodes
  · exact distinct
  · simpa [Mailbox.link, Mailbox.unlinked] using head
  · simpa [Mailbox.link, Mailbox.unlinked] using accepted
  · exact flagged
  · nofun

theorem take (linked : Linked state (node :: waiting)) :
    Linked (state.take node { state.queue with tail := node }) waiting := by
  have distinct := linked.distinct
  rw [linked.nodes, nodup_cons] at distinct
  have rest : state.nodes.erase state.queue.tail = node :: (waiting ++ state.unlinked) := by
    rw [linked.nodes, erase_cons_head, cons_append]
  have head := linked.head
  rw [cons_append, getLastD_cons] at head
  constructor
  · exact linked.path.2
  · exact rest
  · change (state.nodes.erase state.queue.tail).Nodup
    exact rest ▸ distinct.2
  · exact head
  · simp [Mailbox.take, Mailbox.unlinked, linked.accepted]
  · intro flag
    cases linked.head_eq_tail_iff.mp (linked.flagged flag)
  · intro other old push
    have pushed := linked.push other old push
    rwa [getLastD_cons] at pushed

end Linked

/-- A step of the worker or of a push keeps the invariant. -/
theorem MailboxInvariant.step (holds : MailboxInvariant state)
    (stepped : mailboxStep state label = some after) : MailboxInvariant after := by
  obtain ⟨handshake, used, drained⟩ := holds
  cases label with
  | exchange node message =>
    simp only [mailboxStep] at stepped
    split at stepped
    · cases stepped
    · rename_i free
      split at stepped
      · cases stepped
        exact ⟨handshake, used, drained⟩
      · rename_i running
        split at stepped
        · cases stepped
        · rename_i fresh
          cases stepped
          obtain ⟨none, waiting, linked⟩ := used (Bool.eq_false_of_not_eq_true running)
          have exchanged := linked.exchange (Option.not_isSome_iff_eq_none.mp free) fresh message
          exact ⟨handshake, fun _ => ⟨none, waiting, exchanged⟩,
            fun destroyed => absurd destroyed running⟩
  | link =>
    simp only [mailboxStep, Option.map_eq_some_iff] at stepped
    obtain ⟨⟨node, old⟩, push, rfl⟩ := stepped
    refine ⟨handshake, fun running => ?_, fun destroyed => ⟨rfl, (drained destroyed).2⟩⟩
    obtain ⟨none, waiting, linked⟩ := used running
    exact ⟨none, _, linked.link push⟩
  | pop =>
    simp only [mailboxStep] at stepped
    split at stepped
    · cases stepped
    · rename_i running
      obtain ⟨none, waiting, linked⟩ := used (Bool.eq_false_of_not_eq_true running)
      cases waiting with
      | nil =>
        have last : state.queue.next state.queue.tail = .none := linked.path
        rw [messageQueuePop, last] at stepped
        cases stepped
        exact ⟨handshake, used, drained⟩
      | cons node waiting =>
        rw [messageQueuePop, linked.path.1] at stepped
        cases stepped
        exact ⟨handshake, fun _ => ⟨none, waiting, linked.take⟩,
          fun destroyed => absurd destroyed running⟩
  | markempty =>
    simp only [mailboxStep] at stepped
    split at stepped
    · cases stepped
    · rename_i running
      split at stepped
      · cases stepped
        exact ⟨handshake, used, drained⟩
      · rename_i empty
        rw [Bool.or_eq_true, bne_iff_ne, not_or, not_not, Bool.not_eq_true] at empty
        cases stepped
        obtain ⟨none, waiting, linked⟩ := used (Bool.eq_false_of_not_eq_true running)
        rw [empty.1] at handshake
        exact ⟨congrArg (· + 1) handshake,
          fun _ => ⟨none, waiting, { linked with flagged := fun _ => empty.2 }⟩,
          fun destroyed => absurd destroyed running⟩
  | destroy =>
    simp only [mailboxStep] at stepped
    split at stepped
    · cases stepped
    · rename_i free
      rw [Bool.or_eq_true, not_or, Option.not_isSome_iff_eq_none, Bool.not_eq_true] at free
      cases stepped
      obtain ⟨_, waiting, linked⟩ := used free.2
      refine ⟨handshake, nofun, fun _ => ⟨free.1, ?_⟩⟩
      have accepted := linked.accepted
      have enough : waiting.length ≤ state.nodes.length := by
        simp only [linked.nodes, length_cons, length_append]
        omega
      rw [Mailbox.unlinked, free.1] at accepted
      rw [drainQueue_eq linked.path enough, accepted]
      simp

theorem mailboxInvariant_init (sentinel : Node) (blank : Message) :
    MailboxInvariant (.init sentinel blank) := by
  refine ⟨rfl, fun _ => ⟨rfl, [], ?_⟩, nofun⟩
  exact ⟨rfl, rfl, pairwise_singleton _ _, rfl, rfl, fun _ => rfl, nofun⟩

/-- Messages come out once and in order, and the queue is seen empty when all have come out. -/
structure DeliversInOrder (state : Mailbox Message) : Prop where
  ordered : state.delivered ++ state.discarded <+: state.accepted
  drained : state.queue.destroyed = true → state.accepted = state.delivered ++ state.discarded
  isempty : state.queue.destroyed = false →
    (messageQueueIsempty state.queue = true ↔ state.accepted = state.delivered)
  popped : state.queue.destroyed = false → state.push = none →
    messageQueuePop state.queue = none → state.accepted = state.delivered

theorem MailboxInvariant.deliversInOrder (holds : MailboxInvariant state) :
    DeliversInOrder state := by
  obtain ⟨_, used, drained⟩ := holds
  refine ⟨?_, fun destroyed => (drained destroyed).2, fun running => ?_,
    fun running idle popped => ?_⟩
  · cases destroyed : state.queue.destroyed with
    | true => exact ⟨[], by rw [append_nil, (drained destroyed).2]⟩
    | false =>
      obtain ⟨none, waiting, linked⟩ := used destroyed
      rw [none, append_nil, linked.accepted]
      exact prefix_append _ _
  · obtain ⟨_, waiting, linked⟩ := used running
    rw [linked.accepted_eq_iff, messageQueueIsempty, Bool.or_eq_true, beq_iff_eq]
    exact or_iff_right_of_imp linked.flagged
  · obtain ⟨_, waiting, linked⟩ := used running
    rw [linked.accepted_eq_iff, linked.head_eq_tail_iff, Mailbox.unlinked, idle]
    cases waiting with
    | nil => rfl
    | cons node waiting =>
      rw [messageQueuePop, linked.path.1] at popped
      cases popped

variable (sentinel : Node) (blank : Message) (steps : List (MailboxStep Message))

/-- In every order of steps an accepted message is delivered once, in its turn. -/
theorem mailbox_delivers_in_order :
    Throughout mailboxStep DeliversInOrder (.init sentinel blank) steps :=
  throughout_of_keeps (fun _ _ _ => MailboxInvariant.step)
    (fun _ => MailboxInvariant.deliversInOrder) (mailboxInvariant_init sentinel blank)

/-- Nothing waits behind the flag, and a push wakes the actor for every time it was set. -/
structure WakesExactly (state : Mailbox Message) : Prop where
  flagged : state.queue.destroyed = false → state.queue.emptyFlag = true →
    state.accepted = state.delivered
  handshake : state.wakes + state.queue.emptyFlag.toNat = state.marks + 1

/-- In every order of steps no message is left to an actor that nobody wakes. -/
theorem mailbox_wakes_exactly :
    Throughout mailboxStep WakesExactly (.init sentinel blank) steps := by
  refine throughout_of_keeps (fun _ _ _ => MailboxInvariant.step) (fun state holds => ?_)
    (mailboxInvariant_init sentinel blank)
  refine ⟨fun running flag => ?_, holds.handshake⟩
  obtain ⟨_, waiting, linked⟩ := holds.used running
  exact linked.accepted_eq_iff.mpr (linked.flagged flag)

/-- The nodes that the steps read and write are in use, and each of them once. -/
structure TouchesUsedNodes (state : Mailbox Message) : Prop where
  distinct : state.nodes.Nodup
  ends : state.queue.tail ∈ state.nodes ∧ state.queue.head ∈ state.nodes
  linked : ∀ node old, state.push = some (node, old) →
    old ∈ state.nodes ∧ node ∈ state.nodes ∧ state.queue.next old = none

/-- In every order of steps no node is used after the worker has freed it. -/
theorem mailbox_uses_no_freed_node :
    Throughout mailboxStep
      (fun state : Mailbox Message => state.queue.destroyed = false → TouchesUsedNodes state)
      (.init sentinel blank) steps := by
  refine throughout_of_keeps (fun _ _ _ => MailboxInvariant.step) (fun state holds running => ?_)
    (mailboxInvariant_init sentinel blank)
  obtain ⟨_, waiting, linked⟩ := holds.used running
  refine ⟨linked.distinct, ?_, fun node old push => ?_⟩
  · rw [linked.head, linked.nodes]
    exact ⟨mem_cons_self, getLastD_mem _ _⟩
  · obtain ⟨rfl, _⟩ := linked.push node old push
    have one : state.unlinked = [node] := by rw [Mailbox.unlinked, push]; rfl
    have last : waiting.getLastD state.queue.tail ∈ state.queue.tail :: waiting :=
      getLastD_mem _ _
    rw [linked.nodes, one]
    refine ⟨mem_append_left [node] last, mem_cons_of_mem _ mem_concat_self, ?_⟩
    exact linked.path.ends

end Liboffs.Actor

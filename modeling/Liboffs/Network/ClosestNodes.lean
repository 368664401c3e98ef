import Liboffs.Network.Wire
import Mathlib.Data.List.Chain

/-!
# Closest nodes

A query for the nodes closest to a target walks from node to node with its path.  The node where
it ends answers the last node of the path, and every node is to pass the answer back, to the actor
that asked.

The answer starts with the whole path, and a node passes it on to the last node of the path that
it receives.  For the first node on the way back that is the node itself.
-/

namespace Liboffs.Network

open Library List Option

/-! ## Messages -/

/-- `CLOSEST_NODES_PENDING_MAX`. -/
def closestPendingMax : Nat := 32

/-- `CLOSEST_NODES_MAX_RING_SAMPLES`. -/
def maxRingSamples : Nat := 8

/-- `wire_closest_nodes_t`. -/
structure ClosestNodes where
  messageId : Nat
  senderId : NodeId
  targetId : NodeId
  count : Nat
  betaNumerator : Nat
  betaDenominator : Nat
  ttl : Nat
  visited : VisitedBloom
  path : List NodeId
  originalSource : NodeId
deriving DecidableEq

/-- `wire_closest_nodes_response_t`, with the ring samples as pairs. -/
structure ClosestNodesResponse where
  messageId : Nat
  senderId : NodeId
  targetId : NodeId
  found : Bool
  closest : NodeId
  closestLatencyUs : UInt32
  path : List NodeId
  ringSamples : List (NodeId × UInt32)
deriving DecidableEq

inductive ClosestMessage where
  | query (query : ClosestNodes)
  | response (response : ClosestNodesResponse)
deriving DecidableEq

/-- `network_closest_nodes_result_payload_t`. -/
structure ClosestNodesResult where
  found : Bool
  closest : NodeId
  closestLatencyUs : UInt32
  ringSamples : List (NodeId × UInt32)
deriving DecidableEq

/-- What a node sends to another one, or to an actor of its own. -/
inductive ClosestEffect where
  | toPeer (peer : NodeId) (message : ClosestMessage)
  | result (replyTo : ActorId) (result : ClosestNodesResult)
deriving DecidableEq

/-! ## A node -/

/-- `closest_nodes_pending_t`. -/
structure ClosestPending where
  messageId : Nat
  replyTo : ActorId

/-- The part of a node that serves these queries. -/
structure ClosestNode where
  localId : NodeId
  nextMessageId : Nat
  pending : List ClosestPending

/-- `closest_nodes_result_e` with the next hops. -/
inductive ClosestOutcome where
  | found
  | notFound
  | forwarding (hops : List NodeId)
  | ttlExpired
deriving DecidableEq

/--
What a node finds around it: peers, the outcome of `closest_nodes_execute`, latencies, ring
samples.
-/
structure ClosestSurroundings where
  connects : NodeId → Bool
  execute : ClosestNodes → ClosestOutcome
  latencyOf : NodeId → UInt32
  ringSamples : List (NodeId × UInt32)
  bitsOf : NodeId → List Nat

/-- `connection_manager_lookup` and `conn_state_send`. -/
def closestSend (around : ClosestSurroundings) (peer : NodeId)
    (message : ClosestMessage) : List ClosestEffect :=
  if around.connects peer then [.toPeer peer message] else []

/-- The answer of the node where a query ends. -/
def closestAnswer (node : ClosestNode) (around : ClosestSurroundings)
    (query : ClosestNodes) : ClosestNodesResponse :=
  if around.execute query = .found then
    { messageId := query.messageId
      senderId := node.localId
      targetId := query.targetId
      found := true
      closest := node.localId
      closestLatencyUs := around.latencyOf query.targetId
      path := query.path
      ringSamples := around.ringSamples.take maxRingSamples }
  else
    { messageId := query.messageId
      senderId := node.localId
      targetId := query.targetId
      found := false
      closest := 0
      closestLatencyUs := 0
      path := query.path
      ringSamples := [] }

def forwardedQuery (node : ClosestNode) (around : ClosestSurroundings)
    (query : ClosestNodes) : ClosestNodes :=
  { query with
    senderId := node.localId
    ttl := query.ttl - 1
    visited := findBlockAddVisited around.bitsOf query.visited node.localId
    path :=
      if query.path.length < maxPath then
        query.path ++ [node.localId]
      else
        query.path }

/-- `network_handle_closest_nodes`. -/
def handleClosestNodes (node : ClosestNode) (around : ClosestSurroundings)
    (query : ClosestNodes) : List ClosestEffect :=
  match around.execute query with
  | .forwarding hops =>
    hops.flatMap fun hop => closestSend around hop (.query (forwardedQuery node around query))
  | _ =>
    closestSend around (query.path.getLast?.getD query.originalSource)
      (.response (closestAnswer node around query))

/-- Remove the entry at an index; the last entry takes its place. -/
def swapRemove (pending : List ClosestPending) (index : Nat) : List ClosestPending :=
  match pending.getLast? with
  | some last => (pending.set index last).dropLast
  | none => []

/-- `network_closest_pending_remove`. -/
def closestPendingRemove (pending : List ClosestPending) (messageId : Nat) :
    Option (ClosestPending × List ClosestPending) :=
  match pending.findIdx? fun entry => entry.messageId == messageId with
  | some index => pending[index]?.map fun entry => (entry, swapRemove pending index)
  | none => none

/-- The result for an actor. -/
def resultOf (response : ClosestNodesResponse) : ClosestNodesResult where
  found := response.found
  closest := response.closest
  closestLatencyUs := response.closestLatencyUs
  ringSamples := response.ringSamples.take maxRingSamples

/-- `network_handle_closest_nodes_response`. -/
def handleClosestNodesResponse (node : ClosestNode) (around : ClosestSurroundings)
    (response : ClosestNodesResponse) : ClosestNode × List ClosestEffect :=
  match response.path.getLast? with
  | some nextHop =>
    (node, closestSend around nextHop (.response { response with path := response.path.dropLast }))
  | none =>
    match closestPendingRemove node.pending response.messageId with
    | some (entry, rest) =>
      ({ node with pending := rest }, [.result entry.replyTo (resultOf response)])
    | none => (node, [])

/-! ## Queries of the node itself -/

structure ClosestRequest where
  targetId : NodeId
  count : Nat
  betaNumerator : Nat
  betaDenominator : Nat
  replyTo : ActorId

def localQuery (node : ClosestNode) (around : ClosestSurroundings)
    (request : ClosestRequest) : ClosestNodes where
  messageId := node.nextMessageId
  senderId := node.localId
  targetId := request.targetId
  count := request.count
  betaNumerator := request.betaNumerator
  betaDenominator := request.betaDenominator
  ttl := forwardTtl
  visited := findBlockAddVisited around.bitsOf VisitedBloom.empty node.localId
  path := [node.localId]
  originalSource := node.localId

/-- The place of the oldest entry. -/
def oldestPending : List ClosestPending → Nat
  | [] => 0
  | entry :: rest =>
    match rest[oldestPending rest]? with
    | some oldest =>
      if oldest.messageId < entry.messageId then
        oldestPending rest + 1
      else
        0
    | none => 0

/-- A negative result. -/
def closestNotFound : ClosestNodesResult :=
  ⟨false, 0, 0, []⟩

/-- `network_closest_pending_add`; a full table loses its oldest entry. -/
def closestPendingAdd (pending : List ClosestPending)
    (added : ClosestPending) : List ClosestPending × List ClosestEffect :=
  if closestPendingMax ≤ pending.length then
    let oldest := oldestPending pending
    (pending.set oldest added,
      match pending[oldest]? with
      | some evicted => [.result evicted.replyTo closestNotFound]
      | none => [])
  else
    (pending ++ [added], [])

/-- `network_handle_local_closest_nodes`. -/
def handleLocalClosestNodes (node : ClosestNode)
    (around : ClosestSurroundings) (request : ClosestRequest) : ClosestNode × List ClosestEffect :=
  let query := localQuery node around request
  let next := { node with nextMessageId := node.nextMessageId + 1 }
  match around.execute query with
  | .found =>
    (next,
      [.result request.replyTo ⟨true, node.localId, 0, around.ringSamples.take maxRingSamples⟩])
  | .forwarding hops =>
    let added := closestPendingAdd node.pending ⟨query.messageId, request.replyTo⟩
    ({ next with pending := added.1 },
      added.2 ++ hops.flatMap fun hop => closestSend around hop (.query query))
  | _ => (next, [.result request.replyTo closestNotFound])

/-! ## Nodes and messages on their way -/

/-- The nodes of a network, with what each finds around it. -/
structure ClosestWorld where
  nodes : NodeId → ClosestNode
  around : NodeId → ClosestSurroundings

/-- A message with the node that it is sent to. -/
abbrev Flight := NodeId × ClosestMessage

/-- The messages to other nodes. -/
def flightsOf (effects : List ClosestEffect) : List Flight :=
  effects.filterMap fun
    | .toPeer peer message => some (peer, message)
    | .result _ _ => none

def resultsOf (effects : List ClosestEffect) : List (ActorId × ClosestNodesResult) :=
  effects.filterMap fun
    | .toPeer _ _ => none
    | .result replyTo result => some (replyTo, result)

/-- A message arrives. -/
def ClosestWorld.deliver (world : ClosestWorld) (flight : Flight) :
    ClosestWorld × List ClosestEffect :=
  let node := world.nodes flight.1
  let around := world.around flight.1
  match flight.2 with
  | .query query => (world, handleClosestNodes node around query)
  | .response response =>
    let handled := handleClosestNodesResponse node around response
    ({ world with nodes := Function.update world.nodes flight.1 handled.1 }, handled.2)

/-- All messages are delivered, with a bound on their number; the results of actors. -/
def settle : Nat → ClosestWorld → List Flight → Option (List (ActorId × ClosestNodesResult))
  | _, _, [] => some []
  | 0, _, _ :: _ => none
  | bound + 1, world, flight :: rest =>
    let delivered := world.deliver flight
    (settle bound delivered.1 (rest ++ flightsOf delivered.2)).map
      fun later => resultsOf delivered.2 ++ later

/-- A query was forwarded along a chain of nodes as they were, and sent to a node. -/
inductive Forwarded : List NodeId → ClosestNodes → NodeId → Prop where
  | start {node : ClosestNode} {around : ClosestSurroundings}
      {request : ClosestRequest} {query : ClosestNodes} {receiver : NodeId}
      (sent : ClosestEffect.toPeer receiver (.query query) ∈
        (handleLocalClosestNodes node around request).2) :
      Forwarded [node.localId] query receiver
  | forward {chain : List NodeId} {query next : ClosestNodes}
      {node : ClosestNode} {around : ClosestSurroundings}
      {receiver : NodeId}
      (earlier : Forwarded chain query node.localId)
      (sent : ClosestEffect.toPeer receiver (.query next) ∈ handleClosestNodes node around query) :
      Forwarded (chain ++ [node.localId]) next receiver

/-- Once all messages are delivered, the actor has the answer of a node. -/
def Answered (world : ClosestWorld) (terminal : NodeId)
    (query : ClosestNodes) (replyTo : ActorId) : Prop :=
  ∃ bound results,
    settle bound world [(terminal, .query query)] = some results ∧ (replyTo,
        resultOf (closestAnswer (world.nodes terminal) (world.around terminal) query)) ∈ results

/-! ## The path of a query -/

variable {around : ClosestSurroundings}

theorem toPeer_mem_closestSend (member : ClosestEffect.toPeer receiver sent ∈
      closestSend around peer message) : sent = message := by
  simp only [closestSend] at member
  split at member
  · simp only [mem_singleton, ClosestEffect.toPeer.injEq] at member
    exact member.2
  · cases member

variable {query : ClosestNodes}

/-- The first query has the origin as its path. -/
theorem path_of_handleLocalClosestNodes (sent : ClosestEffect.toPeer receiver (.query query) ∈
      (handleLocalClosestNodes node around request).2) : query.path = [node.localId] := by
  simp only [handleLocalClosestNodes] at sent
  split at sent
  · simp at sent
  · rcases mem_append.mp sent with evicted | sent
    · simp only [closestPendingAdd] at evicted
      split at evicted
      · split at evicted <;> simp at evicted
      · cases evicted
    · rcases mem_flatMap.mp sent with ⟨hop, _, member⟩
      cases toPeer_mem_closestSend member
      rfl
  · simp at sent

theorem Forwarded.path (forwarded : Forwarded chain query receiver)
    (short : chain.length ≤ maxPath) : query.path = chain := by
  induction forwarded with
  | start sent => exact path_of_handleLocalClosestNodes sent
  | @forward chain query next node around receiver earlier sent ih =>
    rw [length_append, length_singleton] at short
    have before := ih (Nat.le_of_succ_le short)
    have same : next = forwardedQuery node around query := by
      simp only [handleClosestNodes] at sent
      split at sent
      · rcases mem_flatMap.mp sent with ⟨hop, _, member⟩
        cases toPeer_mem_closestSend member
        rfl
      · cases toPeer_mem_closestSend sent
    rw [same]
    simp only [forwardedQuery, before]
    exact if_pos short

/-! ## The way back -/

section
variable {world : ClosestWorld}

/-- A response with a path changes nothing where it arrives. -/
theorem deliver_response_append (receiver nextHop : NodeId) (front : List NodeId)
    (response : ClosestNodesResponse) (path : response.path = front ++ [nextHop]) :
    world.deliver (receiver, .response response) = (world,
        closestSend (world.around receiver) nextHop
          (.response { response with path := front })) := by
  simp [ClosestWorld.deliver, handleClosestNodesResponse, path]

/-- A response that is passed on from node to node reaches the origin. -/
theorem settle_response (front : List NodeId) (receiver origin : NodeId)
    (response : ClosestNodesResponse) (path : response.path = front)
    (linked : (front ++ [receiver]).IsChain fun earlier later =>
      (world.around later).connects earlier = true)
    (first : (front ++ [receiver]).head? = some origin)
    (waiting : closestPendingRemove (world.nodes origin).pending
      response.messageId = some (entry, rest)) :
    settle (front.length + 1) world [(receiver, .response response)] =
      some [(entry.replyTo, resultOf response)] := by
  induction front using List.reverseRecOn generalizing receiver response with
  | nil =>
    cases first
    simp [settle, ClosestWorld.deliver, handleClosestNodesResponse, path,
      waiting, flightsOf, resultsOf]
  | append_singleton front last ih =>
    rw [append_assoc, singleton_append, isChain_append_cons_cons] at linked
    rcases linked with ⟨before, connected, _⟩
    have origins : (front ++ [last]).head? = some origin := by
      cases front with
      | nil | cons => exact first
    rw [length_append, length_singleton, settle,
      deliver_response_append receiver last front response path]
    simp only [closestSend, if_pos connected, flightsOf, resultsOf,
      filterMap_cons, filterMap_nil, nil_append]
    rw [ih last { response with path := front } rfl before origins waiting]
    rfl

/-- A node that is not its own peer does not pass an answer on. -/
theorem settle_response_to_self (front : List NodeId) (receiver : NodeId)
    (response : ClosestNodesResponse) (path : response.path = front ++ [receiver])
    (alone : (world.around receiver).connects receiver = false)
    (settled : settle bound world [(receiver, .response response)] =
      some results) : results = [] := by
  cases bound with
  | zero => cases settled
  | succ bound =>
    rw [settle, deliver_response_append receiver receiver front response path] at settled
    simp only [closestSend, alone, reduceCtorEq, if_false, flightsOf,
      resultsOf, filterMap_nil, append_nil, settle, map_some, Option.some.injEq] at settled
    exact settled.symm

end

/-! ## The answer -/

section
variable {world : ClosestWorld} {query : ClosestNodes}
  {terminal last : NodeId} {front : List NodeId}

theorem deliver_query (path : query.path = front ++ [last])
    (ends : ∀ hops, (world.around terminal).execute query ≠ .forwarding hops)
    (connected : (world.around terminal).connects last = true) :
    world.deliver (terminal, .query query) = (world, [.toPeer last (.response
            (closestAnswer (world.nodes terminal) (world.around terminal) query))]) := by
  simp only [ClosestWorld.deliver, handleClosestNodes]
  cases outcome : (world.around terminal).execute query with
  | forwarding hops => exact absurd outcome (ends hops)
  | found | notFound | ttlExpired => simp [path, closestSend, connected]

end

/--
The answer to a forwarded query reaches the actor that asked exactly if the last node is connected
to itself.
-/
theorem closest_answer_reaches_asker_iff {chain : List NodeId} {query : ClosestNodes}
    {terminal : NodeId} (forwarded : Forwarded chain query terminal)
    (short : chain.length ≤ maxPath) (world : ClosestWorld)
    (linked : (chain ++ [terminal]).IsChain fun earlier later =>
      (world.around earlier).connects later = true ∧ (world.around later).connects earlier = true)
    (ends : ∀ hops, (world.around terminal).execute query ≠ .forwarding hops) {origin last : NodeId}
    (first : chain.head? = some origin) (final : chain.getLast? = some last)
    {entry : ClosestPending} {rest : List ClosestPending}
    (waiting : closestPendingRemove (world.nodes origin).pending
      query.messageId = some (entry, rest)) :
    Answered world terminal query entry.replyTo ↔ (world.around last).connects last = true := by
  have path := forwarded.path short
  rcases getLast?_eq_some_iff.mp final with ⟨front, rfl⟩
  have back := linked.imp fun _ _ both => both.2
  rw [append_assoc, singleton_append, isChain_append_cons_cons] at back
  rcases back with ⟨before, connected, _⟩
  have asked := deliver_query path ends connected
  let answer := closestAnswer (world.nodes terminal) (world.around terminal) query
  have answerPath : answer.path = front ++ [last] := by
    rw [← path]
    simp only [answer, closestAnswer]
    split <;> rfl
  have answerWaiting : closestPendingRemove (world.nodes origin).pending
      answer.messageId = some (entry, rest) := by
    rw [← waiting]
    simp only [answer, closestAnswer]
    split <;> rfl
  constructor
  · rintro ⟨bound, results, settled, member⟩
    cases bound with
    | zero => cases settled
    | succ bound =>
      rw [settle, asked] at settled
      simp only [flightsOf, resultsOf, filterMap_cons,
        filterMap_nil, nil_append, Option.map_id'] at settled
      by_contra alone
      rw [Bool.not_eq_true] at alone
      have nothing := settle_response_to_self front last answer answerPath alone settled
      rw [nothing] at member
      cases member
  · intro self
    have again : (front ++ [last] ++ [last]).IsChain fun earlier later =>
        (world.around later).connects earlier = true := by
      rw [append_assoc, singleton_append, isChain_append_cons_cons]
      exact ⟨before, self, isChain_singleton _⟩
    have origins : (front ++ [last] ++ [last]).head? = some origin := by
      cases front with
      | nil | cons => exact first
    have delivered := settle_response (front ++ [last]) last origin answer
      answerPath again origins answerWaiting
    refine ⟨(front ++ [last]).length + 1 + 1,
      [(entry.replyTo, resultOf answer)], ?_, mem_singleton.mpr rfl⟩
    rw [settle, asked]
    simp only [flightsOf, resultsOf, filterMap_cons, filterMap_nil, nil_append, Option.map_id']
    exact delivered

/-! ## Two nodes -/

/-- A node that asks and a node that answers. -/
def pairAround (selfConnected : Bool) (node : NodeId) : ClosestSurroundings where
  connects := fun peer => selfConnected || peer != node
  execute := fun _ => if node = 1 then .forwarding [2] else .found
  latencyOf := fun _ => 0
  ringSamples := []
  bitsOf := fun visited => [visited]

/-- The query of the first node. -/
def pairQuery (selfConnected : Bool) : ClosestNodes :=
  localQuery ⟨1, 5, []⟩ (pairAround selfConnected 1) ⟨9, 1, 1, 2, .stream 0⟩

/-- The two nodes while the first one waits. -/
def pairWorld (selfConnected : Bool) : ClosestWorld where
  nodes := fun node => ⟨node, 6, [⟨5, .stream 0⟩]⟩
  around := pairAround selfConnected

theorem forwarded_pairQuery : Forwarded [1] (pairQuery selfConnected) 2 := by
  apply @Forwarded.start ⟨1, 5, []⟩ (pairAround selfConnected 1) ⟨9, 1, 1, 2, .stream 0⟩
  cases selfConnected <;> decide

/-- The first node gets its answer where it is connected to itself. -/
theorem closest_answer_reaches_self_connected_asker :
    Answered (pairWorld true) 2 (pairQuery true) (.stream 0) := by
  have waiting : closestPendingRemove ((pairWorld true).nodes 1).pending
      (pairQuery true).messageId = some (⟨5, .stream 0⟩, []) := rfl
  apply (closest_answer_reaches_asker_iff forwarded_pairQuery
    (by decide) (pairWorld true) ?_ ?_ rfl rfl waiting).mpr rfl
  · exact isChain_pair.mpr ⟨rfl, rfl⟩
  · nofun

/-- Two connected nodes, of which the second answers in vain. -/
theorem closest_answer_is_dropped :
    Forwarded [1] (pairQuery false) 2 ∧ ([1, 2] : List NodeId).IsChain (fun earlier later =>
        ((pairWorld false).around earlier).connects later = true ∧
          ((pairWorld false).around later).connects earlier = true) ∧
      closestPendingRemove ((pairWorld false).nodes 1).pending
        (pairQuery false).messageId = some (⟨5, .stream 0⟩, []) ∧
      ¬ Answered (pairWorld false) 2 (pairQuery false) (.stream 0) := by
  refine ⟨forwarded_pairQuery, ?_, rfl, ?_⟩
  · exact isChain_pair.mpr ⟨rfl, rfl⟩
  · have ends : ∀ hops, ((pairWorld false).around 2).execute (pairQuery false) ≠
          .forwarding hops := nofun
    have path : (pairQuery false).path = [] ++ [1] := rfl
    have asked := deliver_query path ends rfl
    rintro ⟨bound, results, settled, member⟩
    cases bound with
    | zero => cases settled
    | succ bound =>
      rw [settle, asked] at settled
      simp only [flightsOf, resultsOf, filterMap_cons,
        filterMap_nil, nil_append, Option.map_id'] at settled
      have nothing := settle_response_to_self [] 1 _ rfl rfl settled
      rw [nothing] at member
      cases member

end Liboffs.Network

import Liboffs.BlockCache.Cache

/-!
# Stores between nodes

A store walks from node to node with the path that it has taken and carries
the bytes of the block; its answer goes back along the path.  The next hops are
chosen among the nodes that it has not visited.
-/

namespace Liboffs.Network

open Library.ByteOrder
open BlockCache (Hash Block)

/-- `node_id_t`. -/
abbrev NodeId := Nat

/-- The actors that may wait for an answer of the network. -/
inductive ActorId where
  | network
  | respiration
  | stream (number : Nat)
deriving DecidableEq

/-- `FIND_BLOCK_MAX_PATH`, which is also `WIRE_MAX_PATH`. -/
def maxPath : Nat := 6

/-- `FORWARD_TTL`. -/
def forwardTtl : Nat := 6

/-- `FIND_BLOCK_FORWARD_FANOUT`. -/
def findFanout : Nat := 3

/-- `STORE_BLOCK_MAX_HOPS`. -/
def storeMaxHops : Nat := 6

/-- The filter of the nodes that a message has visited. -/
structure VisitedBloom where
  bits : List Nat
  count : UInt16
deriving DecidableEq

/-- A filter in which nothing has been entered. -/
def VisitedBloom.empty : VisitedBloom := ⟨[], 0⟩

/-- Enter a node into the filter. -/
def findBlockAddVisited (bitsOf : NodeId → List Nat) (bloom : VisitedBloom)
    (node : NodeId) : VisitedBloom :=
  ⟨bitsOf node ++ bloom.bits, bloom.count + 1⟩

/-- Whether the filter has a node, or takes another one for it. -/
def findBlockIsVisited (bitsOf : NodeId → List Nat) (bloom : VisitedBloom) (node : NodeId) : Bool :=
  bloom.count != 0 && (bitsOf node).all fun bit => bloom.bits.contains bit

/-- `wire_store_block_t`; no data is the empty list. -/
structure StoreBlock where
  messageId : Nat
  blockHash : Hash
  blockSize : Nat
  blockFib : UInt32
  replicasNeeded : Nat
  maxHops : Nat
  visited : VisitedBloom
  path : List NodeId
  carryData : Bool
  blockData : Bytes

/-- `wire_store_block_response_t`. -/
structure StoreBlockResponse where
  messageId : Nat
  accepted : Bool
  holder : NodeId
  replicasRemaining : Nat
  path : List NodeId
  blockHash : Hash

/-- The messages that the handling of a store sends. -/
inductive WireMessage where
  | storeBlock (store : StoreBlock)
  | storeBlockResponse (response : StoreBlockResponse)

/--
What a node knows for a choice of next hops: connected peers that advertise a hash, usable nodes
whose filters have it, other usable nodes, and the random choice.
-/
structure Routing where
  topicPeers : Hash → List NodeId
  gravityWells : Hash → List NodeId
  ringNodes : List NodeId
  roulette : List NodeId → List NodeId
  roulette_subset : ∀ candidates, roulette candidates ⊆ candidates
  roulette_length : ∀ candidates, (roulette candidates).length ≤ findFanout

/-- A node that the message has not visited. -/
def eligible (bitsOf : NodeId → List Nat) (path : List NodeId)
    (visited : VisitedBloom) (node : NodeId) : Bool :=
  !path.contains node && !findBlockIsVisited bitsOf visited node

/-- `store_block_result_e` with the next hops. -/
inductive StoreBlockOutcome where
  | accepted
  | declined
  | forwarding (hops : List NodeId)
  | maxHopsReached
deriving DecidableEq

/-- The next hops that `store_block_execute` leaves behind. -/
def StoreBlockOutcome.hops : StoreBlockOutcome → List NodeId
  | .forwarding hops => hops
  | _ => []

/--
`store_block_should_accept`, with the phase, the capacity in per cent and the
outcome of the roll.
-/
def storeBlockShouldAccept (exhaling : Bool) (capacity : Nat) (roll : Bool) : Bool :=
  !exhaling && decide (capacity < 80) && roll

/-- Accept a store, or choose the next hops: a peer, a node whose filter has the hash, or others. -/
def storeBlockExecute (routing : Routing) (bitsOf : NodeId → List Nat)
    (accepts : Bool) (state : StoreBlock) : StoreBlockOutcome :=
  let usable := eligible bitsOf state.path state.visited
  if accepts then
    .accepted
  else if state.maxHops = 0 then
    .maxHopsReached
  else
    match (routing.topicPeers state.blockHash).find? usable with
    | some peer => .forwarding [peer]
    | none =>
      match (routing.gravityWells state.blockHash).find? usable with
      | some node => .forwarding [node]
      | none =>
        match routing.roulette (routing.ringNodes.filter usable) with
        | hop :: hops => .forwarding (hop :: hops)
        | [] => .declined

end Liboffs.Network

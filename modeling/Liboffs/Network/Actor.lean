import Liboffs.Network.Wire

/-!
# The network actor

The network actor handles the stores that peers send.  The wanted list has one entry for each hash
that the node searches, with the actors that wait for it; a store that is accepted answers them.

The handler gives the new state and what is sent.  What the node finds around it is given with the
message: its capacity, its peers and routing tables, and random choices.
-/

namespace Liboffs.Network

open Library.ByteOrder
open BlockCache (Hash Block blockCreateExistingDataHash)

/-- `wanted_entry_t`; a deadline of zero is none. -/
structure WantedEntry where
  hash : Hash
  requesters : List ActorId
  deadlineMs : Nat
  messageId : Nat
  verifyOnly : Bool
  fanoutCount : UInt8
  notFoundCount : UInt8

/-- `wanted_list_t`. -/
structure WantedList where
  entries : List WantedEntry
  entryCount : Nat

/-- A list without entries. -/
def wantedListCreate : WantedList := ⟨[], 0⟩

/-- Take the first entry of a hash out, with its requesters. -/
def removeEntry (hash : Hash) : List WantedEntry → Option (List ActorId × List WantedEntry)
  | [] => none
  | entry :: rest =>
    if entry.hash = hash then
      some (entry.requesters, rest)
    else
      (removeEntry hash rest).map fun found => (found.1, entry :: found.2)

/-- Take a hash off the list; its requesters are to be told. -/
def wantedListRemove (list : WantedList) (hash : Hash) : List ActorId × WantedList :=
  match removeEntry hash list.entries with
  | some (requesters, entries) => (requesters, ⟨entries, list.entryCount - 1⟩)
  | none => ([], list)

/-- The part of `network_t` that decides about blocks. -/
structure NetworkState where
  localId : NodeId
  nextMessageId : Nat
  wantedList : WantedList

/-- `network_create`. -/
def networkCreate (localId : NodeId) (nextMessageId : Nat) : NetworkState :=
  ⟨localId, nextMessageId, wantedListCreate⟩

/-- What a node finds around it when it handles a message. -/
structure Surroundings where
  capacity : Nat
  exhaling : Bool
  roll : Bool
  peers : List NodeId
  sends : NodeId → Bool
  bitsOf : NodeId → List Nat
  storeRouting : Routing
  wants : Hash → NodeId → Bool
  hashData : Bytes → Hash

/-- `store_block_should_accept` of the node itself. -/
def Surroundings.shouldAccept (around : Surroundings) : Bool :=
  storeBlockShouldAccept around.exhaling around.capacity around.roll

/--
The block of received data: `network_verify_and_penalize_bad_block` and
`block_create_existing_data_hash_by_type`.
-/
def Surroundings.receivedBlock (around : Surroundings) (data : Bytes)
    (hash : Hash) : Option Block :=
  if data ≠ [] ∧ around.hashData data = hash then
    blockCreateExistingDataHash data hash
  else
    none

/-- What the actor sends: to a peer, to the cache, or to an actor that searches. -/
inductive Effect where
  | toPeer (peer : NodeId) (message : WireMessage)
  | cachePut (block : Block) (fib : UInt32)
  | findBlockResult (requester : ActorId) (hash : Hash) (found : Bool)
      (block : Option Block)

/-- `connection_manager_lookup` and `conn_state_send`. -/
def sendTo (around : Surroundings) (peer : NodeId) (message : WireMessage) : List Effect :=
  if around.sends peer then [.toPeer peer message] else []

/-- One message for each of some peers. -/
def sendToAll (around : Surroundings) (peers : List NodeId) (message : WireMessage) : List Effect :=
  peers.flatMap fun peer => sendTo around peer message

/-- Tell the actors that wait for a hash. -/
def notifyRequesters (hash : Hash) (found : Bool) (block : Option Block)
    (requesters : List ActorId) : List Effect :=
  requesters.map fun requester => .findBlockResult requester hash found block

/-- Enter a node into a path that has room. -/
def extendPath (path : List NodeId) (node : NodeId) : List NodeId :=
  if path.length < maxPath then path ++ [node] else path

/-- End the search for a hash. -/
def answerSearch (network : NetworkState) (hash : Hash) (found : Bool)
    (block : Option Block) : NetworkState × List Effect :=
  let removed := wantedListRemove network.wantedList hash
  ({ network with wantedList := removed.2 }, notifyRequesters hash found block removed.1)

/-- The number of the next message is used up. -/
def NetworkState.withNextMessageId (network : NetworkState) : NetworkState :=
  { network with nextMessageId := network.nextMessageId + 1 }

/-- Send a block to the peers that want it, but for the one it came from. -/
def deliverToInterestedPeers (network : NetworkState) (around : Surroundings)
    (hash : Hash) (block : Block) (exclude : Option NodeId) : NetworkState × List Effect :=
  (network.withNextMessageId,
    sendToAll around (around.peers.filter fun peer =>
        some peer != exclude && around.wants hash peer)
      (.storeBlock
        { messageId := network.nextMessageId
          blockHash := hash
          blockSize := block.data.length
          blockFib := 1
          replicasNeeded := 0
          maxHops := 0
          visited := VisitedBloom.empty
          path := [network.localId]
          carryData := true
          blockData := block.data }))

/-- The node that the store comes from. -/
def StoreBlock.predecessor (store : StoreBlock) : NodeId :=
  store.path.getLast?.getD 0

/-- `STORE_BLOCK_ACCEPTED` in `network_handle_store_block`. -/
def handleStoreAccepted (network : NetworkState) (around : Surroundings)
    (store : StoreBlock) (path hops : List NodeId) : NetworkState × List Effect :=
  let block := around.receivedBlock store.blockData store.blockHash
  let delivered :=
    match block with
    | some block =>
      let sent := deliverToInterestedPeers network around store.blockHash block store.path.getLast?
      (sent.1, Effect.cachePut block store.blockFib :: sent.2)
    | none => (network, [])
  let forwarded :=
    if 1 < store.replicasNeeded then
      sendToAll around hops (.storeBlock
        { store with
          replicasNeeded := store.replicasNeeded - 1
          path
          blockData := if store.carryData then store.blockData else [] })
    else
      []
  let answered := answerSearch delivered.1 store.blockHash true block
  (answered.1,
    delivered.2 ++ forwarded ++ answered.2 ++ sendTo around store.predecessor (.storeBlockResponse
          { messageId := store.messageId
            accepted := true
            holder := network.localId
            replicasRemaining := store.replicasNeeded - 1
            path := extendPath path network.localId
            blockHash := store.blockHash }))

/-- The store as it goes on to the next hops. -/
def forwardedStore (network : NetworkState) (around : Surroundings)
    (store : StoreBlock) (path : List NodeId) : StoreBlock :=
  { store with
    maxHops := store.maxHops - 1
    visited := findBlockAddVisited around.bitsOf store.visited network.localId
    path := extendPath path network.localId
    blockData := if store.carryData then store.blockData else [] }

/-- `network_handle_store_block`. -/
def handleStoreBlock (network : NetworkState) (around : Surroundings)
    (store : StoreBlock) : NetworkState × List Effect :=
  let path := store.path.take storeMaxHops
  let outcome :=
    storeBlockExecute around.storeRouting around.bitsOf around.shouldAccept { store with path }
  match outcome with
  | .accepted => handleStoreAccepted network around store path outcome.hops
  | .forwarding hops =>
    (network, sendToAll around hops (.storeBlock (forwardedStore network around store path)))
  | _ =>
    (network,
      sendTo around store.predecessor (.storeBlockResponse
          { messageId := store.messageId
            accepted := false
            holder := network.localId
            replicasRemaining := 0
            path := []
            blockHash := store.blockHash }))

end Liboffs.Network

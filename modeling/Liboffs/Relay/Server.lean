import Liboffs.Library.Runs
import Liboffs.Network.StreamFramer

/-!
# The relay server

Clients that cannot reach each other connect to a relay.  Each gets an endpoint number and opens
one stream; a frame asks for the address that the relay sees, or names an endpoint and a payload
to pass on.

The calls of one connection come in order, those of different connections in any order, and the
table of clients is locked for each call and frame.
-/

namespace Liboffs.Relay

open Library.ByteOrder Network

/-! ## Frames -/

inductive RelayFrame where
  | addrRequest (messageId : Nat)
  | relaySend (srcEndpointId destEndpointId : UInt32) (payload : Bytes)
  | malformed

/-- `QUIC_PARAM_CONN_REMOTE_ADDRESS` with its port. -/
inductive RemoteAddress where
  | inet (address : UInt32) (port : UInt16)
  | inet6 (address : Bytes) (port : UInt16)

/-- `wire_addr_response_t`. -/
structure AddrResponse where
  messageId : Nat
  endpointId : UInt32
  reflexiveAddr : UInt32
  reflexivePort : UInt16
  reflexive6 : Option Bytes
deriving DecidableEq

inductive RelayMessage where
  | addrResponse (response : AddrResponse)
  | relayReceived (srcEndpointId : UInt32) (payload : Bytes)
deriving DecidableEq

/-- How frames are read, and how long the messages become. -/
structure RelayCodec where
  decode : Bytes → RelayFrame
  encodedSize : RelayMessage → Nat

/-! ## The clients -/

/-- `RELAY_MAX_CLIENTS`. -/
def relayMaxClients : Nat := 256

/-- `relay_client_entry_t`, with the handles of the transport as numbers. -/
structure RelayClient where
  endpointId : UInt32
  connection : Option Nat
  stream : Option Nat
  framer : Option StreamFramer
  active : Bool

/-- An entry that is not used. -/
def RelayClient.blank : RelayClient :=
  ⟨0, none, none, none, false⟩

/-- `relay_server_t`. -/
structure RelayServer where
  clients : List RelayClient
  numClients : Nat
  nextEndpointId : UInt32

/-- `relay_server_create`. -/
def relayServerCreate : RelayServer :=
  ⟨List.replicate relayMaxClients RelayClient.blank, 0, 1⟩

/-- `_relay_find_client_by_endpoint`. -/
def relayFindClientByEndpoint (server : RelayServer) (endpointId : UInt32) : Option RelayClient :=
  server.clients.find? fun client => client.active && client.endpointId == endpointId

/-- The entry is that of a live connection. -/
def RelayClient.serves (connection : Nat) (client : RelayClient) : Bool :=
  client.active && client.connection == some connection

/-! ## Messages -/

/-- `StreamSend`; no stream is the null handle. -/
structure Write where
  stream : Option Nat
  message : RelayMessage
deriving DecidableEq

/-- `_relay_send_on_stream`. -/
def relaySendOnStream (codec : RelayCodec) (stream : Option Nat)
    (message : RelayMessage) : List Write :=
  if codec.encodedSize message ≤ maxFrameSize then
    [⟨stream, message⟩]
  else
    []

/-- A version 6 address that stands for one of version 4. -/
def mappedAddress (address : Bytes) : Option UInt32 :=
  if address.take 12 = [0, 0, 0, 0, 0, 0, 0, 0, 0, 0, 0xFF, 0xFF] then
    some (UInt32.ofNat (ofBigEndian (address.drop 12)))
  else
    none

/-- `_relay_handle_addr_request`; the transport may not know the address. -/
def relayHandleAddrRequest (codec : RelayCodec) (client : RelayClient)
    (address : Option RemoteAddress) (messageId : Nat) : List Write :=
  let respond (reflexiveAddr : UInt32) (reflexivePort : UInt16)
      (reflexive6 : Option Bytes) : List Write :=
    relaySendOnStream codec client.stream (.addrResponse
        ⟨messageId, client.endpointId, reflexiveAddr, reflexivePort, reflexive6⟩)
  match address with
  | none => []
  | some (.inet address port) => respond address port none
  | some (.inet6 address port) =>
    match mappedAddress address with
    | some mapped => respond mapped port none
    | none => respond 0 port (some address)

/-- `_relay_handle_relay_send`. -/
def relayHandleRelaySend (codec : RelayCodec) (server : RelayServer)
    (srcEndpointId destEndpointId : UInt32) (payload : Bytes) : List Write :=
  match relayFindClientByEndpoint server destEndpointId with
  | none => []
  | some client => relaySendOnStream codec client.stream (.relayReceived srcEndpointId payload)

/-- `_relay_process_message`; the source in the frame is not used. -/
def relayProcessMessage (codec : RelayCodec) (server : RelayServer)
    (client : RelayClient) (address : Option RemoteAddress) (frame : Bytes) : List Write :=
  match codec.decode frame with
  | .addrRequest messageId => relayHandleAddrRequest codec client address messageId
  | .relaySend _ destEndpointId payload =>
    relayHandleRelaySend codec server client.endpointId destEndpointId payload
  | .malformed => []

/-! ## Calls of the transport -/

/-- `QUIC_CONNECTION_EVENT_CONNECTED`; too many clients are rejected. -/
def relayConnected (server : RelayServer) (connection : Nat) : Option RelayServer :=
  if relayMaxClients ≤ server.numClients then
    none
  else
    let slot := (server.clients.findIdx? fun client => !client.active).getD server.numClients
    some
      { clients := server.clients.set slot
          ⟨server.nextEndpointId, some connection, none, some streamFramerCreate, true⟩
        numClients := server.numClients + 1
        nextEndpointId := server.nextEndpointId + 1 }

/--
`QUIC_CONNECTION_EVENT_PEER_STREAM_STARTED`: the slot of the client whose
stream is accepted.
-/
def relayPeerStreamStarted (server : RelayServer)
    (connection stream : Nat) : Option (Nat × RelayServer) :=
  match server.clients.findIdx? (RelayClient.serves connection) with
  | none => none
  | some slot =>
    match server.clients[slot]? with
    | none => none
    | some client =>
      match client.stream with
      | some _ => none
      | none =>
        some (slot,
            { server with
              clients := server.clients.set slot { client with stream := some stream } })

/-- The buffers of `QUIC_STREAM_EVENT_RECEIVE` are fed one by one; one that is refused is lost. -/
def RelayClient.feed (buffers : List Bytes) (client : RelayClient) : RelayClient :=
  { client with
    framer := client.framer.map fun framer =>
      buffers.foldl (fun framer data => (streamFramerFeed framer data).getD framer) framer }

/-- `_relay_remove_client` for `QUIC_CONNECTION_EVENT_SHUTDOWN_COMPLETE`. -/
def relayShutdownComplete (server : RelayServer) (connection : Nat) : RelayServer :=
  match server.clients.findIdx? (RelayClient.serves connection) with
  | none => server
  | some slot =>
    { server with
      clients := server.clients.set slot RelayClient.blank
      numClients := server.numClients - 1 }

/-! ## The relay and its transport -/

/-- A stream with its connection, and the client that its context names. -/
structure QuicStream where
  handle : Nat
  connection : Nat
  client : Nat
deriving DecidableEq

/-- The server, the open connections and streams, and how many were accepted. -/
structure RelayState where
  server : RelayServer
  connections : List Nat
  streams : List QuicStream
  accepted : Nat

/-- A relay without clients. -/
def RelayState.start : RelayState :=
  ⟨relayServerCreate, [], [], 0⟩

/-- The calls of the transport; a frame is processed by a call of its own. -/
inductive RelayStep where
  | connected (connection : Nat)
  | peerStreamStarted (connection stream : Nat)
  | receive (stream : Nat) (buffers : List Bytes)
  | process (stream : Nat) (address : Option RemoteAddress)
  | streamShutdown (stream : Nat)
  | shutdownComplete (connection : Nat)

def RelayState.stream? (relay : RelayState) (handle : Nat) : Option QuicStream :=
  relay.streams.find? fun stream => stream.handle == handle

/-- The client that the context of a stream names. -/
def RelayState.clientOf (relay : RelayState) (handle : Nat) : Option (Nat × RelayClient) :=
  (relay.stream? handle).bind fun stream =>
    (relay.server.clients[stream.client]?).map fun client => (stream.client, client)

def RelayState.nextFrame (relay : RelayState) (handle : Nat) :
    Option (Nat × RelayClient × Bytes × StreamFramer) :=
  (relay.clientOf handle).bind fun found =>
    (found.2.framer.bind streamFramerNext).map fun frame => (found.1, found.2, frame)

/-- The relay with one entry of the table replaced. -/
def RelayState.setClient (relay : RelayState) (slot : Nat) (client : RelayClient) : RelayState :=
  { relay with
    server := { relay.server with clients := relay.server.clients.set slot client } }

/-- A handle that the transport does not use. -/
def RelayState.freshHandle (relay : RelayState) (handle : Nat) : Bool :=
  relay.streams.all (fun stream => stream.handle != handle) &&
    relay.server.clients.all fun client => client.stream != some handle

/-- What is written in a call. -/
def writes (codec : RelayCodec) (relay : RelayState) : RelayStep → List Write
  | .process handle address =>
    match relay.nextFrame handle with
    | some (_, client, frame, _) => relayProcessMessage codec relay.server client address frame
    | none => []
  | _ => []

/-- One call of the transport; connections and streams are new, and streams end first. -/
def relayStep (relay : RelayState) : RelayStep → Option RelayState
  | .connected connection =>
    if connection ∈ relay.connections then
      none
    else
      match relayConnected relay.server connection with
      | none => some relay
      | some server =>
        some
          { relay with
            server
            connections := connection :: relay.connections
            accepted := relay.accepted + 1 }
  | .peerStreamStarted connection handle =>
    if connection ∈ relay.connections ∧ relay.freshHandle handle then
      match relayPeerStreamStarted relay.server connection handle with
      | none => some relay
      | some (slot, server) =>
        some
          { relay with
            server
            streams := ⟨handle, connection, slot⟩ :: relay.streams }
    else
      none
  | .receive handle buffers =>
    (relay.clientOf handle).map fun found => relay.setClient found.1 (found.2.feed buffers)
  | .process handle _ =>
    (relay.nextFrame handle).map fun found =>
      relay.setClient found.1 { found.2.1 with framer := some found.2.2.2 }
  | .streamShutdown handle =>
    (relay.stream? handle).map fun stream => { relay with streams := relay.streams.erase stream }
  | .shutdownComplete connection =>
    if connection ∈ relay.connections ∧
        ∀ stream ∈ relay.streams, stream.connection ≠ connection then
      some
        { relay with
          server := relayShutdownComplete relay.server connection
          connections := relay.connections.erase connection }
    else
      none

end Liboffs.Relay

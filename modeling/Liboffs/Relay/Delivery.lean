import Liboffs.Relay.Server

/-!
# What the relay delivers

The relay writes a payload only to the client whose endpoint number the
sender gave, and with the number of the sender.  Two things are left to the
clients and to time: a client that has connected but has no open stream may
be addressed, and the numbers begin again after 2³² connections.
-/

namespace Liboffs.Relay

open Library.ByteOrder Library.Runs Network List Option RelayState RelayClient RelayServer UInt32

/-- The clients that are connected. -/
def RelayServer.live (server : RelayServer) : List RelayClient :=
  server.clients.filter RelayClient.active

/-- No two clients have one number, and the clients are counted. -/
def RelayServer.Distinct (server : RelayServer) : Prop :=
  (server.live.map RelayClient.endpointId).Nodup ∧ server.numClients = server.live.length

def RelayState.IsOpen (relay : RelayState) (stream : Option Nat) : Prop :=
  ∃ opened ∈ relay.streams, stream = some opened.handle

/-- A live client sent the message over its own stream to a live client and its stream. -/
def Relayed (codec : RelayCodec) (relay : RelayState) (step : RelayStep)
    (write : Write) (srcEndpointId : UInt32) (payload : Bytes) : Prop :=
  ∃ stream ∈ relay.streams, ∃ address named destEndpointId,
    ∃ sender ∈ relay.server.live, ∃ receiver ∈ relay.server.live,
    ∃ buffered frame rest,
      step = .process stream.handle address ∧ sender.connection = some stream.connection ∧
        sender.stream = some stream.handle ∧ sender.endpointId = srcEndpointId ∧
        sender.framer = some buffered ∧ streamFramerNext buffered = some (frame, rest) ∧
        codec.decode frame = .relaySend named destEndpointId payload ∧
        receiver.endpointId = destEndpointId ∧ receiver.stream = write.stream

def WritesRight (codec : RelayCodec) (relay : RelayState) (step : RelayStep) : Prop :=
  ∀ write ∈ writes codec relay step,
    relay.IsOpen write.stream ∧ ∀ srcEndpointId payload,
        write.message = .relayReceived srcEndpointId payload →
          Relayed codec relay step write srcEndpointId payload

/-- The client that the next frame of a stream is addressed to. -/
def RelayState.addressed (codec : RelayCodec) (relay : RelayState)
    (handle : Nat) : Option RelayClient :=
  (relay.nextFrame handle).bind fun found =>
    match codec.decode found.2.2.1 with
    | .relaySend _ destEndpointId _ => relayFindClientByEndpoint relay.server destEndpointId
    | _ => none

/-- Fewer than 2³² connections were accepted, and the addressed client has an open stream. -/
def Orderly (codec : RelayCodec) (relay : RelayState) : RelayStep → Prop
  | .connected _ => relay.accepted < 2 ^ 32
  | .process handle _ =>
    ∀ receiver ∈ relay.addressed codec handle, relay.IsOpen receiver.stream
  | _ => True

instance (relay : RelayState) (stream : Option Nat) : Decidable (relay.IsOpen stream) :=
  inferInstanceAs (Decidable (∃ opened ∈ relay.streams, _))

instance (codec : RelayCodec) (relay : RelayState) : ∀ step, Decidable (Orderly codec relay step)
  | .connected _ => inferInstanceAs (Decidable (_ < _))
  | .process handle _ =>
    inferInstanceAs (Decidable (∀ receiver ∈ relay.addressed codec handle, _))
  | .peerStreamStarted _ _ => .isTrue trivial
  | .receive _ _ => .isTrue trivial
  | .streamShutdown _ => .isTrue trivial
  | .shutdownComplete _ => .isTrue trivial

/-- The number of the connection that was accepted after so many. -/
def endpointOf (accepted : Nat) : UInt32 :=
  UInt32.ofNat (1 + accepted)

/-- The client that the context of a stream names is that of the stream. -/
def ContextRight (clients : List RelayClient) (stream : QuicStream) : Prop :=
  ∃ client, clients[stream.client]? = some client ∧ client.active = true ∧
    client.connection = some stream.connection ∧ client.stream = some stream.handle

/-- What every call keeps. -/
structure Sound (relay : RelayState) : Prop where
  size : relay.server.clients.length = relayMaxClients
  distinct : relay.server.Distinct
  next : relay.server.nextEndpointId = endpointOf relay.accepted
  issued : ∀ client ∈ relay.server.live, ∃ earlier < relay.accepted,
    client.endpointId = endpointOf earlier
  contexts : ∀ stream ∈ relay.streams, ContextRight relay.server.clients stream

theorem sound_start : Sound RelayState.start where
  size := length_replicate
  distinct := ⟨nodup_nil, rfl⟩
  next := rfl
  issued := by
    intro client member
    simp [live, start, relayServerCreate, blank] at member
  contexts := by
    intro stream member
    cases member

section
variable {clients : List RelayClient} {slot : Nat} {old : RelayClient} (new : RelayClient)

section
variable (found : clients[slot]? = some old)
include found

/-- An entry that stays live with its number leaves the numbers. -/
theorem map_live_set (active : new.active = old.active) (number : new.endpointId = old.endpointId) :
    ((clients.set slot new).filter RelayClient.active).map RelayClient.endpointId =
      (clients.filter RelayClient.active).map RelayClient.endpointId := by
  induction clients generalizing slot with
  | nil => simp at found
  | cons client rest ih =>
    cases slot with
    | zero =>
      cases found
      simp only [set_cons_zero, filter_cons, active]
      split
      · simp [number]
      · rfl
    | succ slot =>
      have later := ih (by simpa using found)
      simp only [set_cons_succ, filter_cons]
      split
      · simp [later]
      · exact later

/-- An entry that becomes live joins the live ones. -/
theorem perm_live_set_active (free : old.active = false) (active : new.active = true) :
    ((clients.set slot new).filter RelayClient.active).Perm
      (new :: clients.filter RelayClient.active) := by
  induction clients generalizing slot with
  | nil => simp at found
  | cons client rest ih =>
    cases slot with
    | zero =>
      cases found
      simp [active, free]
    | succ slot =>
      have later := ih (by simpa using found)
      simp only [set_cons_succ, filter_cons]
      split
      · exact (later.cons client).trans (Perm.swap ..)
      · exact later

end

end

section
variable {relay next : RelayState}

variable {slot : Nat}

/-- A context that names another entry than the one that changes. -/
theorem ContextRight.set_ne {clients : List RelayClient} {stream : QuicStream}
    (right : ContextRight clients stream) (other : slot ≠ stream.client) (new : RelayClient) :
    ContextRight (clients.set slot new) stream := by
  rcases right with ⟨client, found, context⟩
  refine ⟨client, ?_, context⟩
  rw [getElem?_set_ne other]
  exact found

variable {client : RelayClient} {handle connection : Nat} {server : RelayServer}
  {codec : RelayCodec}

theorem nextFrame_some (waiting : relay.nextFrame handle = some (slot, client, frame, rest)) :
    relay.clientOf handle = some (slot, client) ∧ ∃ buffered, client.framer = some buffered ∧
        streamFramerNext buffered = some (frame, rest) := by
  simp only [nextFrame, bind_eq_some_iff, map_eq_some_iff, Prod.mk.injEq] at waiting
  rcases waiting with ⟨found, named, taken, ⟨buffered, framer, here⟩, rfl, rfl, same⟩
  rw [same] at here
  exact ⟨named, buffered, framer, here⟩

theorem findIdx?_serves
    (search : server.clients.findIdx? (RelayClient.serves connection) = some slot) :
    ∃ client, server.clients[slot]? = some client ∧
      client.active = true ∧ client.connection = some connection := by
  rcases findIdx?_eq_some_iff_getElem.mp search with ⟨bound, serves, _⟩
  simp only [RelayClient.serves, Bool.and_eq_true, beq_iff_eq] at serves
  exact ⟨_, getElem?_eq_getElem bound, serves⟩

theorem mem_relaySendOnStream {stream : Option Nat} {message : RelayMessage} {write : Write}
    (member : write ∈ relaySendOnStream codec stream message) : write = ⟨stream, message⟩ := by
  simp only [relaySendOnStream] at member
  split at member
  · exact mem_singleton.mp member
  · cases member

theorem mem_relayHandleAddrRequest
    (member : write ∈ relayHandleAddrRequest codec client address messageId) :
    write.stream = client.stream ∧ ∃ response, write.message = .addrResponse response := by
  simp only [relayHandleAddrRequest] at member
  split at member
  · cases member
  · cases mem_relaySendOnStream member
    exact ⟨rfl, _, rfl⟩
  · split at member
    · cases mem_relaySendOnStream member
      exact ⟨rfl, _, rfl⟩
    · cases mem_relaySendOnStream member
      exact ⟨rfl, _, rfl⟩

variable (sound : Sound relay)
include sound

/-- An entry keeps its number, and the streams are those of their clients. -/
theorem Sound.entry {old : RelayClient} (new : RelayClient) (streams : List QuicStream)
    (found : relay.server.clients[slot]? = some old) (active : new.active = old.active)
    (number : new.endpointId = old.endpointId)
    (contexts : ∀ stream ∈ streams, ContextRight (relay.server.clients.set slot new) stream) :
    Sound { relay.setClient slot new with streams } := by
  have numbers := map_live_set new found active number
  constructor
  · simp only [setClient, length_set]
    exact sound.size
  · constructor
    · simp only [setClient, live, numbers]
      exact sound.distinct.1
    · have lengths := congrArg List.length numbers
      simp only [length_map] at lengths
      simp only [setClient, live, lengths]
      exact sound.distinct.2
  · exact sound.next
  · intro client member
    have listed : client.endpointId ∈ relay.server.live.map endpointId := by
      rw [live, ← numbers]
      exact mem_map_of_mem member
    rcases mem_map.mp listed with ⟨before, live, same⟩
    rw [← same]
    exact sound.issued before live
  · exact contexts

theorem Sound.setFramer (found : relay.server.clients[slot]? = some old) (framer : Option StreamFramer) :
    Sound (relay.setClient slot { old with framer }) := by
  apply sound.entry { old with framer } relay.streams found rfl rfl
  intro stream member
  have right := sound.contexts stream member
  by_cases here : slot = stream.client
  · subst here
    rcases right with ⟨client, at_, context⟩
    rw [found] at at_
    cases at_
    refine ⟨{ old with framer }, ?_, context⟩
    simp [(List.getElem?_eq_some_iff.mp found).1]
  · exact right.set_ne here _

theorem Sound.clientOf (named : relay.clientOf handle = some (slot, client)) :
    ∃ stream ∈ relay.streams, stream.handle = handle ∧ relay.server.clients[slot]? = some client ∧
      client.active = true ∧ client.connection = some stream.connection ∧
      client.stream = some handle := by
  simp only [RelayState.clientOf, bind_eq_some_iff, map_eq_some_iff, Prod.mk.injEq] at named
  rcases named with ⟨stream, opened, entry, at_, rfl, rfl⟩
  have handled := find?_some opened
  simp only [beq_iff_eq] at handled
  have member := mem_of_find?_eq_some opened
  rcases sound.contexts stream member with ⟨client, here, context⟩
  rw [at_] at here
  cases here
  rw [handled] at context
  exact ⟨stream, member, handled, at_, context⟩

theorem Sound.free (room : relay.server.numClients < relayMaxClients) :
    ∃ slot old, relay.server.clients.findIdx? (fun client => !client.active) = some slot ∧
        relay.server.clients[slot]? = some old ∧ old.active = false := by
  cases search : relay.server.clients.findIdx? fun client => !client.active with
  | none =>
    have full : relay.server.live = relay.server.clients := by
      apply filter_eq_self.mpr
      intro client member
      have busy := findIdx?_eq_none_iff.mp search client member
      simpa using busy
    rw [sound.distinct.2, full, sound.size] at room
    exact absurd room (lt_irrefl _)
  | some slot =>
    rcases findIdx?_eq_some_iff_getElem.mp search with ⟨bound, free, _⟩
    refine ⟨slot, relay.server.clients[slot], rfl, ?_, ?_⟩
    · exact getElem?_eq_getElem bound
    · simpa using free

theorem Sound.connected (early : relay.accepted < 2 ^ 32)
    (joined : relayConnected relay.server connection = some server) :
    Sound
      { relay with
        server
        connections := connection :: relay.connections
        accepted := relay.accepted + 1 } := by
  simp only [relayConnected, ite_none_left_eq_some, Option.some.injEq, not_le] at joined
  rcases joined with ⟨room, rfl⟩
  rcases sound.free room with ⟨slot, old, search, found, free⟩
  simp only [search, getD_some]
  have perm := perm_live_set_active
    ⟨relay.server.nextEndpointId, some connection, none, some streamFramerCreate, true⟩ found free rfl
  constructor
  · simp only [length_set]
    exact sound.size
  · constructor
    · apply (perm.map endpointId).nodup_iff.mpr
      rw [map_cons, nodup_cons]
      constructor
      · intro member
        rcases mem_map.mp member with ⟨client, live, same⟩
        rcases sound.issued client live with ⟨earlier, before, number⟩
        rw [number, sound.next] at same
        have values := congrArg toNat same
        simp only [endpointOf, toNat_ofNat'] at values
        omega
      · exact sound.distinct.1
    · have lengths := perm.length_eq
      have counted := sound.distinct.2
      simp only [live, length_cons] at lengths counted ⊢
      rw [lengths, counted]
  · rw [sound.next]
    simp only [endpointOf]
    rw [← add_assoc, ofNat_add (1 + relay.accepted)]
    rfl
  · intro client member
    rcases mem_cons.mp (perm.subset member) with rfl | member
    · exact ⟨relay.accepted, Nat.lt_succ_self _, sound.next⟩
    · rcases sound.issued client member with ⟨earlier, before, number⟩
      exact ⟨earlier, Nat.lt_succ_of_lt before, number⟩
  · intro opened member
    apply (sound.contexts opened member).set_ne
    intro here
    subst here
    rcases sound.contexts opened member with ⟨client, at_, active, _⟩
    rw [found] at at_
    cases at_
    rw [free] at active
    cases active

theorem Sound.peerStreamStarted
    (started : relayPeerStreamStarted relay.server connection handle = some (slot, server)) :
    Sound
      { relay with
        server
        streams := ⟨handle, connection, slot⟩ :: relay.streams } := by
  simp only [relayPeerStreamStarted] at started
  split at started
  · cases started
  · rename_i search
    rcases findIdx?_serves search with ⟨client, found, active, served⟩
    rw [found] at started
    simp only at started
    split at started
    · cases started
    · rename_i unopened
      cases started
      apply sound.entry { client with stream := some handle }
        (⟨handle, connection, slot⟩ :: relay.streams) found rfl rfl
      intro opened member
      rcases mem_cons.mp member with rfl | earlier
      · refine ⟨{ client with stream := some handle }, ?_, active, served, rfl⟩
        simp [(List.getElem?_eq_some_iff.mp found).1]
      · apply (sound.contexts opened earlier).set_ne
        intro here
        subst here
        rcases sound.contexts opened earlier with ⟨entry, at_, _, _, stream⟩
        rw [found] at at_
        cases at_
        rw [unopened] at stream
        cases stream

theorem Sound.shutdownComplete (closed : ∀ stream ∈ relay.streams, stream.connection ≠ connection) :
    Sound
      { relay with
        server := relayShutdownComplete relay.server connection
        connections := relay.connections.erase connection } := by
  cases search : relay.server.clients.findIdx? (serves connection) with
  | none =>
    simp only [relayShutdownComplete, search]
    exact { sound with }
  | some slot =>
    rcases findIdx?_serves search with ⟨client, found, active, served⟩
    simp only [relayShutdownComplete, search]
    obtain ⟨within, rfl⟩ := List.getElem?_eq_some_iff.mp found
    have perm := perm_live_set_active relay.server.clients[slot] (getElem?_set_self within)
      (rfl : blank.active = false) active
    rw [set_set, set_getElem_self] at perm
    replace perm := perm.symm
    have fewer := subset_of_cons_subset perm.subset
    constructor
    · simp only [length_set]
      exact sound.size
    · constructor
      · have unique := sound.distinct.1
        rw [live, ← (perm.map endpointId).nodup_iff] at unique
        exact (nodup_cons.mp unique).2
      · have lengths := perm.length_eq
        have counted := sound.distinct.2
        simp only [live, length_cons] at lengths counted ⊢
        omega
    · exact sound.next
    · intro entry member
      exact sound.issued entry (fewer member)
    · intro opened member
      apply (sound.contexts opened member).set_ne
      intro here
      subst here
      rcases sound.contexts opened member with ⟨entry, at_, _, own, _⟩
      rw [found] at at_
      cases at_
      rw [served] at own
      cases own
      exact closed opened member rfl

theorem Sound.step {step : RelayStep} (orderly : Orderly codec relay step)
    (stepped : relayStep relay step = some next) : Sound next := by
  cases step with
  | connected connection =>
    simp only [relayStep, ite_none_left_eq_some] at stepped
    replace stepped := stepped.2
    split at stepped
    · cases stepped
      exact sound
    · rename_i joined
      cases stepped
      exact sound.connected orderly joined
  | peerStreamStarted connection handle =>
    simp only [relayStep, ite_none_right_eq_some] at stepped
    replace stepped := stepped.2
    split at stepped
    · cases stepped
      exact sound
    · rename_i started
      cases stepped
      exact sound.peerStreamStarted started
  | receive handle buffers =>
    simp only [relayStep, map_eq_some_iff] at stepped
    rcases stepped with ⟨⟨slot, client⟩, named, rfl⟩
    rcases sound.clientOf named with ⟨_, _, _, found, _⟩
    exact sound.setFramer found _
  | process handle address =>
    simp only [relayStep, map_eq_some_iff] at stepped
    rcases stepped with ⟨⟨slot, client, frame, rest⟩, waiting, rfl⟩
    rcases sound.clientOf (nextFrame_some waiting).1 with ⟨_, _, _, found, _⟩
    exact sound.setFramer found _
  | streamShutdown handle =>
    simp only [relayStep, map_eq_some_iff] at stepped
    rcases stepped with ⟨stream, opened, rfl⟩
    refine { sound with contexts := ?_ }
    intro other member
    exact sound.contexts other (mem_of_mem_erase member)
  | shutdownComplete connection =>
    simp only [relayStep, ite_none_right_eq_some, Option.some.injEq] at stepped
    rcases stepped with ⟨⟨_, closed⟩, rfl⟩
    exact sound.shutdownComplete closed

/-- All that a call writes is right. -/
theorem Sound.writesRight {step : RelayStep} (orderly : Orderly codec relay step) :
    WritesRight codec relay step := by
  intro write member
  cases step with
  | process handle address =>
    simp only [writes] at member
    split at member
    · rename_i slot client frame rest waiting
      rcases nextFrame_some waiting with ⟨named, buffered, framer, here⟩
      rcases sound.clientOf named with ⟨stream, opened, rfl, found, active, connection, own⟩
      simp only [relayProcessMessage] at member
      split at member
      · rcases mem_relayHandleAddrRequest member with ⟨same, response, message⟩
        constructor
        · exact ⟨stream, opened, same.trans own⟩
        · intro srcEndpointId payload other
          rw [message] at other
          cases other
      · rename_i named destEndpointId payload decoded
        simp only [relayHandleRelaySend] at member
        split at member
        · cases member
        · rename_i receiver addressed
          cases mem_relaySendOnStream member
          have matching := find?_some addressed
          simp only [Bool.and_eq_true, beq_iff_eq] at matching
          have live := mem_filter.mpr ⟨mem_of_find?_eq_some addressed, matching.1⟩
          have number := matching.2
          constructor
          · apply orderly
            simp [RelayState.addressed, waiting, decoded, addressed]
          · intro srcEndpointId sent message
            cases message
            have sender : client ∈ relay.server.live := by
              apply mem_filter.mpr
              exact ⟨mem_of_getElem? found, active⟩
            exact ⟨stream, opened, address, _, destEndpointId, client, sender, receiver, live,
              buffered, frame, rest, rfl, connection, own, rfl, framer, here, decoded, number, rfl⟩
      · cases member
    · cases member
  | _ => cases member

end

/-- Two bytes are a payload of one byte for an endpoint. -/
def pairCodec : RelayCodec where
  decode := fun
    | [destEndpointId, byte] => .relaySend 0 destEndpointId.toUInt32 [byte]
    | _ => .malformed
  encodedSize := fun _ => 8

/-- The first client sends a byte to the second. -/
def sendToSecond : List RelayStep :=
  [.receive 10 [[0, 0, 0], [2, 2, 7]], .process 10 none]

/-- A first client and a number for the next one. -/
def oneClient (nextEndpointId : UInt32) (accepted : Nat) : RelayState where
  server :=
    { clients :=
        ⟨1, some 1, none, some streamFramerCreate, true⟩ :: List.replicate 255 RelayClient.blank
      numClients := 1
      nextEndpointId := nextEndpointId }
  connections := [1]
  streams := []
  accepted := accepted

/-- A client that comes and goes uses up a number. -/
theorem comeAndGo_oneClient (count : Nat) (number : UInt32) (accepted : Nat) :
    (List.replicate count [RelayStep.connected 2, .shutdownComplete 2]).flatten.foldlM
        relayStep (oneClient number accepted) =
      some (oneClient (number + UInt32.ofNat count) (accepted + count)) := by
  induction count generalizing number accepted with
  | zero => simp
  | succ count ih =>
    have once : [RelayStep.connected 2, .shutdownComplete 2].foldlM relayStep
            (oneClient number accepted) = some (oneClient (number + 1) (accepted + 1)) := rfl
    have numbers : number + 1 + UInt32.ofNat count = number + UInt32.ofNat (count + 1) := by
      rw [UInt32.ofNat_add, UInt32.add_assoc, UInt32.add_comm 1 (UInt32.ofNat count)]
      rfl
    have counts : accepted + 1 + count = accepted + (count + 1) := by omega
    rw [replicate_succ, flatten_cons, foldlM_append, once]
    simp only [bind_eq_bind, bind_some]
    rw [ih, numbers, counts]

/-- The numbers begin again: a client gets the number of a live one. -/
theorem number_given_twice (count : Nat) (wraps : 2 + UInt32.ofNat count = 1) :
    ((.connected 1 :: ((List.replicate count
          [RelayStep.connected 2, .shutdownComplete 2]).flatten ++
            [.connected 3])).foldlM relayStep RelayState.start).map
        (fun relay => relay.server.live.map RelayClient.endpointId) = some [1, 1] := by
  have first : relayStep start (.connected 1) = some (oneClient 2 1) := rfl
  have last : (relayStep (oneClient 1 (1 + count)) (.connected 3)).map
      (fun relay => relay.server.live.map endpointId) = some [1, 1] := rfl
  rw [foldlM_cons, first]
  simp only [bind_eq_bind, bind_some]
  rw [foldlM_append, comeAndGo_oneClient, wraps]
  exact last

end Liboffs.Relay

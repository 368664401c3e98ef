import Liboffs.Network.Actor

/-!
# Answers to stores

A node that accepts a store answers that it holds the block.  Whether it
accepts is decided from its phase, its capacity and a roll; the data of the
store is looked at afterwards, and the answer is the same whatever is found.
An accepted store is therefore a stored block exactly when the data that comes
with it is a block of the cache.
-/

namespace Liboffs.Network

open BlockCache (Hash Block BlockSize blockCreateExistingDataHash)

/-- The data of a store has its hash and the size of the blocks of a cache. -/
def StoreBlock.CarriesBlock (store : StoreBlock) (around : Surroundings)
    (type : BlockSize) : Prop :=
  around.hashData store.blockData = store.blockHash ∧ store.blockData.length = type.bytes

/--
A positive answer to a store is given only to data with its hash and a size of the cache, and only
where the block is handed to the cache or held.
-/
def AcceptedIsStored (type : BlockSize) (held : Hash → Prop)
    (network : NetworkState) (around : Surroundings) (store : StoreBlock) : Prop :=
  ∀ peer response,
    Effect.toPeer peer (.storeBlockResponse response) ∈ (handleStoreBlock network around store).2 →
      response.accepted = true → (around.hashData store.blockData = response.blockHash ∧
            (∃ block fib,
              Effect.cachePut block fib ∈ (handleStoreBlock network around store).2 ∧
                block.hash = response.blockHash) ∨
          held response.blockHash) ∧
        store.blockData ≠ [] ∧ around.hashData store.blockData = response.blockHash ∧
        store.blockData.length = type.bytes

variable {peer : NodeId} {response : StoreBlockResponse}

section
variable {type : BlockSize} {held : Hash → Prop} {network : NetworkState} {around : Surroundings}
  {store : StoreBlock}

/-- The positive answer to a store. -/
def acceptedResponse (network : NetworkState) (store : StoreBlock) : StoreBlockResponse where
  messageId := store.messageId
  accepted := true
  holder := network.localId
  replicasRemaining := store.replicasNeeded - 1
  path := extendPath (store.path.take storeMaxHops) network.localId
  blockHash := store.blockHash

/-- A node that accepts does so before it looks for next hops. -/
theorem handleStoreBlock_of_shouldAccept (accepts : around.shouldAccept = true) :
    handleStoreBlock network around store = handleStoreAccepted network around store
        (store.path.take storeMaxHops) [] := by
  simp [handleStoreBlock, storeBlockExecute, accepts, StoreBlockOutcome.hops]

/-- A node that does not accept answers nothing positive. -/
theorem not_accepted_of_not_shouldAccept (refuses : around.shouldAccept = false)
    (sent : Effect.toPeer peer (.storeBlockResponse response) ∈
      (handleStoreBlock network around store).2) : response.accepted = false := by
  have never : ∀ state, storeBlockExecute around.storeRouting around.bitsOf false state ≠
        .accepted := by
    intro state
    simp only [storeBlockExecute, reduceCtorEq, if_false]
    split
    · nofun
    · split
      · nofun
      · split
        · nofun
        · split <;> nofun
  simp only [handleStoreBlock, refuses] at sent
  split at sent
  · rename_i accepted
    exact absurd accepted (never _)
  · simp only [sendToAll, List.mem_flatMap, sendTo] at sent
    rcases sent with ⟨hop, _, member⟩
    split at member
    · simp at member
    · cases member
  · simp only [sendTo] at sent
    split at sent
    · simp only [List.mem_singleton, Effect.toPeer.injEq,
        WireMessage.storeBlockResponse.injEq] at sent
      rw [sent.2]
    · cases sent

section
variable (accepts : around.shouldAccept = true)
include accepts

/-- A node that accepts answers so, whatever the data. -/
theorem accepted_of_shouldAccept (reached : around.sends store.predecessor = true) :
    Effect.toPeer store.predecessor (.storeBlockResponse (acceptedResponse network store)) ∈
      (handleStoreBlock network around store).2 := by
  rw [handleStoreBlock_of_shouldAccept accepts]
  apply List.mem_append_right
  simp [sendTo, reached, acceptedResponse]

/-- What a node that accepts sends to its peers: no copy of the block asks for more. -/
theorem sent_of_shouldAccept
    (sent : Effect.toPeer peer message ∈ (handleStoreBlock network around store).2) :
    (∃ next, message = .storeBlock next ∧ next.replicasNeeded = 0) ∨
      around.sends store.predecessor = true ∧
        message = .storeBlockResponse (acceptedResponse network store) := by
  rw [handleStoreBlock_of_shouldAccept accepts, handleStoreAccepted] at sent
  rcases List.mem_append.mp sent with sent | sent
  · apply Or.inl
    rcases List.mem_append.mp sent with sent | sent
    · rcases List.mem_append.mp sent with sent | sent
      · split at sent
        · simp only [deliverToInterestedPeers, sendToAll, sendTo, List.mem_cons, reduceCtorEq,
            List.mem_flatMap, false_or] at sent
          rcases sent with ⟨interested, _, member⟩
          split at member
          · simp only [List.mem_singleton, Effect.toPeer.injEq] at member
            exact ⟨_, member.2, rfl⟩
          · cases member
        · cases sent
      · simp [sendToAll] at sent
    · simp [answerSearch, notifyRequesters] at sent
  · simp only [sendTo] at sent
    split at sent
    · rename_i reached
      simp only [List.mem_singleton, Effect.toPeer.injEq] at sent
      exact Or.inr ⟨reached, sent.2⟩
    · cases sent

theorem cachePut_of_carriesBlock (carries : store.CarriesBlock around type) :
    Effect.cachePut ⟨store.blockData, store.blockHash⟩ store.blockFib ∈
      (handleStoreBlock network around store).2 := by
  have filled : store.blockData ≠ [] := by
    intro empty
    have length := carries.2
    rw [empty] at length
    cases type <;> cases length
  have sized : store.blockData.length ∈ [BlockSize.standard.bytes, BlockSize.mega.bytes,
        BlockSize.nano.bytes, BlockSize.mini.bytes] := by
    rw [carries.2]
    cases type <;> simp
  have received : around.receivedBlock store.blockData store.blockHash =
        some ⟨store.blockData, store.blockHash⟩ := by
    simp only [Surroundings.receivedBlock, blockCreateExistingDataHash]
    rw [if_pos ⟨filled, carries.1⟩, if_pos sized]
  rw [handleStoreBlock_of_shouldAccept accepts, handleStoreAccepted, received]
  simp

end

end

/-- Positive answers are backed exactly if the data is a block when the node accepts and answers. -/
theorem accepted_is_stored_iff (type : BlockSize) (held : Hash → Prop) (network : NetworkState)
    (around : Surroundings) (store : StoreBlock) :
    AcceptedIsStored type held network around store ↔ (around.shouldAccept = true →
        around.sends store.predecessor = true → store.CarriesBlock around type) := by
  constructor
  · intro backed accepts reached
    exact (backed _ _ (accepted_of_shouldAccept accepts reached) rfl).2.2
  · intro condition peer response sent positive
    cases accepts : around.shouldAccept with
    | false =>
      have negative := not_accepted_of_not_shouldAccept accepts sent
      rw [positive] at negative
      cases negative
    | true =>
      rcases sent_of_shouldAccept accepts sent with ⟨_, copy, _⟩ | ⟨reached, answer⟩
      · cases copy
      cases answer
      have carries := condition accepts reached
      constructor
      · apply Or.inl
        constructor
        · exact carries.1
        · exact ⟨_, _, cachePut_of_carriesBlock accepts carries, rfl⟩
      · constructor
        · intro empty
          have length := carries.2
          rw [empty] at length
          cases type <;> cases length
        · exact carries

/-- The nodes that a node knows and may use as next hops of a store. -/
def Surroundings.NextHop (around : Surroundings) (store : StoreBlock) (node : NodeId) : Prop :=
  node ∈ around.storeRouting.topicPeers store.blockHash ++
      around.storeRouting.gravityWells store.blockHash ++ around.storeRouting.ringNodes ∧
    eligible around.bitsOf (store.path.take storeMaxHops) store.visited node = true

/-- An accepted store that needs more copies goes on to a next hop, with its data. -/
def ReplicationContinues (network : NetworkState) (around : Surroundings)
    (store : StoreBlock) : Prop :=
  around.shouldAccept = true → 1 < store.replicasNeeded → 0 < store.maxHops →
    (∃ node, around.NextHop store node) → ∃ hop next, around.NextHop store hop ∧
      Effect.toPeer hop (.storeBlock next) ∈ (handleStoreBlock network around store).2 ∧
      next.blockHash = store.blockHash ∧ next.blockData = store.blockData ∧
      next.replicasNeeded = store.replicasNeeded - 1

/-- Replication continues only where there is nothing to continue, or nobody to continue with. -/
theorem replication_continues_iff (network : NetworkState) (around : Surroundings)
    (store : StoreBlock) :
    ReplicationContinues network around store ↔ (around.shouldAccept = true →
      1 < store.replicasNeeded → 0 < store.maxHops → ∀ node, ¬ around.NextHop store node) := by
  constructor
  · intro continues accepts more hops node usable
    rcases continues accepts more hops ⟨node, usable⟩ with ⟨_, next, _, sent, _, _, fewer⟩
    rcases sent_of_shouldAccept accepts sent with ⟨_, copy, last⟩ | ⟨_, answer⟩
    · cases copy
      omega
    · cases answer
  · rintro nobody accepts more hops ⟨node, usable⟩
    exact absurd usable (nobody accepts more hops node)

/-- A node that knows of no other node. -/
def Routing.nowhere : Routing where
  topicPeers := fun _ => []
  gravityWells := fun _ => []
  ringNodes := []
  roulette := fun _ => []
  roulette_subset := fun _ => List.nil_subset _
  roulette_length := fun _ => Nat.zero_le _

def repeatedByte (byte : UInt8) : Hash :=
  ⟨List.replicate 32 byte, rfl⟩

/-- A node with room, a peer, and a hash function that adds the bytes. -/
def Surroundings.roomy : Surroundings where
  capacity := 0
  exhaling := false
  roll := true
  peers := [1]
  sends := fun peer => peer == 1
  bitsOf := fun node => [node]
  storeRouting := Routing.nowhere
  wants := fun _ _ => false
  hashData := fun data => repeatedByte (data.foldl (· + ·) 0)

/-- A store of the peer with the given data. -/
def storeOf (data : List UInt8) : StoreBlock where
  messageId := 7
  blockHash := repeatedByte 1
  blockSize := 128000
  blockFib := 0
  replicasNeeded := 3
  maxHops := 6
  visited := VisitedBloom.empty
  path := [1]
  carryData := true
  blockData := data

/-- A store without data, with other data or of another size is accepted, and nothing is held. -/
theorem accepted_is_not_stored :
    ¬ AcceptedIsStored .standard (fun _ => False) (networkCreate 0 1)
        Surroundings.roomy (storeOf []) ∧
      ¬ AcceptedIsStored .standard (fun _ => False) (networkCreate 0 1)
        Surroundings.roomy (storeOf [2]) ∧
      ¬ AcceptedIsStored .standard (fun _ => False) (networkCreate 0 1)
        Surroundings.roomy (storeOf (1 :: List.replicate 135 0)) := by
  have answered : ∀ data, Effect.toPeer 1 (.storeBlockResponse
          (acceptedResponse (networkCreate 0 1) (storeOf data))) ∈
        (handleStoreBlock (networkCreate 0 1) Surroundings.roomy (storeOf data)).2 := by
    intro data
    exact accepted_of_shouldAccept rfl rfl
  constructor
  · intro backed
    exact (backed _ _ (answered []) rfl).2.1 rfl
  · constructor
    · intro backed
      have same := (backed _ _ (answered [2]) rfl).2.2.1
      exact absurd same (by decide)
    · intro backed
      have length := (backed _ _ (answered _) rfl).2.2.2
      simp [storeOf, BlockSize.bytes] at length

/-- A node that knows of one node beside its peer accepts a store for three copies and keeps it. -/
theorem replication_stops : ¬ ReplicationContinues (networkCreate 0 1)
    { Surroundings.roomy with storeRouting := { Routing.nowhere with ringNodes := [2] } }
    (storeOf [1]) := by
  intro continues
  rcases continues rfl (by decide) (by decide) ⟨2, And.intro (by decide) (by decide)⟩ with
    ⟨_, _, _, sent, _, _, fewer⟩
  rcases sent_of_shouldAccept rfl sent with ⟨_, copy, last⟩ | ⟨_, answer⟩
  · cases copy
    cases last.symm.trans fewer
  · cases answer

end Liboffs.Network

import Liboffs.BlockCache.Capacity

/-!
# Gets and the reads in flight

The cache and the section store are two actors.  A get that has to read its
block sends a read to the section store, which sends the data back; in
between, the cache handles other messages.  A get is answered when data arrive
for the slot that its entry names at that time.

Every get is answered once, with its block if the slot can be read and the
block stays in the index, as long as no defragmentation moves slots while
reads are in flight.
-/

namespace Liboffs.BlockCache

open Library Library.ByteOrder GetOutcome

/-- `sections_read_result_payload_t`. -/
structure ReadResult where
  sectionId : UInt64
  sectionIndex : UInt64
  data : Option Bytes

/--
The cache with the reads and results that have not been handled, the gets that asked, and the
replies.
-/
structure GetSystem where
  cache : Cache
  reads : List (UInt64 × UInt64)
  results : List ReadResult
  asked : List (Nat × Hash)
  replies : List CacheGetResult

/-- A cache of which nothing has been asked. -/
def GetSystem.initial (cache : Cache) : GetSystem where
  cache := cache
  reads := []
  results := []
  asked := []
  replies := []

/-- The steps of the two actors; messages may come at any time. -/
inductive SystemStep where
  | message (message : CacheMessage)
  | read
  | deliver (now : UInt64)
  | writeMeta

/-- The request of a message that wants a reply to a get. -/
def asks : CacheMessage → List (Nat × Hash)
  | .get get _ => get.replyTo.toList.map fun receiver => (receiver, get.hash)
  | _ => []

/-- The message is the result of a read, which only the store sends. -/
def isReadResult : CacheMessage → Bool
  | .readResult _ _ _ _ => true
  | _ => false

section
variable (world : World)

/-- What the two actors do in a step. -/
def systemStep (system : GetSystem) : SystemStep → Option GetSystem
  | .message message =>
    if isReadResult message then
      none
    else
      (blockCacheDispatch world system.cache message).map fun (cache, outgoing) =>
          { system with
            cache
            reads := system.reads ++ outgoing.reads
            asked := system.asked ++ asks message
            replies := system.replies ++ outgoing.replies }
  | .read =>
    match system.reads with
    | [] => none
    | (id, index) :: rest =>
      (sectionsRead world.io system.cache.sections id index.toNat
        system.cache.disk).map fun (sections, disk, data) =>
          { system with
            cache := system.cache.withStore (sections, disk)
            reads := rest
            results := system.results ++ [⟨id, index, data⟩] }
  | .deliver now =>
    match system.results with
    | [] => none
    | result :: rest =>
      (cacheReadResult world system.cache result.sectionId
        result.sectionIndex result.data now).map fun (cache, replies) =>
          { system with
            cache
            results := rest
            replies := system.replies ++ replies }
  | .writeMeta =>
    (cacheStep world system.cache .sectionWriteMeta).map fun cache => { system with cache }

end

/-- Who asked for what, of a pending get. -/
def PendingGet.request (pending : PendingGet) : Nat × Hash :=
  (pending.replyTo, pending.hash)

/-- Who asked for what, of a reply. -/
def CacheGetResult.request (reply : CacheGetResult) : Nat × Hash :=
  (reply.receiver, reply.hash)

variable {now : UInt64} {outgoing : Outgoing} {replies : List CacheGetResult} {pending : PendingGet}
  {stores : CachePut → Prop} {get : CacheGet}

section
variable {world : World} {cache after : Cache}

/-- A get is answered, or waits, or wants no reply. -/
theorem GetEffect.balance (effect : GetEffect world cache get after outcome) :
    (outcome.replies.map CacheGetResult.request ++ after.pendingGets.map PendingGet.request).Perm
      (cache.pendingGets.map PendingGet.request ++
        get.replyTo.toList.map fun receiver => (receiver, get.hash)) := by
  have answered {reply : Nat → CacheGetResult} {result : Option Block} (named : ∀ receiver,
        (reply receiver).request = (receiver, get.hash)) :
      ((answer get.replyTo reply result).replies.map CacheGetResult.request ++
            cache.pendingGets.map PendingGet.request).Perm
        (cache.pendingGets.map PendingGet.request ++
          get.replyTo.toList.map fun receiver => (receiver, get.hash)) := by
    cases get.replyTo with
    | none => simp [answer]
    | some receiver =>
      simp only [answer, List.map_cons, List.map_nil, named, Option.toList_some]
      exact List.perm_append_comm
  cases effect with
  | answered reply plain =>
    apply answered
    intro receiver
    rw [CacheGetResult.request, (plain receiver).2.1, (plain receiver).2.2]
  | recalled node entry found => exact answered fun receiver => rfl
  | waiting ref receiver found receives =>
    simp only [receives, List.map_nil, List.nil_append, List.map_cons, Option.toList_some]
    exact (List.perm_append_singleton _ _).symm
  | missed ref store reads direct => simp [direct, Cache.withStore]
  | loaded ref block store _ found hash reads remembers direct =>
    rw [remembers.rest.pendingGets, direct]
    simp [Cache.withStore]

/-- Every get that an arrival takes from the list is answered. -/
theorem cacheReadResult_balance
    (done : cacheReadResult world cache sectionId sectionIndex data now = some (after, replies)) :
    (replies.map CacheGetResult.request ++ after.pendingGets.map PendingGet.request).Perm
      (cache.pendingGets.map PendingGet.request) := by
  rcases cacheReadResult_replies done with ⟨ready, block, effect, waits, rfl, rfl⟩
  have same := effect.perm_pendingGets
  have requests (pendings : List PendingGet) : (pendings.map fun pending =>
        replyWith pending.hash (ready.index.entries pending.entry) block
          false pending.replyTo).map CacheGetResult.request =
        pendings.map PendingGet.request := by
    rw [List.map_map]
    rfl
  simp only [resolvePendingGets, requests, ← List.map_append]
  exact ((List.filter_append_perm _ _).trans same).map _

/-- The coordinates that an entry names. -/
def Cache.coordinates (cache : Cache) (ref : EntryRef) : UInt64 × UInt64 :=
  ((cache.index.entries ref).sectionId, (cache.index.entries ref).sectionIndex)

section
variable {message : CacheMessage} (client : isReadResult message = false)
  (done : blockCacheDispatch world cache message = some (after, outgoing))
include client done

theorem blockCacheDispatch_cases :
    (outgoing.reads = [] ∧ after.pendingGets = cache.pendingGets) ∨
      ∃ hash ref receiver, indexFind cache.index hash = some ref ∧
        outgoing.reads = [cache.coordinates ref] ∧ after =
          { cache with
            pendingGets := ⟨hash, ref, receiver⟩ :: cache.pendingGets } := by
  cases gets : handlesGets message with
  | false =>
    have stepped : cacheStep world cache (.cache message) = some after :=
      Option.map_eq_some_iff.mpr ⟨_, done, rfl⟩
    left
    constructor
    · rw [outgoing_eq_nil done gets]
    · apply (kept_cacheStep stepped).2
      rintro other same
      rcases CacheStep.cache.inj same with rfl
      exact gets
  | true =>
    unfold handlesGets at gets
    split at gets
    · rename_i get now
      rcases Option.map_eq_some_iff.mp done with ⟨result, got, equal⟩
      cases equal
      rcases result with ⟨next, outcome⟩
      cases cacheGet_cases got with
      | answered | recalled =>
        refine .inl ⟨?_, rfl⟩
        unfold answer
        split
        · rfl
        · rfl
      | waiting ref receiver found receives =>
        exact .inr ⟨get.hash, ref, receiver, found, rfl, rfl⟩
      | missed => exact .inl ⟨rfl, rfl⟩
      | loaded ref block store _ found hash reads remembers direct =>
        exact .inl ⟨rfl, remembers.rest.pendingGets⟩
    · cases client
    · cases gets

theorem blockCacheDispatch_balance :
    (outgoing.replies.map CacheGetResult.request ++ after.pendingGets.map PendingGet.request).Perm
      (cache.pendingGets.map PendingGet.request ++ asks message) := by
  cases gets : handlesGets message with
  | false =>
    have stepped : cacheStep world cache (.cache message) = some after :=
      Option.map_eq_some_iff.mpr ⟨_, done, rfl⟩
    have same : after.pendingGets = cache.pendingGets := by
      apply (kept_cacheStep stepped).2
      rintro other same
      rcases CacheStep.cache.inj same with rfl
      exact gets
    have nothing : asks message = [] := by cases message <;> first | rfl | cases gets
    rw [outgoing_eq_nil done gets, same, nothing]
    simp
  | true =>
    unfold handlesGets at gets
    split at gets
    · rcases Option.map_eq_some_iff.mp done with ⟨result, got, equal⟩
      cases equal
      exact (cacheGet_cases got).balance
    · cases client
    · cases gets

end

end

/-- For every waiting get a read or a result is in flight, and all gets are accounted for. -/
structure Tracked (system : GetSystem) : Prop where
  covered : ∀ pending ∈ system.cache.pendingGets,
    system.cache.coordinates pending.entry ∈ system.reads ∨
      ∃ result ∈ system.results,
        system.cache.coordinates pending.entry = (result.sectionId, result.sectionIndex)
  balance :
    (system.replies.map CacheGetResult.request ++
        system.cache.pendingGets.map PendingGet.request).Perm
      system.asked

/-- The gets that wait on name the same slots as before. -/
def Undisplaced (before after : Cache) : Prop :=
  ∀ pending ∈ after.pendingGets, pending ∈ before.pendingGets →
    after.coordinates pending.entry = before.coordinates pending.entry

variable {cache : Cache}

theorem waitsFor_iff :
    waitsFor cache sectionId sectionIndex pending = true ↔
      cache.coordinates pending.entry = (sectionId, sectionIndex) := by
  simp [waitsFor, Cache.coordinates]

variable {after : Cache} {result : ReadResult}

namespace Tracked

variable {world : World} {system next : GetSystem}

theorem initial (idle : start.pendingGets = []) : Tracked (.initial start) := by
  constructor
  · intro pending member
    change pending ∈ start.pendingGets at member
    rw [idle] at member
    cases member
  · simp [GetSystem.initial, idle]

section
variable (tracked : Tracked system)
include tracked

/-- What is in flight for a get that waited. -/
theorem still (kept : Undisplaced system.cache after) (later : pending ∈ after.pendingGets)
    (member : pending ∈ system.cache.pendingGets) :
    after.coordinates pending.entry ∈ system.reads ∨
      ∃ result ∈ system.results, after.coordinates pending.entry =
        (result.sectionId, result.sectionIndex) := by
  rw [kept pending later member]
  exact tracked.covered pending member

theorem message {message : CacheMessage} (client : isReadResult message = false)
    (done : blockCacheDispatch world system.cache message = some (after, outgoing))
    (kept : Undisplaced system.cache after) :
    Tracked
      { system with
        cache := after
        reads := system.reads ++ outgoing.reads
        asked := system.asked ++ asks message
        replies := system.replies ++ outgoing.replies } := by
  constructor
  · intro pending later
    have old (member : pending ∈ system.cache.pendingGets) : after.coordinates pending.entry ∈
            system.reads ++ outgoing.reads ∨
          ∃ result ∈ system.results, after.coordinates pending.entry =
            (result.sectionId, result.sectionIndex) := by
      rcases tracked.still kept later member with read | result
      · exact .inl (List.mem_append_left _ read)
      · exact .inr result
    rcases blockCacheDispatch_cases client done with ⟨_, same⟩ |
      ⟨hash, ref, receiver, _, sent, equal⟩
    · apply old
      rw [← same]
      exact later
    · have member : pending ∈ after.pendingGets := later
      rw [equal] at member
      rcases List.mem_cons.mp member with rfl | member
      · left
        apply List.mem_append_right
        rw [sent, equal]
        exact List.mem_singleton_self _
      · exact old member
  · have counted := blockCacheDispatch_balance client done
    rw [List.map_append, List.append_assoc]
    apply (counted.append_left _).trans
    rw [← List.append_assoc]
    exact tracked.balance.append_right _

theorem read {id index : UInt64} {rest : List (UInt64 × UInt64)} (waiting : system.reads =
      (id, index) :: rest) (store : Store) (data : Option Bytes) :
    Tracked
      { system with
        cache := system.cache.withStore store
        reads := rest
        results := system.results ++ [⟨id, index, data⟩] } := by
  constructor
  · intro pending member
    rcases tracked.covered pending member with here | ⟨result, inside, same⟩
    · rw [waiting] at here
      rcases List.mem_cons.mp here with same | later
      · exact .inr ⟨⟨id, index, data⟩, by simp, same⟩
      · exact .inl later
    · exact .inr ⟨result, List.mem_append_left _ inside, same⟩
  · exact tracked.balance

theorem deliver (arrived : system.results = result :: rest)
    (done : cacheReadResult world system.cache result.sectionId
      result.sectionIndex result.data now = some (after, replies))
    (kept : Undisplaced system.cache after) :
    Tracked
      { system with
        cache := after
        results := rest
        replies := system.replies ++ replies } := by
  constructor
  · intro pending later
    rcases cacheReadResult_replies done with ⟨ready, block, effect, waits, equal, _⟩
    have member : pending ∈ after.pendingGets := later
    rw [equal] at member
    rcases List.mem_filter.mp member with ⟨inside, notHere⟩
    have old := effect.perm_pendingGets.mem_iff.mp inside
    rw [waits] at notHere
    rcases tracked.still kept later old with read | ⟨other, inside, same⟩
    · exact .inl read
    · rw [arrived] at inside
      rcases List.mem_cons.mp inside with rfl | after_
      · rw [kept pending later old] at same
        rw [waitsFor_iff.mpr same] at notHere
        cases notHere
      · exact .inr ⟨other, after_, same⟩
  · rw [List.map_append, List.append_assoc]
    exact ((cacheReadResult_balance done).append_left _).trans tracked.balance

theorem writeMeta (stepped : systemStep world system .writeMeta = some next) : Tracked next := by
  cases stepped
  exact ⟨tracked.covered, tracked.balance⟩

/-- A step that moves no get that waits keeps them tracked. -/
theorem step {step : SystemStep} (kept : Undisplaced system.cache next.cache)
    (stepped : systemStep world system step = some next) : Tracked next := by
  cases step with
  | message message =>
    simp only [systemStep] at stepped
    split at stepped
    · cases stepped
    · rename_i client
      rcases Option.map_eq_some_iff.mp stepped with ⟨⟨after, outgoing⟩, done, rfl⟩
      exact tracked.message (eq_false_of_ne_true client) done kept
  | read =>
    simp only [systemStep] at stepped
    split at stepped
    · cases stepped
    · rename_i id index rest waiting
      rcases Option.map_eq_some_iff.mp stepped with ⟨_, _, rfl⟩
      exact tracked.read waiting _ _
  | deliver now =>
    simp only [systemStep] at stepped
    split at stepped
    · cases stepped
    · rename_i result rest arrived
      rcases Option.map_eq_some_iff.mp stepped with ⟨⟨after, replies⟩, done, rfl⟩
      exact tracked.deliver arrived done kept
  | writeMeta => exact tracked.writeMeta stepped

/-- No get waits when nothing is in flight. -/
theorem idle (noReads : system.reads = [])
    (noResults : system.results = []) : system.cache.pendingGets = [] := by
  apply List.eq_nil_iff_forall_not_mem.mpr
  intro pending member
  rcases tracked.covered pending member with read | ⟨result, inside, _⟩
  · rw [noReads] at read
    cases read
  · rw [noResults] at inside
    cases inside

end

end Tracked

/-- When nothing is in flight, every get has been answered once. -/
def Answered (system : GetSystem) : Prop :=
  system.reads = [] → system.results = [] → system.cache.pendingGets = [] ∧
      (system.replies.map CacheGetResult.request).Perm system.asked

theorem Tracked.answered (tracked : Tracked system) : Answered system := by
  intro noReads noResults
  have idle := tracked.idle noReads noResults
  have balance := tracked.balance
  rw [idle, List.map_nil, List.append_nil] at balance
  exact ⟨idle, balance⟩

/-- A get that waits on names another slot after the step. -/
def displaces (world : World) (system : GetSystem) (step : SystemStep) : Bool :=
  match systemStep world system step with
  | none => false
  | some next =>
    next.cache.pendingGets.any fun pending =>
      decide (pending ∈ system.cache.pendingGets ∧
        next.cache.coordinates pending.entry ≠ system.cache.coordinates pending.entry)

def Cache.content (cache : Cache) (slot : UInt64 × Nat) : Bytes :=
  (cache.store.dataOf slot.1).slots slot.2

/-- Slots stay where they are; a put may have been given a new one. -/
structure Stays (stores : CachePut → Prop) (before after : Cache) : Prop where
  occupied : ∀ id index, before.store.Occupied id index → after.store.Occupied id index
  content : ∀ slot : UInt64 × Nat, before.store.Occupied slot.1 slot.2 →
    after.content slot = before.content slot
  coordinates : ∀ ref < before.index.nextRef, after.coordinates ref = before.coordinates ref
  named : ∀ hash slot, after.index.slotOf hash = some slot →
    before.index.slotOf hash = some slot ∨
      ∃ put, stores put ∧ put.block.hash = hash ∧ after.content slot = put.block.data

variable {ref : EntryRef}

theorem coordinates_of_slot {before : Cache}
    (same : (after.index.entries ref).slot = (before.index.entries ref).slot) :
    after.coordinates ref = before.coordinates ref := by
  rcases Prod.mk.inj same with ⟨id, index⟩
  rw [Cache.coordinates, Cache.coordinates, id, UInt64.toNat_inj.mp index]

section
variable {world : World} {cache after : Cache}

theorem StillEffect.stays (effect : StillEffect deletes stores cache after)
    (owned : SlotsOwned cache) : Stays stores cache after := by
  cases effect with
  | touched index store =>
    refine ⟨?_, ?_, ?_, ?_⟩
    · intro id place used
      exact (store.occupied id place).mpr used
    · intro slot used
      exact store.slots slot.1 slot.2 used
    · intro ref _
      exact coordinates_of_slot (index.slot ref)
    · intro hash slot named
      rw [index.slotOf] at named
      exact .inl named
  | forgot needed index store =>
    refine ⟨?_, ?_, ?_, ?_⟩
    · intro id place used
      rw [store]
      exact used
    · intro slot _
      rw [Cache.content, store]
      rfl
    · intro ref _
      exact coordinates_of_slot (index.slot ref)
    · intro hash slot named
      exact .inl (index.slotOf named)
  | added put ours id place index store =>
    refine ⟨?_, ?_, ?_, ?_⟩
    · intro other slot used
      exact (store.occupied other slot).mpr (.inl used)
    · intro slot used
      exact store.slots slot.1 slot.2 used
    · intro ref old
      exact coordinates_of_slot (index.slot ref old)
    · intro hash slot named
      rw [index.slotOf owned.wellFormed] at named
      split at named
      · rename_i same
        cases named
        exact .inr ⟨put, ours, same.symm, store.content⟩
      · exact .inl named

/-- A step that moves no slots leaves the slots in place. -/
theorem stays_cacheStep (reliable : Reliable world.io) (owned : SlotsOwned cache)
    (unmoved : movesSlots world cache step = false)
    (stepped : cacheStep world cache step = some after) :
    Stays (fun put => ∃ now, step = .cache (.put put now)) cache after := by
  cases still : defragments step with
  | false => exact (stillEffect_cacheStep reliable owned still stepped).stays owned
  | true =>
    unfold defragments at still
    split at still
    · rename_i threshold write
      cases stepped
      rcases unmoved_cacheDefragment reliable owned unmoved with ⟨index, slots⟩
      refine ⟨?_, ?_, ?_, ?_⟩
      · intro id place used
        exact (slots id place used).1
      · intro slot used
        exact (slots slot.1 slot.2 used).2
      · intro ref _
        apply coordinates_of_slot
        change ((cacheDefragment world cache threshold write).1.index.entries ref).slot = _
        rw [index]
      · intro hash slot named
        change (cacheDefragment world cache threshold write).1.index.slotOf hash = _ at named
        rw [index] at named
        exact .inl named
    · cases still

end

/-- The bytes are a block of the cache with the hash. -/
structure Genuine (world : World) (type : BlockSize) (hash : Hash) (bytes : Bytes) : Prop where
  hash : world.hashData bytes = hash
  size : bytes.length = type.bytes

variable {bytes : Bytes}

theorem Genuine.verifiedBlock {world : World} {type : BlockSize} {hash : Hash}
    (genuine : Genuine world type hash bytes) :
    verifiedBlock world bytes hash = some ⟨bytes, hash⟩ := by
  have fits : bytes.length ∈ [BlockSize.standard.bytes,
      BlockSize.mega.bytes, BlockSize.nano.bytes, BlockSize.mini.bytes] := by
    rw [genuine.size]
    cases type <;> simp
  rw [BlockCache.verifiedBlock, if_pos genuine.hash, blockCreateExistingDataHash, if_pos fits]

/-- Every slot that the index names holds the block of its hash. -/
def Intact (world : World) (cache : Cache) : Prop :=
  ∀ hash slot, cache.index.slotOf hash = some slot →
    Genuine world cache.type hash (cache.content slot)

theorem Blank.intact (blank : Blank cache) : Intact world cache := by
  intro hash slot named
  rw [blank.unnamed] at named
  cases named

/-- What holds of the two actors as long as they are orderly. -/
structure Serving (world : World) (system : GetSystem) : Prop where
  pendingOwned : PendingOwned system.cache
  intact : Intact world system.cache
  genuine : ∀ pending ∈ system.cache.pendingGets,
    Genuine world system.cache.type pending.hash
      (system.cache.content (system.cache.index.entries pending.entry).slot)
  tracked : Tracked system
  reads : ∀ read ∈ system.reads, system.cache.store.Occupied read.1 read.2.toNat
  results : ∀ result ∈ system.results,
    system.cache.store.Occupied result.sectionId result.sectionIndex.toNat ∧
      ∀ bytes, result.data = some bytes →
        bytes = system.cache.content (result.sectionId, result.sectionIndex.toNat)

/-- Blocks have their hashes, and slots are moved only when no read is in flight. -/
def orderly (world : World) (system : GetSystem) : SystemStep → Bool
  | .message (.put put _) =>
    decide (world.hashData put.block.data = put.block.hash ∧
      put.block.data.length = system.cache.type.bytes)
  | .message message =>
    !movesSlots world system.cache (.cache message) ||
      (system.reads.isEmpty && system.results.isEmpty)
  | _ => true

section
variable {world : World} {system : GetSystem}

end

section
variable {world : World} {system : GetSystem}

theorem serving_initial (owned : SlotsOwned start) (intact : Intact world start)
    (idle : start.pendingGets = []) : Serving world (.initial start) := by
  have empty (pending : PendingGet) : pending ∉ start.pendingGets := by
    rw [idle]
    exact List.not_mem_nil
  refine ⟨⟨owned, ?_, ?_⟩, intact, ?_, .initial idle, ?_, ?_⟩
  · intro pending member
    exact absurd member (empty pending)
  · intro first member
    exact absurd member (empty first)
  · intro pending member
    exact absurd member (empty pending)
  · intro read member
    cases member
  · intro result member
    cases member

theorem slot_eq_coordinates :
    (cache.index.entries ref).slot = ((cache.coordinates ref).1, (cache.coordinates ref).2.toNat) :=
  rfl

section
variable (serving : Serving world system)
include serving

/-- What is read and pending stays as it is where slots stay in place. -/
theorem Serving.stays (reliable : Reliable world.io)
    (unmoved : movesSlots world system.cache step = false)
    (stepped : cacheStep world system.cache step = some after)
    (puts : ∀ put now, step = .cache (.put put now) →
      Genuine world system.cache.type put.block.hash put.block.data) :
    PendingOwned after ∧ Intact world after ∧ (∀ pending ∈ after.pendingGets,
        Genuine world after.type pending.hash
          (after.content (after.index.entries pending.entry).slot)) ∧
      Stays (fun put => ∃ now, step = .cache (.put put now)) system.cache after := by
  have owned := serving.pendingOwned.owned
  have stays := stays_cacheStep reliable owned unmoved stepped
  have type := (kept_cacheStep stepped).1
  have followed : strands world system.cache step = false := by
    rw [strands, unmoved, Bool.false_and]
  have later := PendingOwned.step reliable serving.pendingOwned stepped followed
  have intact : Intact world after := by
    intro hash slot named
    rw [type]
    rcases stays.named hash slot named with old | ⟨put, ours, same, data⟩
    · rw [stays.content slot (owned.occupied hash slot old)]
      exact serving.intact hash slot old
    · rcases ours with ⟨now, rfl⟩
      rw [data, ← same]
      exact puts put now rfl
  refine ⟨later, intact, ?_, stays⟩
  intro pending member
  rcases pendingGets_cacheStep stepped member with old | found
  · have waits := serving.pendingOwned.waits pending old
    have slot : (after.index.entries pending.entry).slot =
        (system.cache.index.entries pending.entry).slot := by
      rw [slot_eq_coordinates, slot_eq_coordinates, stays.coordinates _ waits.created]
    rw [slot, type, stays.content _ waits.occupied]
    exact serving.genuine pending old
  · exact intact pending.hash _ (slotOf_eq_some_iff.mpr ⟨pending.entry, found, rfl⟩)

/-- Reads and results in flight are about the slots as they are. -/
theorem Serving.inFlight (stays : Stays stores system.cache after) :
    (∀ read ∈ system.reads, after.store.Occupied read.1 read.2.toNat) ∧ ∀ result ∈ system.results,
        after.store.Occupied result.sectionId result.sectionIndex.toNat ∧
          ∀ bytes, result.data = some bytes → bytes = after.content
              (result.sectionId, result.sectionIndex.toNat) := by
  constructor
  · intro read member
    exact stays.occupied _ _ (serving.reads read member)
  · intro result member
    rcases serving.results result member with ⟨used, data⟩
    refine ⟨stays.occupied _ _ used, fun bytes arrived => ?_⟩
    rw [stays.content (result.sectionId, result.sectionIndex.toNat) used]
    exact data bytes arrived

/-- Where slots stay in place, no get that waits is moved. -/
theorem Serving.undisplaced (stays : Stays stores system.cache after) :
    Undisplaced system.cache after := by
  intro pending _ member
  exact stays.coordinates _ (serving.pendingOwned.waits pending member).created

section
variable (reliable : Reliable world.io)
include reliable

/-- A message that moves slots comes when nothing is in flight. -/
theorem Serving.moved
    (done : blockCacheDispatch world system.cache message = some (after, outgoing))
    (moves : movesSlots world system.cache (.cache message) = true) (noReads : system.reads = [])
    (noResults : system.results = []) :
    PendingOwned after ∧ Intact world after ∧ after.pendingGets = [] := by
  have idle := serving.tracked.idle noReads noResults
  have owned := serving.pendingOwned.owned
  have stepped : cacheStep world system.cache (.cache message) = some after :=
    Option.map_eq_some_iff.mpr ⟨_, done, rfl⟩
  have followed : strands world system.cache (.cache message) = false := by
    rw [strands, idle, List.any_nil, Bool.and_false]
  have later := PendingOwned.step reliable serving.pendingOwned stepped followed
  unfold movesSlots at moves
  split at moves
  · rename_i threshold write same
    rcases CacheStep.cache.inj same with rfl
    have touched : Touched system.cache (cacheDefragment world system.cache threshold write).1 :=
      touched_cacheDefragment
    rcases moves_cacheDefragment reliable owned threshold write with ⟨place, moves, relocates⟩
    rcases Option.some.inj stepped with rfl
    refine ⟨later, ?_, touched.pendingGets.trans idle⟩
    intro hash slot named
    change (cacheDefragment world system.cache threshold write).1.index.slotOf hash = _ at named
    rw [moves.slotOf] at named
    rcases Option.map_eq_some_iff.mp named with ⟨old, here, rfl⟩
    have content := relocates.slots old.1 old.2 (owned.occupied hash old here)
    have genuine := serving.intact hash old here
    rw [Cache.content, ← content] at genuine
    rw [(kept_cacheStep stepped).1]
    exact genuine
  · cases moves

variable {next : GetSystem}

theorem Serving.message {message : CacheMessage}
    (good : orderly world system (.message message) = true)
    (stepped : systemStep world system (.message message) = some next) : Serving world next := by
  unfold systemStep at stepped
  simp only at stepped
  split at stepped
  · cases stepped
  · rename_i fromClient
    have client := eq_false_of_ne_true fromClient
    rcases Option.map_eq_some_iff.mp stepped with ⟨⟨after, outgoing⟩, done, rfl⟩
    cases moved : movesSlots world system.cache (.cache message) with
    | true =>
      have settled : (!movesSlots world system.cache (.cache message) ||
          (system.reads.isEmpty && system.results.isEmpty)) = true := by
        cases message with
        | put put now => cases moved
        | _ => exact good
      obtain ⟨noReads, noResults⟩ : system.reads = [] ∧ system.results = [] := by
        simpa [moved] using settled
      rcases serving.moved reliable done moved noReads noResults with ⟨pendingOwned, intact, idle⟩
      have noOutgoing : outgoing.reads = [] := by
        rcases blockCacheDispatch_cases client done with ⟨none_, _⟩ |
          ⟨hash, ref, receiver, _, _, equal⟩
        · exact none_
        · rw [equal] at idle
          cases idle
      have none_ (pending : PendingGet) : pending ∉ after.pendingGets := by
        rw [idle]
        exact List.not_mem_nil
      have tracked := serving.tracked.message client done
        fun pending later _ => absurd later (none_ pending)
      refine ⟨pendingOwned, intact, ?_, tracked, ?_, ?_⟩
      · intro pending member
        exact absurd member (none_ pending)
      · intro read member
        simp only [noReads, noOutgoing, List.append_nil] at member
        cases member
      · intro result member
        simp only [noResults] at member
        cases member
    | false =>
      have step : cacheStep world system.cache (.cache message) = some after :=
        Option.map_eq_some_iff.mpr ⟨_, done, rfl⟩
      rcases serving.stays reliable moved step (by
        intro put now same
        rcases CacheStep.cache.inj same with rfl
        exact ⟨(of_decide_eq_true good).1, (of_decide_eq_true good).2⟩) with
        ⟨pendingOwned, intact, genuine, stays⟩
      rcases serving.inFlight stays with ⟨reads, results⟩
      have tracked := serving.tracked.message client done (serving.undisplaced stays)
      refine ⟨pendingOwned, intact, genuine, tracked, ?_, results⟩
      intro read member
      rcases List.mem_append.mp member with old | new
      · exact reads read old
      · rcases blockCacheDispatch_cases client done with ⟨none_, _⟩ |
          ⟨hash, ref, receiver, found, sent, equal⟩
        · rw [none_] at new
          cases new
        · rw [sent] at new
          rcases List.mem_singleton.mp new with rfl
          apply stays.occupied
          exact serving.pendingOwned.owned.occupied hash _
            (slotOf_eq_some_iff.mpr ⟨ref, found, rfl⟩)

theorem Serving.writeMeta (stepped : systemStep world system .writeMeta = some next) :
    Serving world next := by
  have tracked := serving.tracked.writeMeta stepped
  change (cacheStep world system.cache .sectionWriteMeta).map
    (fun cache => { system with cache }) = some next at stepped
  rcases Option.map_eq_some_iff.mp stepped with ⟨after, step, rfl⟩
  rcases serving.stays reliable rfl step (by simp) with ⟨pendingOwned, intact, genuine, stays⟩
  rcases serving.inFlight stays with ⟨reads, results⟩
  exact ⟨pendingOwned, intact, genuine, tracked, reads, results⟩

theorem Serving.read (stepped : systemStep world system .read = some next) :
    Serving world next := by
  unfold systemStep at stepped
  simp only at stepped
  split at stepped
  · cases stepped
  · rename_i id index rest waiting
    have owned := serving.pendingOwned.owned
    have used : system.cache.store.Occupied id index.toNat :=
      serving.reads (id, index) (by simp [waiting])
    rcases sectionsRead_consistent reliable owned.consistent id
      index.toNat with ⟨store, value, time, read, keeps, content⟩
    change sectionsRead world.io system.cache.sections _ _ system.cache.disk = _ at read
    rw [read] at stepped
    cases stepped
    have step : cacheStep world system.cache (.sectionsRead id index.toNat) =
          some (system.cache.withStore store) := by
      simp [cacheStep, read]
    rcases serving.stays reliable rfl step (by simp) with ⟨pendingOwned, intact, genuine, stays⟩
    rcases serving.inFlight stays with ⟨reads, results⟩
    have tracked := serving.tracked.read waiting store value
    refine ⟨pendingOwned, intact, genuine, tracked, ?_, ?_⟩
    · intro other member
      exact reads other (by rw [waiting]; exact List.mem_cons_of_mem _ member)
    · intro result member
      rcases List.mem_append.mp member with old | new
      · exact results result old
      · rcases List.mem_singleton.mp new with rfl
        refine ⟨stays.occupied _ _ used, fun bytes arrived => ?_⟩
        rw [stays.content (id, index.toNat) used]
        have value_eq := content used
        change value = some bytes at arrived
        rw [arrived] at value_eq
        split at value_eq
        · exact Option.some.inj value_eq
        · cases value_eq

theorem Serving.deliver (stepped : systemStep world system (.deliver now) = some next) :
    Serving world next := by
  unfold systemStep at stepped
  simp only at stepped
  split at stepped
  · cases stepped
  · rename_i result rest arrived
    rcases Option.map_eq_some_iff.mp stepped with ⟨⟨after, replies⟩, done, rfl⟩
    have step : cacheStep world system.cache
        (.cache (.readResult result.sectionId result.sectionIndex
          result.data now)) = some after := by
      apply Option.map_eq_some_iff.mpr
      exact ⟨(after, ⟨replies, []⟩), Option.map_eq_some_iff.mpr ⟨_, done, rfl⟩, rfl⟩
    rcases serving.stays reliable rfl step (by simp) with ⟨pendingOwned, intact, genuine, stays⟩
    rcases serving.inFlight stays with ⟨reads, results⟩
    have tracked := serving.tracked.deliver arrived done (serving.undisplaced stays)
    refine ⟨pendingOwned, intact, genuine, tracked, reads, ?_⟩
    intro other member
    exact results other (by rw [arrived]; exact List.mem_cons_of_mem _ member)

/-- Orderly steps keep the two actors serving. -/
theorem Serving.step {step : SystemStep} (good : orderly world system step = true)
    (stepped : systemStep world system step = some next) : Serving world next := by
  cases step with
  | message message => exact serving.message reliable good stepped
  | read => exact serving.read reliable stepped
  | deliver now => exact serving.deliver reliable stepped
  | writeMeta => exact serving.writeMeta reliable stepped

end

end

/-- What is asked for with its data is answered with its block. -/
def Served (world : World) (system : GetSystem) : SystemStep → Prop
  | .message (.get get now) =>
    ∀ ref, indexFind system.cache.index get.hash = some ref → get.noData = false → (get.peerServe &&
        !indexEntryIsServable (system.cache.index.entries ref)) = false →
      ∀ after outgoing,
        blockCacheDispatch world system.cache (.get get now) = some (after, outgoing) →
          ∀ reply ∈ outgoing.replies, reply.block.isSome
  | .deliver now =>
    ∀ result ∈ system.results.head?, result.data.isSome → ∀ after replies,
        cacheReadResult world system.cache result.sectionId
            result.sectionIndex result.data now = some (after, replies) →
          ∀ pending ∈ system.cache.pendingGets,
            waitsFor system.cache result.sectionId result.sectionIndex pending = true →
              ∃ reply ∈ replies, reply.request = pending.request ∧ reply.block.isSome
  | _ => True

theorem GetEffect.served (found : indexFind cache.index get.hash = some ref)
    (withData : get.noData = false)
    (servable : (get.peerServe && !indexEntryIsServable (cache.index.entries ref)) = false)
    (done : cacheGet world cache get now = some (after, outcome)) :
    ∀ reply ∈ outcome.replies, reply.block.isSome := by
  intro reply sent
  simp only [cacheGet, found, servable, withData, reduceCtorEq, if_false, cacheGetData] at done
  split at done
  · cases done
    unfold answer at sent
    split at sent
    · rcases List.mem_singleton.mp sent with rfl
      rfl
    · cases sent
  · cases done
    cases sent
  · rcases Option.map_eq_some_iff.mp done with ⟨read, _, equal⟩
    cases equal
    cases sent

/-- The block of a read drives itself out of the cache of blocks. -/
def selfEvicts (world : World) (system : GetSystem) : Bool :=
  match system.results with
  | result :: _ =>
    match result.data, system.cache.pendingGets.find?
        (waitsFor system.cache result.sectionId result.sectionIndex) with
    | some data, some first =>
      match verifiedBlock world data (system.cache.index.hashOf first.entry) with
      | some block =>
        (blockLruCachePut system.cache.lruSize system.cache.lru block first.entry).isNone
      | none => false
    | _, _ => false
  | [] => false

/-- What is in flight can be handled. -/
structure Progresses (world : World) (system : GetSystem) : Prop where
  reads : system.reads ≠ [] → (systemStep world system .read).isSome
  results : system.results ≠ [] → selfEvicts world system = false →
    ∀ now, (systemStep world system (.deliver now)).isSome

variable (serving : Serving world system)
include serving

/-- Every get that waits for a slot is given the block in it. -/
theorem Serving.delivered (head : result ∈ system.results) (data : result.data = some bytes)
    (done : cacheReadResult world system.cache result.sectionId
      result.sectionIndex result.data now = some (after, replies))
    (member : pending ∈ system.cache.pendingGets)
    (waiting : waitsFor system.cache result.sectionId result.sectionIndex pending = true) :
    ∃ reply ∈ replies, reply.request = pending.request ∧ reply.block.isSome := by
  have right (first : PendingGet) (found : system.cache.pendingGets.find?
        (waitsFor system.cache result.sectionId result.sectionIndex) = some first) :
      verifiedBlock world bytes (system.cache.index.hashOf first.entry) =
        some ⟨bytes, system.cache.index.hashOf first.entry⟩ := by
    have inside := List.mem_of_find?_eq_some found
    have here := waitsFor_iff.mp (List.find?_some found)
    have genuine := serving.genuine first inside
    rw [slot_eq_coordinates, here] at genuine
    rw [← (serving.results result head).2 bytes data] at genuine
    rw [(serving.pendingOwned.waits first inside).hash]
    exact genuine.verifiedBlock
  rcases cacheReadResult_replies done with ⟨ready, block, effect, waits, _, rfl⟩
  have full : block.isSome := by
    cases effect with
    | ignored idle =>
      rcases idle with none_ | idle
      · rw [data] at none_
        cases none_
      · have absent := List.find?_eq_none.mp idle pending member
        exact absurd waiting absent
    | mismatched arrived first found same wrong =>
      rw [data] at same
      cases same
      rw [right first found] at wrong
      cases wrong
    | verified arrived first value kept found same matched remembers => rfl
  refine ⟨_, List.mem_map_of_mem (List.mem_filter.mpr ⟨?_, ?_⟩), rfl, full⟩
  · exact effect.perm_pendingGets.mem_iff.mpr member
  · rw [waits]
    exact waiting

theorem Serving.served (step : SystemStep) : Served world system step := by
  unfold Served
  split
  · intro ref found withData servable after outgoing done
    rcases Option.map_eq_some_iff.mp done with ⟨result, got, equal⟩
    cases equal
    exact GetEffect.served found withData servable got
  · intro result head full after replies done pending member waiting
    rcases Option.isSome_iff_exists.mp full with ⟨bytes, data⟩
    exact serving.delivered (List.mem_of_head? head) data done member waiting
  · trivial

theorem Serving.progresses (reliable : Reliable world.io) : Progresses world system := by
  constructor
  · intro some_
    cases waiting : system.reads with
    | nil => exact absurd waiting some_
    | cons read rest =>
      rcases sectionsRead_consistent reliable
        serving.pendingOwned.owned.consistent read.1 read.2.toNat with
        ⟨store, value, time, done, _, _⟩
      change sectionsRead world.io system.cache.sections _ _ system.cache.disk = _ at done
      simp [systemStep, waiting, done]
  · intro some_ remains now
    cases arrived : system.results with
    | nil => exact absurd arrived some_
    | cons result rest =>
      simp only [systemStep, arrived, Option.isSome_map, cacheReadResult, cacheReceive]
      split
      · rename_i data first arrivedData found
        split
        · rename_i block right
          have kept : (blockLruCachePut system.cache.lruSize
              system.cache.lru block first.entry).isNone = false := by
            have same : verifiedBlock world data (system.cache.index.hashOf first.entry) =
              some block := right
            simpa [selfEvicts, arrived, arrivedData, found, same] using remains
          simpa [cacheRemember] using kept
        · rfl
      · rfl

end

/-- The two actors take one step after the other. -/
def systemRun (world : World) (system : GetSystem) (steps : List SystemStep) : Option GetSystem :=
  steps.foldlM (systemStep world) system

/--
Every get is answered once, unless it is moved while it waits.  If files are reliable and slots
are moved only when no read is in flight, gets are answered with their blocks.
-/
theorem gets_are_answered_once {world : World} {start : Cache} (idle : start.pendingGets = [])
    (steps : List SystemStep) :
    (Runs.EachStep (systemStep world) (fun system step => displaces world system step = false)
        (.initial start) steps →
      Runs.Throughout (systemStep world) Answered (.initial start) steps) ∧
      (Reliable world.io → SlotsOwned start → Intact world start → Runs.EachStep (systemStep world)
            (fun system step => orderly world system step = true) (.initial start) steps →
          Runs.Throughout (systemStep world)
              (fun system => Answered system ∧ Progresses world system) (.initial start) steps ∧
            Runs.EachStep (systemStep world) (Served world) (.initial start) steps) := by
  constructor
  · intro kept
    exact kept.throughout (fun _ _ _ tracked stays stepped =>
        Tracked.step tracked (fun pending later member => by
          simp only [displaces, stepped, List.any_eq_false, decide_eq_true_eq, not_and,
            not_not] at stays
          exact stays pending later member) stepped)
      (fun _ tracked => tracked.answered)
      (Tracked.initial idle)
  · intro reliable owned intact good
    have initial := serving_initial owned intact idle
    constructor
    · exact good.throughout (fun _ _ _ serving good stepped =>
          serving.step reliable good stepped)
        (fun _ serving => ⟨serving.tracked.answered, serving.progresses reliable⟩)
        initial
    · exact good.imp (fun _ _ _ serving good stepped =>
          serving.step reliable good stepped)
        (fun _ step _ serving _ _ => serving.served step)
        initial

/-- A message that puts a small block. -/
def putMessage (byte : UInt8) : SystemStep :=
  .message (.put ⟨nanoBlock byte, 0, false, 0⟩ 0)

/-- A message that asks for a small block. -/
def getMessage (byte : UInt8) (receiver : Nat) : SystemStep :=
  .message (.get ⟨(nanoBlock byte).hash, false, false, some receiver⟩ 0)

/-- A get of a block that is read while another block is put. -/
theorem get_is_answered_once :
    ∃ start, createTiny = some start ∧ Runs.Throughout (systemStep (smallWorld reliableIo))
        (fun system => Answered system ∧ Progresses (smallWorld reliableIo) system) (.initial start)
        [putMessage 1, putMessage 2, getMessage 1 0, putMessage 3, .read, .deliver 0] ∧
      Runs.EachStep (systemStep (smallWorld reliableIo))
        (Served (smallWorld reliableIo)) (.initial start)
        [putMessage 1, putMessage 2, getMessage 1 0, putMessage 3, .read, .deliver 0] := by
  obtain ⟨start, created, idle, each⟩ : ∃ start, createTiny = some start ∧
      start.pendingGets = [] ∧ Runs.EachStep (systemStep (smallWorld reliableIo))
        (fun system step => orderly (smallWorld reliableIo) system step = true) (.initial start)
        [putMessage 1, putMessage 2, getMessage 1 0, putMessage 3, .read, .deliver 0] := by
    decide +kernel
  have blank := blank_blockCacheCreate reliable_reliableIo ⟨by decide, by decide⟩ created
  exact ⟨start, created, (gets_are_answered_once idle _).2
    reliable_reliableIo blank.slotsOwned blank.intact each⟩

/--
After a crash that lost its free map the slot of a block is given to another one, and the get of
the first is answered without a block.
-/
theorem overwritten_get_has_no_block :
    ∃ start final, restartTiny [.cache (.indexSave .complete), putNano 1] = some start ∧
      systemRun (smallWorld reliableIo) (.initial start)
          [putMessage 2, putMessage 3, putMessage 4, getMessage 1 0, .read, .deliver 0] =
        some final ∧ indexFind start.index (nanoBlock 1).hash ≠ none ∧
      indexFind final.cache.index (nanoBlock 1).hash ≠ none ∧
      slotData final.cache 0 0 = some (some (nanoBlock 3).data) ∧
      final.reads = [] ∧ final.results = [] ∧
      final.replies.map (fun reply => (reply.request, reply.block.isSome)) =
        [((0, (nanoBlock 1).hash), false)] := by
  simp only [exists_and_left]
  decide +kernel

end Liboffs.BlockCache

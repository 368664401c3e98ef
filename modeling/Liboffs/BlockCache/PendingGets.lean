import Liboffs.BlockCache.CacheRecovery
import Liboffs.BlockCache.LruCoherence

/-!
# Pending gets

A get that has to read its block waits, with its entry, for the read of the slot that the entry
names.  Arriving data are checked against the first get for the slot, and all gets for the slot
are given the block.

Every get is given its block as long as gets for different hashes wait for different slots: when
every entry owns its slot and no slots are moved while a get waits with a removed entry.
-/

namespace Liboffs.BlockCache

open Library Library.ByteOrder Library.FileSlots List Option

/-- Every reply of a step that has a block has the block asked for. -/
def RepliesRight (world : World) (cache : Cache) : CacheStep → Prop
  | .cache message =>
    ∀ after outgoing,
      blockCacheDispatch world cache message = some (after, outgoing) →
        ∀ reply ∈ outgoing.replies, ∀ block, reply.block = some block → block.hash = reply.hash
  | _ => True

/-- Data that are right for one get are handed to a get of another hash. -/
def mixes (world : World) (cache : Cache) : CacheStep → Bool
  | .cache (.readResult sectionId sectionIndex (some data) _) =>
    match cache.pendingGets.find? (waitsFor cache sectionId sectionIndex) with
    | some first =>
      let hash := cache.index.hashOf first.entry
      (verifiedBlock world data hash).isSome && (cache.pendingGets.filter
          (waitsFor cache sectionId sectionIndex)).any fun pending => decide (pending.hash ≠ hash)
    | none => false
  | _ => false

variable {get : CacheGet} {outcome : GetOutcome}

section
variable {world : World} {cache after : Cache}

theorem GetEffect.replies_right (effect : GetEffect world cache get after outcome)
    {reply : CacheGetResult} (sent : reply ∈ outcome.replies) {block : Block}
    (full : reply.block = some block) : block.hash = reply.hash := by
  cases effect with
  | answered answer plain =>
    unfold GetOutcome.answer at sent
    split at sent
    · rcases mem_singleton.mp sent with rfl
      rw [(plain _).1] at full
      cases full
    · cases sent
  | recalled node entry found =>
    unfold GetOutcome.answer at sent
    split at sent
    · rcases mem_singleton.mp sent with rfl
      cases full
      exact (Recency.mem_of_find found).2
    · cases sent
  | waiting | missed | loaded => cases sent

/-- A found element may be moved to the front. -/
theorem perm_front (found : pendings.find? waits = some first) :
    (first :: pendings.eraseP waits).Perm pendings := by
  rcases exists_of_eraseP (mem_of_find?_eq_some found) (find?_some found) with
    ⟨other, front, back, none_, holds, split, rest⟩
  have same : other = first := by
    rw [split, find?_append, find?_eq_none.mpr
      (by simpa using none_), none_or, find?_cons_of_pos holds] at found
    exact Option.some.inj found
  rw [rest, split, same]
  exact perm_middle.symm

theorem ReceiveEffect.perm_pendingGets
    (effect : ReceiveEffect world cache sectionId sectionIndex data after
      block) : after.pendingGets.Perm cache.pendingGets := by
  cases effect with
  | ignored idle => exact Perm.refl _
  | mismatched bytes first found arrived wrong => exact perm_front found
  | verified bytes first value kept found arrived right remembers =>
    rw [remembers.rest.pendingGets]
    exact perm_front found

/-- The messages that deal with gets. -/
def handlesGets : CacheMessage → Bool
  | .get _ _ => true
  | .readResult _ _ _ _ => true
  | _ => false

/-- Only the messages that deal with gets send anything. -/
theorem outgoing_eq_nil (done : blockCacheDispatch world cache message = some (after, outgoing))
    (other : handlesGets message = false) : outgoing = ⟨[], []⟩ := by
  cases message with
  | get | readResult => cases other
  | put | putGroupEnd | gc | remove | ephemeral =>
    rcases map_eq_some_iff.mp done with ⟨_, _, equal⟩
    exact (Prod.mk.inj equal).2.symm
  | resize | defragment | indexSave | pin => exact (Prod.mk.inj (Option.some.inj done)).2.symm

section
variable (done : cacheReadResult world cache sectionId sectionIndex data now = some (after, replies))
include done

/-- The gets that are answered with the data of a slot. -/
theorem cacheReadResult_replies :
    ∃ ready block, ReceiveEffect world cache sectionId sectionIndex data ready block ∧
        waitsFor ready sectionId sectionIndex = waitsFor cache sectionId sectionIndex ∧ after =
          (resolvePendingGets ready sectionId sectionIndex block).1 ∧
        replies = (resolvePendingGets ready sectionId sectionIndex block).2 := by
  rcases map_eq_some_iff.mp done with ⟨⟨ready, block⟩, got, equal⟩
  cases equal
  refine ⟨ready, block, cacheReceive_cases got, funext fun pending => ?_, rfl, rfl⟩
  rcases Prod.mk.inj ((cacheReceive_cases got).touches.1.slot pending.entry) with ⟨id, index⟩
  simp only [waitsFor, id, UInt64.toNat_inj.mp index]

theorem repliesRight_readResult_iff :
    (∀ reply ∈ replies, ∀ block, reply.block = some block → block.hash = reply.hash) ↔
      mixes world cache (.cache (.readResult sectionId sectionIndex data now)) = false := by
  rcases cacheReadResult_replies done with ⟨ready, block, effect, waits, _, rfl⟩
  have empty (none_ : block = none) (reply : CacheGetResult) (sent : reply ∈
        (resolvePendingGets ready sectionId sectionIndex block).2)
      (value : Block) (full : reply.block = some value) : value.hash = reply.hash := by
    rcases mem_map.mp sent with ⟨pending, _, rfl⟩
    rw [none_] at full
    cases full
  cases effect with
  | ignored idle =>
    refine iff_of_true (empty rfl) ?_
    rcases idle with rfl | idle
    · rfl
    · cases data with
      | none => rfl
      | some bytes => simp [mixes, idle]
  | mismatched bytes first found arrived wrong =>
    refine iff_of_true (empty rfl) ?_
    simp [mixes, arrived, found, wrong]
  | verified bytes first value kept found arrived right remembers =>
    have same := hash_of_verifiedBlock right
    have members (pending : PendingGet) : pending ∈ (first :: kept.pendingGets).filter
          (waitsFor cache sectionId sectionIndex) ↔
        pending ∈ cache.pendingGets.filter (waitsFor cache sectionId sectionIndex) := by
      rw [remembers.rest.pendingGets]
      exact ((perm_front found).filter _).mem_iff
    simp only [mixes, arrived, found, right, isSome_some, Bool.true_and, List.any_eq_false,
      decide_eq_true_eq, not_not, resolvePendingGets, waits, List.forall_mem_map]
    constructor
    · intro all pending waiting
      have equal := all pending ((members pending).mpr waiting) value rfl
      exact equal.symm.trans same
    · intro all pending waiting block full
      cases full
      exact same.trans (all pending ((members pending).mp waiting)).symm

end

theorem repliesRight_iff {step : CacheStep} (stepped : cacheStep world cache step = some after) :
    RepliesRight world cache step ↔ mixes world cache step = false := by
  cases step with
  | sectionsRead | sectionWriteMeta => exact iff_of_true trivial rfl
  | cache message =>
    cases gets : handlesGets message with
    | false =>
      have unmixed : mixes world cache (.cache message) = false := by
        cases message <;> first | rfl | cases gets
      refine iff_of_true ?_ unmixed
      intro after outgoing done reply sent
      rw [outgoing_eq_nil done gets] at sent
      cases sent
    | true =>
      unfold handlesGets at gets
      split at gets
      · refine iff_of_true ?_ rfl
        intro after outgoing done reply sent block full
        rcases map_eq_some_iff.mp done with ⟨result, got, equal⟩
        cases equal
        exact (cacheGet_cases got).replies_right sent full
      · rcases map_eq_some_iff.mp stepped with ⟨dispatched, done, _⟩
        rcases map_eq_some_iff.mp done with ⟨result, read, rfl⟩
        rw [← repliesRight_readResult_iff read]
        constructor
        · intro right
          exact right _ _ done
        · intro right other outgoing again
          rw [done] at again
          cases again
          exact right
      · cases gets

end

/-- A pending get holds an object of its hash, whose slot the index names for no other hash. -/
structure Waits (cache : Cache) (pending : PendingGet) : Prop where
  created : pending.entry < cache.index.nextRef
  hash : cache.index.hashOf pending.entry = pending.hash
  occupied : cache.store.Occupied
    (cache.index.entries pending.entry).slot.1
    (cache.index.entries pending.entry).slot.2
  apart : ∀ hash, cache.index.slotOf hash =
      some (cache.index.entries pending.entry).slot → hash = pending.hash

/-- The index and the pending gets own their slots. -/
structure PendingOwned (cache : Cache) : Prop where
  owned : SlotsOwned cache
  waits : ∀ pending ∈ cache.pendingGets, Waits cache pending
  distinct : ∀ first ∈ cache.pendingGets, ∀ second ∈ cache.pendingGets,
    (cache.index.entries first.entry).slot =
        (cache.index.entries second.entry).slot → first.hash = second.hash

section
variable {world : World} {cache after : Cache} {pending : PendingGet}

/-- What does not move slots does not disturb a waiting get. -/
theorem Waits.step (waits : Waits cache pending) (owned : SlotsOwned cache)
    (effect : StillEffect deletes stores cache after) :
    Waits after pending ∧ (after.index.entries pending.entry).slot =
        (cache.index.entries pending.entry).slot := by
  cases effect with
  | touched index store =>
    have slot := index.slot pending.entry
    refine ⟨⟨?_, ?_, ?_, ?_⟩, slot⟩
    · rw [index.nextRef]
      exact waits.created
    · rw [index.hashOf]
      exact waits.hash
    · rw [slot, store.occupied]
      exact waits.occupied
    · intro hash named
      rw [slot, index.slotOf] at named
      exact waits.apart hash named
  | forgot needed index store =>
    have slot := index.slot pending.entry
    refine ⟨⟨?_, ?_, ?_, ?_⟩, slot⟩
    · rw [index.nextRef]
      exact waits.created
    · rw [index.hashOf]
      exact waits.hash
    · rw [slot, store]
      exact waits.occupied
    · intro hash named
      rw [slot] at named
      exact waits.apart hash (index.slotOf named)
  | added put ours id place index store =>
    have slot := index.slot pending.entry waits.created
    refine ⟨⟨?_, ?_, ?_, ?_⟩, slot⟩
    · rw [index.nextRef]
      exact Nat.lt_succ_of_lt waits.created
    · rw [index.hashOf _ waits.created]
      exact waits.hash
    · rw [slot, store.occupied]
      exact .inl waits.occupied
    · intro hash named
      rw [slot, index.slotOf owned.wellFormed] at named
      split at named
      · have used := waits.occupied
        rw [← Option.some.inj named] at used
        exact absurd used store.free
      · exact waits.apart hash named

theorem kept_cacheStep (stepped : cacheStep world cache step = some after) :
    after.type = cache.type ∧ ((∀ message, step = .cache message → handlesGets message = false) →
      after.pendingGets = cache.pendingGets) := by
  cases cacheStep_cases stepped with
  | touched _ changes | unstored changes => exact ⟨changes.type, fun _ => changes.pendingGets⟩
  | stored accepted stores =>
    rw [stores.rest]
    exact ⟨rfl, fun _ => rfl⟩
  | ended swept tombs next ran =>
    rw [deleteRecorded_rule (fun _ _ swept touched => swept.trans touched.swept) (fun _ hash _
      swept _ => swept.trans swept_without) (show Swept cache cache from rfl) ran]
    exact ⟨rfl, fun _ => rfl⟩
  | resized =>
    unfold cacheResize
    split <;> exact ⟨rfl, fun _ => rfl⟩
  | collected done =>
    rw [cacheGc_cases done, swept_withoutAll]
    exact ⟨rfl, fun _ => rfl⟩
  | got effect =>
    refine ⟨?_, fun other => by cases other _ rfl⟩
    cases effect with
    | answered | recalled | waiting | missed => rfl
    | loaded ref block store _ found hash reads remembers direct => exact remembers.rest.type
  | removed done | counted done =>
    rcases done with ⟨changed, changes, rfl⟩
    split <;> exact ⟨changes.type, fun _ => changes.pendingGets⟩
  | received effect =>
    refine ⟨?_, fun other => by cases other _ rfl⟩
    cases effect with
    | ignored | mismatched => rfl
    | verified bytes first value kept found arrived matched remembers => exact remembers.rest.type

theorem GetEffect.pendingGets (effect : GetEffect world cache get after outcome) :
    after.pendingGets = cache.pendingGets ∨
      ∃ ref receiver, indexFind cache.index get.hash = some ref ∧ after =
          { cache with
            pendingGets := ⟨get.hash, ref, receiver⟩ :: cache.pendingGets } := by
  cases effect with
  | answered | recalled | missed => exact .inl rfl
  | waiting ref receiver found receives => exact .inr ⟨ref, receiver, found, rfl⟩
  | loaded ref block store _ found hash reads remembers direct =>
    exact .inl remembers.rest.pendingGets

theorem pendingGets_cacheStep {step : CacheStep} (stepped : cacheStep world cache step = some after)
    (member : pending ∈ after.pendingGets) :
    pending ∈ cache.pendingGets ∨ indexFind after.index pending.hash = some pending.entry := by
  by_cases other : ∀ message, step = .cache message → handlesGets message = false
  · rw [(kept_cacheStep stepped).2 other] at member
    exact .inl member
  · simp only [not_forall, Bool.not_eq_false] at other
    rcases other with ⟨message, rfl, gets⟩
    unfold handlesGets at gets
    split at gets
    · cases cacheStep_cases stepped with
      | touched still changes => cases still
      | got effect =>
        rcases effect.pendingGets with same | ⟨ref, receiver, found, rfl⟩
        · rw [same] at member
          exact .inl member
        · rcases mem_cons.mp member with rfl | old
          · exact .inr found
          · exact .inl old
    · cases cacheStep_cases stepped with
      | touched still changes => cases still
      | received effect =>
        exact .inl (effect.perm_pendingGets.mem_iff.mp (mem_filter.mp member).1)
    · cases gets

def movesSlots (world : World) (cache : Cache) : CacheStep → Bool
  | .cache (.defragment threshold _) =>
    !(sectionsDefragment world.io threshold cache.sections cache.disk).2.2.relocations.isEmpty
  | _ => false

/-- Slots are moved while a get waits with an entry that was removed. -/
def strands (world : World) (cache : Cache) (step : CacheStep) : Bool :=
  movesSlots world cache step && cache.pendingGets.any fun pending =>
      decide (indexFind cache.index pending.hash ≠ some pending.entry)

/-- A defragmentation that moves nothing leaves index and slots. -/
theorem unmoved_cacheDefragment (reliable : Reliable world.io) (owned : SlotsOwned cache)
    (unmoved : movesSlots world cache (.cache (.defragment threshold write)) = false) :
    (cacheDefragment world cache threshold write).1.index = cache.index ∧
      ∀ id index, cache.store.Occupied id index →
        (cacheDefragment world cache threshold write).1.store.Occupied id index ∧
          ((cacheDefragment world cache threshold write).1.store.dataOf id).slots index =
            (cache.store.dataOf id).slots index := by
  have relocates := relocates_sectionsDefragment reliable threshold owned.consistent
  simp only [movesSlots, Bool.not_eq_false'] at unmoved
  have none_ : (sectionsDefragment world.io threshold cache.store.1
      cache.store.2).2.2.relocations = [] :=
    isEmpty_iff.mp unmoved
  simp only [cacheDefragment, unmoved, if_true]
  refine ⟨rfl, fun id index used => ?_⟩
  have there := relocates.occupied id index used
  have content := relocates.slots id index used
  rw [none_] at there content
  exact ⟨there, content⟩

/-- The gets that wait keep their slots, unless a move strands them. -/
theorem Waits.keep (reliable : Reliable world.io) (pendingOwned : PendingOwned cache)
    {step : CacheStep} (stepped : cacheStep world cache step = some after)
    (followed : strands world cache step = false) (member : pending ∈ cache.pendingGets) :
    (Waits after pending ∧ (after.index.entries pending.entry).slot =
          (cache.index.entries pending.entry).slot) ∨
      indexFind after.index pending.hash = some pending.entry := by
  have owned := pendingOwned.owned
  have waits := pendingOwned.waits pending member
  cases still : defragments step with
  | false => exact .inl (waits.step owned (stillEffect_cacheStep reliable owned still stepped))
  | true =>
    unfold defragments at still
    split at still
    · rename_i threshold write
      cases stepped
      cases moved : movesSlots world cache (.cache (.defragment threshold write)) with
      | false =>
        rcases unmoved_cacheDefragment reliable owned moved with ⟨index, occupied⟩
        change (Waits (cacheDefragment world cache threshold write).1 _ ∧
          ((cacheDefragment world cache threshold write).1.index.entries _).slot = _) ∨ _
        left
        rw [index]
        refine ⟨⟨?_, ?_, ?_, ?_⟩, rfl⟩
        · rw [index]
          exact waits.created
        · rw [index]
          exact waits.hash
        · rw [index]
          exact (occupied _ _ waits.occupied).1
        · rw [index]
          exact waits.apart
      | true =>
        right
        simp only [strands, moved, Bool.true_and, List.any_eq_false,
          decide_eq_true_eq, not_not] at followed
        have touched : Touched cache (cacheDefragment world cache threshold write).1 :=
          touched_cacheDefragment
        exact (touched.keys.indexFind _).trans (followed pending member)
    · cases still

theorem PendingOwned.step (reliable : Reliable world.io) (pendingOwned : PendingOwned cache)
    {step : CacheStep} (stepped : cacheStep world cache step = some after)
    (followed : strands world cache step = false) : PendingOwned after := by
  have owned := pendingOwned.owned.step (effect_cacheStep reliable pendingOwned.owned stepped)
  have cases_ {pending : PendingGet} (member : pending ∈ after.pendingGets) :
      (pending ∈ cache.pendingGets ∧ Waits after pending ∧
          (after.index.entries pending.entry).slot = (cache.index.entries pending.entry).slot) ∨
        indexFind after.index pending.hash = some pending.entry := by
    rcases pendingGets_cacheStep stepped member with old | found
    · rcases Waits.keep reliable pendingOwned stepped followed old with ⟨waits, slot⟩ | found
      · exact .inl ⟨old, waits, slot⟩
      · exact .inr found
    · exact .inr found
  have waits {pending : PendingGet}
      (member : pending ∈ after.pendingGets) : Waits after pending := by
    rcases cases_ member with ⟨_, waits, _⟩ | found
    · exact waits
    · have named := slotOf_eq_some_iff.mpr ⟨pending.entry, found, rfl⟩
      constructor
      · exact lt_nextRef_of_indexFind owned.wellFormed found
      · exact ((indexFind_eq_some_iff owned.wellFormed).mp found).2
      · exact owned.occupied _ _ named
      · intro hash other
        exact owned.unique _ _ _ other named
  refine ⟨owned, fun pending member => waits member, ?_⟩
  intro first one second two same
  rcases cases_ one with ⟨oldOne, _, slotOne⟩ | found
  · rcases cases_ two with ⟨oldTwo, _, slotTwo⟩ | found
    · apply pendingOwned.distinct first oldOne second oldTwo
      rw [← slotOne, ← slotTwo, same]
    · have named := slotOf_eq_some_iff.mpr ⟨second.entry, found, rfl⟩
      rw [← same] at named
      exact ((waits one).apart _ named).symm
  · have named := slotOf_eq_some_iff.mpr ⟨first.entry, found, rfl⟩
    rw [same] at named
    exact (waits two).apart _ named

/-- Gets with slots of their own are not mixed up. -/
theorem PendingOwned.not_mixes (pendingOwned : PendingOwned cache) (step : CacheStep) :
    mixes world cache step = false := by
  unfold mixes
  split
  · split
    · rename_i first found
      simp only [Bool.and_eq_false_imp, List.any_eq_false, decide_eq_true_eq, not_not]
      intro _ pending waiting
      have here := mem_of_find?_eq_some found
      rcases mem_filter.mp waiting with ⟨member, waits⟩
      have reads {pending : PendingGet} {sectionId sectionIndex : UInt64}
          (waits : waitsFor cache sectionId sectionIndex pending = true) :
          (cache.index.entries pending.entry).slot = (sectionId, sectionIndex.toNat) := by
        simp only [waitsFor, Bool.and_eq_true, decide_eq_true_eq] at waits
        rw [IndexEntry.slot, waits.1, waits.2]
      have same := pendingOwned.distinct pending member first here
        ((reads waits).trans (reads (find?_some found)).symm)
      rw [same]
      exact (pendingOwned.waits first here).hash.symm
    · rfl
  · rfl

end

/--
Gets are answered with the blocks they ask for exactly if no step mixes gets up, which with
reliable metadata needs a move while a get waits with a removed entry.
-/
theorem gets_are_answered_rightly {world : World} {start : Cache} (steps : List CacheStep) :
    (Runs.EachStep (cacheStep world) (RepliesRight world) start steps ↔
      Runs.EachStep (cacheStep world)
        (fun cache step => mixes world cache step = false) start steps) ∧
      (Reliable world.io → SlotsOwned start → start.pendingGets = [] →
        Runs.EachStep (cacheStep world) (fun cache step => strands world cache step = false) start
            steps →
          Runs.EachStep (cacheStep world) (RepliesRight world) start steps) := by
  refine ⟨⟨?_, ?_⟩, ?_⟩
  · intro right
    exact right.mono fun _ _ _ right stepped => (repliesRight_iff stepped).mp right
  · intro unmixed
    exact unmixed.mono fun _ _ _ unmixed stepped => (repliesRight_iff stepped).mpr unmixed
  · intro reliable owned idle followed
    apply followed.imp (fun _ _ _ pendingOwned followed stepped =>
        PendingOwned.step reliable pendingOwned stepped followed)
      (fun _ step _ pendingOwned _ stepped =>
        (repliesRight_iff stepped).mpr (pendingOwned.not_mixes step))
    refine ⟨owned, ?_, ?_⟩
    · intro pending member
      rw [idle] at member
      cases member
    · intro first member
      rw [idle] at member
      cases member

/-- Run the tiny cache, and create it again from the files. -/
def restartTiny (steps : List CacheStep) : Option Cache :=
  createTiny.bind fun start =>
    (cacheRun (smallWorld reliableIo) start steps).bind fun cache =>
      blockCacheCreate (smallWorld reliableIo) tinyConfig cache.files .complete

def slotData (cache : Cache) (id : UInt64) (index : Nat) : Option (Option Bytes) :=
  (sectionsRead reliableIo cache.sections id index cache.disk).map fun read => read.2.2

/-- Each reply with the hash that was asked for and the hash of its block. -/
def replyHashes (cache : Cache) (message : CacheMessage) : Option (List (Hash × Option Hash)) :=
  (blockCacheDispatch (smallWorld reliableIo) cache message).map fun done =>
    done.2.replies.map fun reply => (reply.hash, reply.block.map Block.hash)

/-- A get of a block that stays in the index. -/
theorem get_is_answered_rightly :
    ∃ start, createTiny = some start ∧ Runs.EachStep (cacheStep (smallWorld reliableIo))
        (RepliesRight (smallWorld reliableIo)) start
        [putNano 1, putNano 2, getNano 1 0, putNano 3, .sectionsRead 0 0, arriveNano 1 0 0] := by
  obtain ⟨start, created, idle, each⟩ : ∃ start, createTiny = some start ∧
      start.pendingGets = [] ∧ Runs.EachStep (cacheStep (smallWorld reliableIo))
        (fun cache step => strands (smallWorld reliableIo) cache step = false) start
        [putNano 1, putNano 2, getNano 1 0, putNano 3, .sectionsRead 0 0, arriveNano 1 0 0] := by
    decide +kernel
  have owned := (blank_blockCacheCreate reliable_reliableIo
    ⟨by decide, by decide⟩ created).slotsOwned
  exact ⟨start, created, (gets_are_answered_rightly _).2 reliable_reliableIo owned idle each⟩

/-- A crash loses the free map of a block, whose get is then answered with another block. -/
theorem gets_are_mixed_up :
    ∃ start reached, restartTiny [.cache (.indexSave .complete), putNano 1] = some start ∧
      cacheRun (smallWorld reliableIo) start
          [putNano 2, putNano 3, putNano 4, getNano 1 0, getNano 3 1] = some reached ∧
      slotData reached 0 0 = some (some (nanoBlock 3).data) ∧
      replyHashes reached (.readResult 0 0 (some (nanoBlock 3).data) 0) =
        some [((nanoBlock 3).hash, some (nanoBlock 3).hash),
          ((nanoBlock 1).hash, some (nanoBlock 3).hash)] := by
  simp only [exists_and_left]
  decide +kernel

end Liboffs.BlockCache

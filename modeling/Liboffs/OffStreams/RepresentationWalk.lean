import Mathlib.Data.Finset.Card
import Liboffs.Library.Runs
import Liboffs.OffStreams.DescriptorWalkers

/-!
# The answer of a representation walk

The representation actor waits for the block that it has asked for and for the
answers to its operations, which come in any order; a block may have gone when
it is asked for.  Whatever the chain is, the walk ends, and its requester gets
one result, when nothing is owed any more.
-/

namespace Liboffs.OffStreams

open BlockCache Library Library.ByteOrder Library.Runs List

/-- The operations on blocks, each of which the cache answers. -/
@[simp]
def isOperation : RepresentationEffect → Bool
  | .clearEphemeral _ | .releaseEphemeral _ | .pinBlock _ | .unpinBlock _ => true
  | _ => false

/-- The results for the requester. -/
@[simp]
def isResult : RepresentationEffect → Bool
  | .opResult _ _ | .collectResult _ _ _ => true
  | _ => false

/-- The actor with what the cache owes it, and the number of results that it has sent. -/
structure RepresentationWalk where
  rep : RepresentationActor
  gets : List Bytes
  operations : Nat
  results : Nat

namespace RepresentationWalk

/-- What the actor has sent is on its way. -/
@[simp]
def update (walk : RepresentationWalk) (rep : RepresentationActor) : RepresentationWalk where
  rep := { rep with sent := [] }
  gets := walk.gets ++ representationRequests rep
  operations := walk.operations + rep.sent.countP isOperation
  results := walk.results + rep.sent.countP isResult

/-- The actor handles a message. -/
def receive (walk : RepresentationWalk) (message : RepresentationMessage) : RepresentationWalk :=
  walk.update (representationActorDispatch walk.rep message)

/-- A walk that has been started for a requester. -/
def start (type : BlockSize) (hasRegistry hasNetwork : Bool) (hash : Bytes)
    (op : RepresentationOp) : RepresentationWalk :=
  receive ⟨representationActorCreate type hasRegistry hasNetwork hash op true, [], 0, 0⟩ .pull

end RepresentationWalk

/-- The cache answers what it owes; a block may have gone. -/
def walkStep (store : Bytes → Option Bytes) (walk : RepresentationWalk)
    (reply : RepresentationMessage) : Option RepresentationWalk :=
  match reply with
  | .pull => none
  | .cacheGetResult hash block =>
    if walk.gets.contains hash ∧ (block = none ∨ block = store hash) then
      some ({ walk with gets := walk.gets.erase hash }.receive reply)
    else
      none
  | _ =>
    if walk.operations = 0 then
      none
    else
      some ({ walk with operations := walk.operations - 1 }.receive reply)

/-- Hashes have been applied to, at most so many. -/
def Applied (count : Nat) (before after : RepresentationActor) : Prop :=
  ∃ operations more touched, after =
      { before with
        sent := before.sent ++ operations
        seenHashes := before.seenHashes ++ more
        blocksTouched := touched
        outstandingOps := before.outstandingOps + operations.length } ∧
    (∀ effect ∈ operations, isOperation effect = true) ∧ operations.length ≤ count

theorem repIssue_eq (rep : RepresentationActor) (hash : Bytes) : ∃ issued, repIssue rep hash =
      { rep with
        sent := rep.sent ++ issued
        outstandingOps := rep.outstandingOps + issued.length } ∧
    (∀ effect ∈ issued, isOperation effect = true) ∧ issued.length ≤ 1 := by
  simp only [repIssue]
  split
  · exact ⟨[], by simp⟩
  · exact ⟨[_], rfl, by simp, by simp⟩
  · exact ⟨[_], rfl, by simp, by simp⟩
  · exact ⟨[_], rfl, by simp, by simp⟩
  · exact ⟨[_], rfl, by simp, by simp⟩

section
variable {before rep : RepresentationActor} {count : Nat}

theorem Applied.apply (applied : Applied count before rep) (hash : Bytes) :
    Applied (count + 1) before (repApplyToHash rep hash) ∧
      hash ∈ (repApplyToHash rep hash).seenHashes := by
  obtain ⟨operations, more, touched, rfl, all, few⟩ := applied
  rw [repApplyToHash]
  split
  · rename_i known
    exact ⟨⟨operations, more, touched, rfl, all, by omega⟩, known⟩
  · obtain ⟨issued, done, others, one⟩ := repIssue_eq
      { before with
        sent := before.sent ++ operations
        seenHashes := before.seenHashes ++ more ++ [hash]
        blocksTouched := touched + 1
        outstandingOps := before.outstandingOps + operations.length } hash
    rw [done]
    refine ⟨⟨operations ++ issued, more ++ [hash], touched + 1, ?_, ?_, ?_⟩, by simp⟩
    · simp [Nat.add_assoc]
    · exact fun effect member => (mem_append.mp member).elim (all effect) (others effect)
    · rw [length_append]
      omega

theorem Applied.mono {limit : Nat} (applied : Applied count before rep) (fewer : count ≤ limit) :
    Applied limit before rep := by
  obtain ⟨operations, more, touched, same, all, few⟩ := applied
  exact ⟨operations, more, touched, same, all, few.trans fewer⟩

/-- The loop over a block applies to no more hashes than there is room for. -/
theorem Applied.sliceLoop {stop limit : Nat} (room : stop ≤ limit * 32) (data : Bytes)
    (rounds offset : Nat) (applied : Applied count before rep) (passed : count * 32 ≤ offset)
    (fewer : count ≤ limit) :
    Applied limit before
      (sliceLoop 32 stop data (fun rep _ hash => repApplyToHash rep hash) rounds offset rep) := by
  induction rounds generalizing offset rep count with
  | zero => exact applied.mono fewer
  | succ rounds ih =>
    rw [OffStreams.sliceLoop]
    split
    · refine @ih _ (count + 1) _ ?_ (by omega) (by omega)
      split
      · exact applied.mono (Nat.le_succ _)
      · split
        · exact applied.mono (Nat.le_succ _)
        · exact (applied.apply _).1
    · exact applied.mono fewer

/-- A block is malformed, or its hashes are applied to and its link is taken. -/
theorem repProcessDescriptorBlock_eq (next : rep.nextDescriptorHash = none) (data hash : Bytes) :
    repProcessDescriptorBlock rep data hash = { rep with result := -2 } ∨
      ∃ applied link, Applied (rep.cacheType.bytes / 32 + 1) rep applied ∧
        hash ∈ applied.seenHashes ∧
        repProcessDescriptorBlock rep data hash = { applied with nextDescriptorHash := link } := by
  rw [repProcessDescriptorBlock]
  split
  · exact .inl rfl
  · rename_i long
    have room : dataEnd 32 (rep.cacheType.bytes / 32 * 32) data ≤
        rep.cacheType.bytes / 32 * 32 := by
      have size : 32 ≤ rep.cacheType.bytes / 32 * 32 ∧ rep.cacheType.bytes < 2 ^ 64 := by
        cases rep.cacheType <;> decide
      simp only [dataEnd, sizeSub]
      split <;> omega
    dsimp only
    generalize dataEnd 32 (rep.cacheType.bytes / 32 * 32) data = stop at room
    have none_yet : Applied 0 rep rep := ⟨[], [], rep.blocksTouched, by simp⟩
    have both := (none_yet.sliceLoop room data (stop + 1) 0 (by simp) (Nat.zero_le _)).apply hash
    refine .inr ⟨_, nextPointer 32 stop data, both.1, both.2, ?_⟩
    obtain ⟨operations, more, touched, same, _⟩ := both.1
    split
    · rename_i link found
      rw [found]
    · rename_i found
      simp [found, same, next]

end

/-- What holds of a walk between two replies. -/
structure Walking (type : BlockSize) (walk : RepresentationWalk) : Prop where
  type : walk.rep.cacheType = type
  unsent : walk.rep.sent = []
  next : walk.rep.nextDescriptorHash = none
  counted : walk.rep.outstandingOps = walk.operations
  phase : walk.rep.walkDone = false ∧ walk.rep.hasReplyTo = true ∧ walk.results = 0 ∧
      (∃ hash, walk.gets = [hash] ∧ hash ∉ walk.rep.seenHashes) ∨
    walk.rep.walkDone = true ∧ walk.gets = [] ∧
      (walk.operations ≠ 0 ∧ walk.rep.hasReplyTo = true ∧ walk.results = 0 ∨
        walk.operations = 0 ∧ walk.results = 1)

/-- How many replies can still come: the chain has no more blocks than the store. -/
def repliesLeft (known : Finset Bytes) (walk : RepresentationWalk) : Nat :=
  walk.operations + walk.gets.length + if walk.rep.walkDone then 0 else
    (walk.rep.cacheType.bytes / 32 + 2) * (known.filter (walk.rep.seenHashes.contains · = false)).card

/-- A walk may have come to its end. -/
structure Ending (type : BlockSize) (walk : RepresentationWalk) (rep : RepresentationActor) :
    Prop where
  type : rep.cacheType = type
  next : rep.nextDescriptorHash = none
  replies : rep.hasReplyTo = true
  gets : walk.gets = [] ∧ representationRequests rep = []
  silent : walk.results = 0 ∧ rep.sent.countP isResult = 0
  counted : rep.outstandingOps = walk.operations + rep.sent.countP isOperation

section
variable {type : BlockSize} {walk : RepresentationWalk} {rep : RepresentationActor}
  {known : Finset Bytes}

theorem Ending.finish (ending : Ending type walk rep) (done : rep.walkDone = true) :
    Walking type (walk.update (repMaybeFinish rep)) ∧
      repliesLeft known (walk.update (repMaybeFinish rep)) = rep.outstandingOps := by
  obtain ⟨same, next, replies, ⟨gets, requests⟩, ⟨silent, results⟩, counted⟩ := ending
  rw [representationRequests] at requests
  by_cases idle : rep.outstandingOps = 0
  · have none_owed : walk.operations = 0 ∧ rep.sent.countP isOperation = 0 := by omega
    rw [repMaybeFinish, if_pos ⟨done, idle⟩, repReply, if_pos replies]
    split <;>
    · constructor
      · constructor <;> simp [RepresentationActor.send, representationRequests, *]
      · simp [repliesLeft, RepresentationActor.send, representationRequests, *]
  · have busy : walk.operations + rep.sent.countP isOperation ≠ 0 := counted ▸ idle
    rw [repMaybeFinish, if_neg fun both => idle both.2]
    refine ⟨⟨same, rfl, next, counted, .inr ⟨done, ?_, .inl ⟨busy, replies, ?_⟩⟩⟩, ?_⟩
    · simp [representationRequests, *]
    · simp only [RepresentationWalk.update, silent, results]
    · simp [repliesLeft, representationRequests, *]

theorem Ending.endWalk (ending : Ending type walk rep) :
    Walking type (walk.update (repEndWalk rep)) ∧
      repliesLeft known (walk.update (repEndWalk rep)) = rep.outstandingOps := by
  obtain ⟨same, next, replies, gets, silent, counted⟩ := ending
  rw [repEndWalk]
  split
  · exact @Ending.finish _ _ ({ rep with walkDone := true }.send [.registryRemove _]) _
      ⟨same, next, replies, by
        simpa [representationRequests, RepresentationActor.send] using gets, by
        simpa [RepresentationActor.send] using silent, by
        simpa [RepresentationActor.send] using counted⟩ rfl
  · exact @Ending.finish _ _ { rep with walkDone := true } _
      ⟨same, next, replies, gets, silent, counted⟩ rfl

/-- A reply to an operation. -/
theorem Walking.answer (walking : Walking type walk) (bounded : repliesLeft known walk ≤ 2 ^ 64)
    (owed : walk.operations ≠ 0) {effects : List RepresentationEffect}
    (quiet : effects = [] ∨ ∃ hash, effects = [.storeBlock hash 1]) :
    let walk' := { walk with operations := walk.operations - 1 }.update
      (repMaybeFinish { walk.rep with
        outstandingOps := sizeSub walk.rep.outstandingOps 1
        sent := effects })
    Walking type walk' ∧ repliesLeft known walk' < repliesLeft known walk := by
  obtain ⟨same, unsent, next, counted, phase⟩ := walking
  have one_less : sizeSub walk.rep.outstandingOps 1 = walk.operations - 1 := by
    rw [repliesLeft] at bounded
    rw [counted, sizeSub]
    omega
  rw [one_less]
  generalize answered :
    { walk.rep with outstandingOps := walk.operations - 1, sent := effects } = rep
  have nothing : representationRequests rep = [] ∧ rep.sent.countP isResult = 0 ∧
      rep.sent.countP isOperation = 0 := by
    rcases quiet with rfl | ⟨hash, rfl⟩ <;> subst answered <;>
      simp [representationRequests]
  obtain ⟨requests, results, operations⟩ := nothing
  obtain ⟨fewer, type_eq, next_eq, replies_eq, done_eq, seen_eq⟩ :
      rep.outstandingOps = walk.operations - 1 ∧ rep.cacheType = walk.rep.cacheType ∧
      rep.nextDescriptorHash = walk.rep.nextDescriptorHash ∧
      rep.hasReplyTo = walk.rep.hasReplyTo ∧ rep.walkDone = walk.rep.walkDone ∧
      rep.seenHashes = walk.rep.seenHashes := by
    subst answered
    exact ⟨rfl, rfl, rfl, rfl, rfl, rfl⟩
  rcases phase with ⟨reading, replies, silent, hash, gets, new⟩ | ⟨done, gets, owing | ⟨none, _⟩⟩
  · have waits : repMaybeFinish rep = rep := by simp [repMaybeFinish, done_eq, reading]
    rw [waits]
    constructor
    · constructor <;> simp [*]
    · simp only [repliesLeft, RepresentationWalk.update, requests, operations, type_eq, done_eq,
        seen_eq, append_nil]
      omega
  · have ending : Ending type { walk with operations := walk.operations - 1 } rep := by
      constructor <;> simp [*]
    have finished := @Ending.finish _ _ _ known ending (done_eq.trans done)
    refine ⟨finished.1, finished.2.trans_lt ?_⟩
    rw [fewer, repliesLeft]
    omega
  · exact absurd none owed

theorem counts_of_operations {operations : List RepresentationEffect}
    (all : ∀ effect ∈ operations, isOperation effect = true) :
    (∀ rep, rep.sent = operations → representationRequests rep = []) ∧
      operations.countP isResult = 0 ∧ operations.countP isOperation = operations.length := by
  refine ⟨?_, countP_eq_zero.mpr ?_, countP_eq_length.mpr all⟩
  · rintro rep rfl
    refine filterMap_eq_nil_iff.mpr fun effect member => ?_
    have operation := all effect member
    cases effect <;> first | rfl | cases operation
  · intro effect member
    have operation := all effect member
    cases effect <;> first | exact Bool.false_ne_true | cases operation

/-- A block that had not been seen leaves fewer blocks that may come. -/
theorem card_unseen_lt {seen more : List Bytes} {hash : Bytes} (stored : hash ∈ known)
    (new : hash ∉ seen) (now : hash ∈ seen ++ more) :
    (known.filter ((seen ++ more).contains · = false)).card <
      (known.filter (seen.contains · = false)).card := by
  apply Finset.card_lt_card
  refine Finset.ssubset_iff_subset_ne.mpr ⟨fun block member => ?_, fun same => ?_⟩
  · simp only [Finset.mem_filter, contains_append, Bool.or_eq_false_iff] at member ⊢
    exact ⟨member.1, member.2.1⟩
  · have member : hash ∈ known.filter ((seen ++ more).contains · = false) := by
      rw [same]
      exact Finset.mem_filter.mpr ⟨stored, by simpa using new⟩
    have missing := (Finset.mem_filter.mp member).2
    rw [contains_iff_mem.mpr now] at missing
    cases missing

/-- A reply with the block that is waited for. -/
theorem Walking.got {hash : Bytes} (walking : Walking type walk) (gets : walk.gets = [hash])
    {block : Option Bytes} (stored : block.isSome = true → hash ∈ known) :
    let walk' := { walk with gets := [] }.update (repGetResult walk.rep hash block)
    Walking type walk' ∧ repliesLeft known walk' < repliesLeft known walk := by
  obtain ⟨same, unsent, next, counted, phase⟩ := walking
  rcases phase with ⟨reading, replies, silent, asked, only, new⟩ | ⟨_, nothing, _⟩
  · obtain rfl : hash = asked := by simpa using gets.symm.trans only
    have early {rep : RepresentationActor} (ending : Ending type { walk with gets := [] } rep)
        (few : rep.outstandingOps < repliesLeft known walk) :
        let walk' := { walk with gets := [] }.update (repEndWalk rep)
        Walking type walk' ∧ repliesLeft known walk' < repliesLeft known walk :=
      ending.endWalk.imp_right fun left => left.trans_lt few
    have owed : walk.rep.outstandingOps < repliesLeft known walk := by
      simp only [counted, repliesLeft, gets, length_singleton]
      omega
    cases block with
    | none => exact early (by constructor <;> simp [representationRequests, *]) owed
    | some data =>
      rw [repGetResult]
      rcases repProcessDescriptorBlock_eq next data hash with
        bad | ⟨_, link, ⟨operations, more, touched, rfl, all, few⟩, seen, done⟩
      · simp only [bad, next]
        exact early (by constructor <;> simp [representationRequests, *]) owed
      · have unseen := Nat.mul_le_mul_left (walk.rep.cacheType.bytes / 32 + 2)
          (Nat.succ_le_of_lt (card_unseen_lt (stored rfl) new seen))
        rw [Nat.mul_succ] at unseen
        have left : walk.rep.outstandingOps + operations.length < repliesLeft known walk := by
          simp only [counted, repliesLeft, gets, length_singleton, reading]
          simp only [Bool.false_eq_true, if_false]
          omega
        obtain ⟨requests, results, counts⟩ := counts_of_operations all
        have counted' : walk.rep.outstandingOps + operations.length =
            walk.operations + operations.countP isOperation := by rw [counted, counts]
        simp only [done, unsent, nil_append]
        cases link with
        | none =>
          exact early ⟨same, rfl, replies, ⟨rfl, requests _ rfl⟩, ⟨silent, results⟩, counted'⟩ left
        | some link =>
          dsimp only
          split
          · exact early ⟨same, rfl, replies, ⟨rfl, requests _ rfl⟩, ⟨silent, results⟩, counted'⟩ left
          · rename_i fresh
            have asked := requests { walk.rep with sent := operations } rfl
            rw [representationRequests] at asked
            refine ⟨⟨same, rfl, rfl, ?_, .inl ⟨reading, replies, ?_, link, ?_, fresh⟩⟩, ?_⟩
            · simpa [RepresentationActor.send]
            · simp [RepresentationActor.send, silent, results]
            · simp [RepresentationActor.send, representationRequests, asked]
            · simp only [repliesLeft, RepresentationWalk.update, RepresentationActor.send, gets,
                representationRequests, filterMap_append, asked, countP_append, counts, reading,
                Bool.false_eq_true, if_false]
              simp [-contains_append, -contains_eq_mem]
              omega
  · cases gets.symm.trans nothing

/-- Every reply keeps the invariant and brings the end nearer. -/
theorem Walking.step {store : Bytes → Option Bytes}
    (stored : ∀ hash, (store hash).isSome = true → hash ∈ known) (walking : Walking type walk)
    (bounded : repliesLeft known walk ≤ 2 ^ 64) {reply : RepresentationMessage}
    {after : RepresentationWalk} (stepped : walkStep store walk reply = some after) :
    Walking type after ∧ repliesLeft known after < repliesLeft known walk := by
  have unsent := walking.unsent
  cases reply with
  | pull => cases stepped
  | cacheGetResult hash block =>
    obtain ⟨⟨owed, content⟩, ⟨⟩⟩ := Option.ite_none_right_eq_some.mp stepped
    have gets : walk.gets = [hash] := by
      rcases walking.phase with ⟨_, _, _, asked, only, _⟩ | ⟨_, none, _⟩
      · simp_all
      · simp [none] at owed
    rw [gets, erase_cons_head]
    refine walking.got gets fun present => stored hash ?_
    rcases content with rfl | rfl
    · cases present
    · exact present
  | cacheEphemeralResult hash previousCount =>
    obtain ⟨owed, ⟨⟩⟩ := Option.ite_none_left_eq_some.mp stepped
    cases hash with
    | none => exact walking.answer bounded owed (.inl unsent)
    | some hash =>
      rw [RepresentationWalk.receive, representationActorDispatch, repEphemeralResult]
      split
      · exact walking.answer bounded owed (.inr ⟨hash, by rw [unsent]; rfl⟩)
      · exact walking.answer bounded owed (.inl unsent)
  | cachePinResult | cacheUnpinResult =>
    obtain ⟨owed, ⟨⟩⟩ := Option.ite_none_left_eq_some.mp stepped
    exact walking.answer bounded owed (.inl unsent)

end

section
variable (type : BlockSize) (hasRegistry hasNetwork : Bool) (hash : Bytes) (op : RepresentationOp)

/--
However the replies come, there are finitely many of them.  The requester has
one result if nothing is owed, and none as long as a reply can come.
-/
theorem representation_walk_answers_once {store : Bytes → Option Bytes} {known : Finset Bytes}
    (stored : ∀ hash, (store hash).isSome = true → hash ∈ known)
    (countable : (type.bytes / 32 + 2) * known.card < 2 ^ 64)
    {replies : List RepresentationMessage} {walk : RepresentationWalk}
    (reached : replies.foldlM (walkStep store) (.start type hasRegistry hasNetwork hash op) =
      some walk) :
    replies.length ≤ 1 + (type.bytes / 32 + 2) * known.card ∧
      (walk.results = 1 ∧ walk.gets = [] ∧ walk.operations = 0 ∨
        walk.results = 0 ∧ ∃ reply after, walkStep store walk reply = some after) := by
  have keeps (walk : RepresentationWalk) (reply : RepresentationMessage)
      (after : RepresentationWalk) (here : Walking type walk ∧ repliesLeft known walk ≤ 2 ^ 64)
      (_ : True) (stepped : walkStep store walk reply = some after) :
      Walking type after ∧ repliesLeft known after ≤ 2 ^ 64 :=
    (here.1.step stored here.2 stepped).imp_right fun left => (left.trans_le here.2).le
  generalize started : RepresentationWalk.start type hasRegistry hasNetwork hash op = start
    at reached
  have first : repliesLeft known start = 1 + (type.bytes / 32 + 2) * known.card := by
    simp [← started, repliesLeft, RepresentationWalk.start, RepresentationWalk.receive,
      representationActorDispatch, representationActorCreate, RepresentationActor.send,
      representationRequests]
  have initial : Walking type start ∧ repliesLeft known start ≤ 2 ^ 64 := by
    refine ⟨?_, by omega⟩
    subst started
    exact ⟨rfl, rfl, rfl, rfl, .inl ⟨rfl, rfl, rfl, hash, rfl, not_mem_nil⟩⟩
  have each := eachStep_true (walkStep store) replies start
  constructor
  · rw [← first]
    exact each.length_le (repliesLeft known) keeps
      (fun _ _ _ here _ stepped => (here.1.step stored here.2 stepped).2) initial reached
  · rcases (each.foldlM keeps initial reached).1.phase with
      ⟨_, _, silent, asked, gets, _⟩ | ⟨_, gets, ⟨owed, _, silent⟩ | ⟨none, one⟩⟩
    · exact .inr ⟨silent, .cacheGetResult asked none, _, if_pos ⟨by simp [gets], .inl rfl⟩⟩
    · exact .inr ⟨silent, .cachePinResult, _, if_neg owed⟩
    · exact .inl ⟨one, gets, none⟩

end

/-- A block of two hashes that ends its chain. -/
def pairBlock : Bytes :=
  replicate 32 1 ++ replicate 32 2 ++ replicate 32 0

/-- The store that holds only that block. -/
def pairStore (hash : Bytes) : Option Bytes :=
  if hash = [9] then some pairBlock else none

/-- Two blocks and the one that names them are pinned, and the last reply leads to the result. -/
theorem pair_is_pinned_once :
    ∃ walk, [.cacheGetResult [9] (some pairBlock), .cachePinResult, .cachePinResult,
        .cachePinResult].foldlM (walkStep pairStore) (.start .nano true true [9] .pin) = some walk ∧
      walk.results = 1 := by
  refine ⟨_, rfl, ?_⟩
  have stored (hash : Bytes) (present : (pairStore hash).isSome = true) :
      hash ∈ ({[9]} : Finset Bytes) := by
    rw [pairStore] at present
    split at present
    · rename_i same
      exact Finset.mem_singleton.mpr same
    · cases present
  rcases @representation_walk_answers_once .nano true true [9] .pin pairStore {[9]} stored
    (by decide) [.cacheGetResult [9] (some pairBlock), .cachePinResult, .cachePinResult,
      .cachePinResult] _ rfl with ⟨_, ⟨one, _⟩ | ⟨none, _⟩⟩
  · exact one
  · exact absurd none (by decide)

end Liboffs.OffStreams

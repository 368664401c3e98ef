import Liboffs.OffStreams.DescriptorSlices

/-!
# The representation actor

The actor walks the chain of a representation and applies one operation to
every block that it meets, those of the chain included, and to each of them
once.  It replies when the walk has ended and all the operations have been
answered.  The collecting walk applies nothing and replies with the hashes.
-/

namespace Liboffs.OffStreams

open BlockCache Library Library.ByteOrder List

/-- `representation_op_e`. -/
inductive RepresentationOp where
  | markPermanent
  | deleteEphemeral
  | pin
  | unpin
  | collect
deriving DecidableEq

/-- What the actor sends to others. -/
inductive RepresentationEffect where
  | blockCacheGet (hash : Bytes)
  | clearEphemeral (hash : Bytes)
  | releaseEphemeral (hash : Bytes)
  | pinBlock (hash : Bytes)
  | unpinBlock (hash : Bytes)
  | registryRemove (hash : Bytes)
  | storeBlock (hash : Bytes) (fib : UInt32)
  | opResult (result : Int) (blocksTouched : Nat)
  | collectResult (result : Int) (blocksTouched : Nat) (hashes : List Bytes)

/-- `representation_actor_t` with what it has sent, the oldest first. -/
structure RepresentationActor where
  cacheType : BlockSize
  hasRegistry : Bool
  hasNetwork : Bool
  descriptorHash : Bytes
  nextDescriptorHash : Option Bytes
  op : RepresentationOp
  hasReplyTo : Bool
  result : Int
  blocksTouched : Nat
  outstandingOps : Nat
  seenHashes : List Bytes
  walkDone : Bool
  sent : List RepresentationEffect

/-- The messages of the actor. -/
inductive RepresentationMessage where
  | pull
  | cacheGetResult (hash : Bytes) (block : Option Bytes)
  | cacheEphemeralResult (hash : Option Bytes) (previousCount : Nat)
  | cachePinResult
  | cacheUnpinResult

/-- `representation_actor_create`, without the message that it sends. -/
def representationActorCreate (cacheType : BlockSize) (hasRegistry hasNetwork : Bool)
    (descriptorHash : Bytes) (op : RepresentationOp) (hasReplyTo : Bool) : RepresentationActor where
  cacheType := cacheType
  hasRegistry := hasRegistry
  hasNetwork := hasNetwork
  descriptorHash := descriptorHash
  nextDescriptorHash := none
  op := op
  hasReplyTo := hasReplyTo
  result := 0
  blocksTouched := 0
  outstandingOps := 0
  seenHashes := []
  walkDone := false
  sent := []

/-- Send effects, in order. -/
def RepresentationActor.send (rep : RepresentationActor)
    (effects : List RepresentationEffect) : RepresentationActor :=
  { rep with sent := rep.sent ++ effects }

/-- `_rep_reply`. -/
def repReply (rep : RepresentationActor) : RepresentationActor :=
  if rep.hasReplyTo then
    if rep.op = .collect then
      { rep with hasReplyTo := false, seenHashes := [] }.send
        [.collectResult rep.result rep.blocksTouched rep.seenHashes]
    else
      { rep with hasReplyTo := false }.send [.opResult rep.result rep.blocksTouched]
  else
    rep

/-- `_rep_maybe_finish`. -/
def repMaybeFinish (rep : RepresentationActor) : RepresentationActor :=
  if rep.walkDone ∧ rep.outstandingOps = 0 then repReply rep else rep

/-- `_rep_end_walk`. -/
def repEndWalk (rep : RepresentationActor) : RepresentationActor :=
  let ended := { rep with walkDone := true }
  if (rep.op = .markPermanent ∨ rep.op = .deleteEphemeral) ∧
      rep.hasRegistry then
    repMaybeFinish (ended.send [.registryRemove rep.descriptorHash])
  else
    repMaybeFinish ended

/-- The operation on a block that has not been seen. -/
def repIssue (rep : RepresentationActor) (hash : Bytes) : RepresentationActor :=
  let counted := { rep with outstandingOps := rep.outstandingOps + 1 }
  match rep.op with
  | .collect => rep
  | .markPermanent => counted.send [.clearEphemeral hash]
  | .deleteEphemeral => counted.send [.releaseEphemeral hash]
  | .pin => counted.send [.pinBlock hash]
  | .unpin => counted.send [.unpinBlock hash]

/-- `_rep_apply_to_hash`. -/
def repApplyToHash (rep : RepresentationActor) (hash : Bytes) : RepresentationActor :=
  if hash ∈ rep.seenHashes then
    rep
  else
    repIssue
      { rep with
        seenHashes := rep.seenHashes ++ [hash]
        blocksTouched := rep.blocksTouched + 1 } hash

/-- `_rep_process_descriptor_block`. -/
def repProcessDescriptorBlock (rep : RepresentationActor)
    (blockData descriptorBlockHash : Bytes) : RepresentationActor :=
  let cutPoint := rep.cacheType.bytes / 32 * 32
  if blockData.length < 32 then
    { rep with result := -2 }
  else
    let stop := dataEnd 32 cutPoint blockData
    let applied := repApplyToHash
      (sliceLoop 32 stop blockData (fun rep _ hash => repApplyToHash rep hash) (stop + 1) 0 rep)
      descriptorBlockHash
    match nextPointer 32 stop blockData with
    | some next => { applied with nextDescriptorHash := some next }
    | none => applied

/-- `CACHE_GET_RESULT`. -/
def repGetResult (rep : RepresentationActor) (hash : Bytes)
    (block : Option Bytes) : RepresentationActor :=
  match block with
  | none => repEndWalk { rep with result := -1 }
  | some blockData =>
    let processed := repProcessDescriptorBlock rep blockData hash
    match processed.nextDescriptorHash with
    | none => repEndWalk processed
    | some next =>
      let cleared := { processed with nextDescriptorHash := none }
      if next ∈ cleared.seenHashes then
        repEndWalk { cleared with result := -3 }
      else
        cleared.send [.blockCacheGet next]

/-- `CACHE_EPHEMERAL_RESULT`. -/
def repEphemeralResult (rep : RepresentationActor) (hash : Option Bytes)
    (previousCount : Nat) : RepresentationActor :=
  let answered := { rep with outstandingOps := sizeSub rep.outstandingOps 1 }
  match hash with
  | none => repMaybeFinish answered
  | some hash =>
    if rep.op = .markPermanent ∧ 0 < previousCount ∧ rep.hasNetwork then
      repMaybeFinish (answered.send [.storeBlock hash 1])
    else
      repMaybeFinish answered

/-- `representation_actor_dispatch`. -/
def representationActorDispatch (rep : RepresentationActor) :
    RepresentationMessage → RepresentationActor
  | .pull => rep.send [.blockCacheGet rep.descriptorHash]
  | .cacheGetResult hash block => repGetResult rep hash block
  | .cacheEphemeralResult hash previousCount => repEphemeralResult rep hash previousCount
  | .cachePinResult =>
    repMaybeFinish { rep with outstandingOps := sizeSub rep.outstandingOps 1 }
  | .cacheUnpinResult =>
    repMaybeFinish { rep with outstandingOps := sizeSub rep.outstandingOps 1 }

/-- A collecting walk that is going on, with what it has met. -/
structure CollectWalk (type : BlockSize) (seen requested : List Bytes)
    (rep : RepresentationActor) : Prop where
  type : rep.cacheType = type
  op : rep.op = .collect
  answers : rep.hasReplyTo = true
  good : rep.result = 0
  idle : rep.outstandingOps = 0
  next : rep.nextDescriptorHash = none
  seen : rep.seenHashes = seen
  sent : rep.sent = requested.map .blockCacheGet

/-- Hashes that are met are kept once. -/
def meet (seen : List Bytes) (hash : Bytes) : List Bytes :=
  if hash ∈ seen then seen else seen ++ [hash]

variable {keys : List Bytes} {seen : List Bytes}

theorem mem_meet {hash : Bytes} : other ∈ meet seen hash ↔ other ∈ seen ∨ other = hash := by
  rw [meet]
  split
  · rename_i known
    constructor
    · exact .inl
    · rintro (old | rfl)
      · exact old
      · exact known
  · simp

theorem mem_foldl_meet {hashes : List Bytes} :
    other ∈ hashes.foldl meet seen ↔ other ∈ seen ∨ other ∈ hashes := by
  induction hashes generalizing seen with
  | nil => simp
  | cons hash hashes ih => rw [foldl_cons, ih, mem_meet, mem_cons, or_assoc]

/-- What has been met with a block of the chain. -/
def meetBlock (seen keys : List Bytes) (hash : Bytes) : List Bytes :=
  meet ((keys.filter fun key => ¬ isZeroBuffer key).foldl meet seen) hash

theorem mem_meetBlock {hash : Bytes} :
    other ∈ meetBlock seen keys hash ↔ other ∈ seen ∨ (other ∈ keys ∧ ¬ isZeroBuffer other) ∨
        other = hash := by
  rw [meetBlock, mem_meet, mem_foldl_meet, mem_filter, or_assoc]
  simp

theorem repEndWalk_collect (op : rep.op = .collect) (answers : rep.hasReplyTo = true)
    (idle : rep.outstandingOps = 0) :
    (repEndWalk rep).sent = rep.sent ++
      [.collectResult rep.result rep.blocksTouched rep.seenHashes] := by
  have finish : repMaybeFinish { rep with walkDone := true } =
      repReply { rep with walkDone := true } := if_pos ⟨rfl, idle⟩
  rw [repEndWalk, if_neg (by simp [op]), finish, repReply, if_pos answers, if_pos op]
  rfl

namespace CollectWalk

variable {type : BlockSize} {seen requested : List Bytes} {rep : RepresentationActor}

theorem apply (collecting : CollectWalk type seen requested rep) (hash : Bytes) :
    CollectWalk type (meet seen hash) requested (repApplyToHash rep hash) := by
  rw [repApplyToHash, meet, ← collecting.seen]
  by_cases known : hash ∈ rep.seenHashes
  · rw [if_pos known, if_pos known]
    exact { collecting with seen := rfl }
  · have issued : repIssue
        { rep with
          seenHashes := rep.seenHashes ++ [hash]
          blocksTouched := rep.blocksTouched + 1 } hash = { rep with
          seenHashes := rep.seenHashes ++ [hash]
          blocksTouched := rep.blocksTouched + 1 } := by
      simp only [repIssue, collecting.op]
    rw [if_neg known, if_neg known, issued]
    exact { collecting with seen := rfl }

/-- The hashes of a block that are not zeros are met. -/
theorem slices (collecting : CollectWalk type seen requested rep)
    (keys : List Bytes) (offset : Nat) :
    CollectWalk type ((keys.filter fun key => ¬ isZeroBuffer key).foldl meet seen) requested
      (foldSlices (fun rep _ hash => repApplyToHash rep hash) offset keys rep) := by
  induction keys generalizing seen rep offset with
  | nil => exact collecting
  | cons key keys ih =>
    rw [foldSlices]
    by_cases zero : isZeroBuffer key
    · rw [if_pos zero, filter_cons_of_neg (by simp [zero])]
      exact ih collecting _
    · rw [if_neg zero, filter_cons_of_pos (by simp [zero])]
      exact ih (collecting.apply key) _

variable {data : Bytes}

section
variable (collecting : CollectWalk type seen requested rep)
include collecting

section
variable (places : Places type data keys)
include places

theorem process (hash : Bytes) :
    ∃ applied, CollectWalk type (meetBlock seen keys hash) requested applied ∧
      repProcessDescriptorBlock rep data hash =
        { applied with nextDescriptorHash := blockLink type data } := by
  have long : ¬ data.length < 32 := by
    rw [places.sized]
    cases type <;> decide
  have met := (collecting.slices keys 0).apply hash
  refine ⟨_, met, ?_⟩
  simp only [repProcessDescriptorBlock, collecting.type, places.dataEnd_eq,
    places.sliceLoop_eq, blockLink]
  rw [if_neg long]
  cases nextPointer 32 (hashesPerBlock type * 32 - 32) data with
  | none =>
    simp only
    rw [← met.next]
  | some next => rfl

/-- A block that ends the chain. -/
theorem getResult_end (hash : Bytes) (final : blockLink type data = none) :
    ∃ touched, (repGetResult rep hash (some data)).sent = requested.map .blockCacheGet ++
        [.collectResult 0 touched (meetBlock seen keys hash)] := by
  obtain ⟨applied, met, processed⟩ := collecting.process places hash
  refine ⟨applied.blocksTouched, ?_⟩
  simp only [repGetResult, processed, final]
  refine (repEndWalk_collect ?_ ?_ ?_).trans ?_
  · exact met.op
  · exact met.answers
  · exact met.idle
  · rw [← met.good, ← met.seen, ← met.sent]

section
variable (hash : Bytes) {next : Bytes} (link : blockLink type data = some next)
include hash link

/-- A block with a link to one that has not been met. -/
theorem getResult_next (new : next ∉ meetBlock seen keys hash) :
    CollectWalk type (meetBlock seen keys hash) (requested ++ [next])
      (repGetResult rep hash (some data)) := by
  obtain ⟨applied, met, processed⟩ := collecting.process places hash
  rw [← met.seen] at new
  simp only [repGetResult, processed, link]
  rw [if_neg new]
  refine { met with next := rfl, sent := ?_ }
  rw [map_append, ← met.sent]
  rfl

/-- A block with a link to one that has been met. -/
theorem getResult_cycle (known : next ∈ meetBlock seen keys hash) :
    ∃ touched hashes, (repGetResult rep hash (some data)).sent = requested.map .blockCacheGet ++
        [.collectResult (-3) touched hashes] := by
  obtain ⟨applied, met, processed⟩ := collecting.process places hash
  rw [← met.seen] at known
  refine ⟨applied.blocksTouched, applied.seenHashes, ?_⟩
  simp only [repGetResult, processed, link]
  rw [if_pos known]
  refine (repEndWalk_collect ?_ ?_ ?_).trans ?_
  · exact met.op
  · exact met.answers
  · exact met.idle
  · rw [← met.sent]

end

end

end

end CollectWalk

end Liboffs.OffStreams

import Liboffs.Library.ByteOrder
import Liboffs.Library.Runs

/-!
# Requests for blocks

A client may send requests to put, get and delete blocks without waiting for
the answers.  A request that is not refused at once becomes an operation of
the block cache, and the connection remembers the kind of the last one.  A
result of the cache is answered if it is of that kind, which is then
forgotten; other results are ignored.
-/

namespace Liboffs.ClientApi

open Library.ByteOrder Library.Runs List Option

/-- `block_op_t`, for the operations on blocks. -/
inductive BlockOp where
  | put
  | get
  | delete
deriving DecidableEq

/-- The status of a frame, `CLIENT_API_STATUS_*`. -/
inductive BlockStatus where
  | ok
  | badRequest
  | notFound
  | internalError
  | unauthorized
  | conflict
deriving DecidableEq

/-- A frame to the client. -/
inductive BlockFrame where
  | error (status : BlockStatus) (message : String)
  | putResponse (hash : Bytes) (hashIsText : Bool)
  | getResponse (status : BlockStatus) (data : Bytes)
  | deleteResponse (status : BlockStatus)

/-- A request as it is decoded. -/
inductive BlockRequest where
  | malformed (op : BlockOp)
  | put (data : Bytes) (encoding : UInt8)
  | get (hash : Bytes)
  | delete (hash : Bytes) (force : Bool)

def BlockRequest.op : BlockRequest → BlockOp
  | .malformed op => op
  | .put _ _ => .put
  | .get _ => .get
  | .delete _ _ => .delete

/-- What the cache reports about an operation. -/
structure CacheOutcome where
  result : Int
  hash : Option Bytes
  block : Option Bytes

/-- The checks that a request has to pass before it goes to the cache. -/
def refusal (isAuthenticated : Bool) (request : BlockRequest) : Option BlockFrame :=
  if ¬ isAuthenticated then
    some (.error .unauthorized "Authentication required")
  else
    match request with
    | .malformed .put => some (.error .badRequest "Invalid block PUT request")
    | .malformed .get => some (.error .badRequest "Invalid block GET request")
    | .malformed .delete => some (.error .badRequest "Invalid block DELETE request")
    | .put data _ =>
      if data.length = 0 ∨ 128000 < data.length then
        some (.error .badRequest "Block data must be 1-128000 bytes")
      else
        none
    | .get _ | .delete _ _ => none

section
variable (base58Encode : Bytes → Option Bytes)

/-- The frame for a result of the cache. -/
def resultFrame (encoding : UInt8) (outcome : CacheOutcome) : BlockOp → BlockFrame
  | .put =>
    match outcome.hash with
    | some hash =>
      if outcome.result < 0 then
        .error .internalError "Failed to store block"
      else if encoding = 1 then
        match base58Encode hash with
        | some encoded => .putResponse encoded true
        | none => .error .internalError "Base58 encoding failed"
      else
        .putResponse hash false
    | none => .error .internalError "Failed to store block"
  | .get =>
    match outcome.block with
    | none => .getResponse .notFound []
    | some data => .getResponse .ok data
  | .delete =>
    if outcome.result = -3 then
      .error .conflict "block is pinned"
    else if outcome.result = -4 then
      .error .conflict "block has ephemeral claims"
    else
      .deleteResponse (if outcome.result = 0 then .ok else .notFound)

/-- `block_handler_ctx_t` with the requests so far, those not answered, and the numbered frames. -/
structure BlockContext where
  pendingOp : Option BlockOp
  putEncoding : UInt8
  requests : List (Bool × BlockRequest)
  waiting : List (Nat × BlockOp)
  sent : List (Nat × BlockFrame)

/-- A request comes, or the result of one that waits. -/
inductive BlockStep where
  | request (isAuthenticated : Bool) (request : BlockRequest)
  | result (position : Nat)

/-- `block_handle_put_request`, `block_handle_get_request`, `block_handle_delete_request`. -/
def blockHandleRequest (ctx : BlockContext) (isAuthenticated : Bool) (request : BlockRequest) :
    BlockContext :=
  let asked := { ctx with requests := ctx.requests ++ [(isAuthenticated, request)] }
  match refusal isAuthenticated request with
  | some frame => { asked with sent := ctx.sent ++ [(ctx.requests.length, frame)] }
  | none =>
    { asked with
      pendingOp := some request.op
      putEncoding :=
        match request with
        | .put _ encoding => encoding
        | _ => ctx.putEncoding
      waiting := ctx.waiting ++ [(ctx.requests.length, request.op)] }

variable (outcomes : Nat → CacheOutcome)

/-- `block_handle_cache_result`, for the result of an operation. -/
def blockHandleCacheResult (ctx : BlockContext) (number : Nat) (op : BlockOp) : BlockContext :=
  if ctx.pendingOp = some op then
    { ctx with
      pendingOp := none
      sent := ctx.sent ++
        [(number, resultFrame base58Encode ctx.putEncoding (outcomes number) op)] }
  else
    ctx

def blockStep (ctx : BlockContext) : BlockStep → Option BlockContext
  | .request isAuthenticated request => some (blockHandleRequest ctx isAuthenticated request)
  | .result position =>
    ctx.waiting[position]?.map fun (number, op) =>
      blockHandleCacheResult base58Encode outcomes
        { ctx with waiting := ctx.waiting.eraseIdx position } number op

/-- The answer that a request with a number should have. -/
def dueAnswer (number : Nat) (asked : Bool × BlockRequest) : Nat × BlockFrame :=
  (number, (refusal asked.1 asked.2).getD (resultFrame base58Encode
    (match asked.2 with
    | .put _ encoding => encoding
    | _ => 0) (outcomes number) asked.2.op))

/-- Every request has had the answer that it should have, and no other. -/
def Answered (ctx : BlockContext) : Prop :=
  ctx.sent.Perm (ctx.requests.mapIdx (dueAnswer base58Encode outcomes))

/-- A request goes to the cache only while the cache works on no other. -/
def Unpipelined (ctx : BlockContext) : BlockStep → Prop
  | .request isAuthenticated request =>
    refusal isAuthenticated request = none → ctx.waiting = []
  | .result _ => True

end

/-- The connection when it is created. -/
def BlockContext.create : BlockContext := ⟨none, 0, [], [], []⟩

section
variable {base58Encode : Bytes → Option Bytes} {outcomes : Nat → CacheOutcome}
  {ctx next final : BlockContext} {steps : List BlockStep}

variable (base58Encode outcomes) in
/-- One operation at a time is with the cache, whose answer alone is missing. -/
structure Prompt (ctx : BlockContext) : Prop where
  single : ctx.waiting.length ≤ 1
  pending : ∀ waiting ∈ ctx.waiting, ctx.pendingOp = some waiting.2
  answers : (ctx.sent ++ ctx.waiting.map fun (number, op) => (number,
    resultFrame base58Encode ctx.putEncoding (outcomes number) op)).Perm
      (ctx.requests.mapIdx (dueAnswer base58Encode outcomes))

theorem Prompt.step (prompt : Prompt base58Encode outcomes ctx) (alone : Unpipelined ctx label)
    (stepped : blockStep base58Encode outcomes ctx label = some next) :
    Prompt base58Encode outcomes next := by
  obtain ⟨single, pending, answers⟩ := prompt
  cases label with
  | request isAuthenticated request =>
    cases stepped
    unfold blockHandleRequest
    cases refused : refusal isAuthenticated request with
    | some frame =>
      refine ⟨single, pending, ?_⟩
      simp only [mapIdx_concat, dueAnswer, refused, getD_some, append_assoc]
      refine (perm_append_comm.append_left _).trans ?_
      rw [← append_assoc]
      exact answers.append_right _
    | none =>
      have empty := alone refused
      simp only [empty, map_nil, append_nil] at answers
      refine ⟨by simp [empty], by simp [empty], ?_⟩
      simp only [empty, mapIdx_concat, dueAnswer, refused, nil_append, map_cons, map_nil]
      refine (answers.append_right _).trans (Perm.of_eq ?_)
      cases request with
      | malformed op => cases isAuthenticated <;> cases op <;> cases refused
      | put | get | delete => rfl
  | result position =>
    obtain ⟨⟨number, op⟩, found, rfl⟩ := map_eq_some_iff.mp stepped
    match waits : ctx.waiting, single with
    | [], _ => simp [waits] at found
    | [only], _ =>
      obtain rfl : position = 0 := by
        have := (List.getElem?_eq_some_iff.mp found).1
        simp [waits] at this
        exact this
      simp only [waits, getElem?_cons_zero, Option.some.injEq] at found
      subst found
      simp only [blockHandleCacheResult, pending _ (by rw [waits]; exact mem_cons_self), if_true]
      simp only [waits, map_cons, map_nil] at answers
      exact ⟨by simp, by simp, by simpa using answers⟩

/-- A request is neither answered nor remembered. -/
def Behind (ctx : BlockContext) : Prop :=
  ctx.sent.length + ctx.pendingOp.toList.length < ctx.requests.length

/-- Every request is answered or remembered, and all that the cache works on are. -/
def Level (ctx : BlockContext) : Prop :=
  ctx.sent.length + ctx.pendingOp.toList.length = ctx.requests.length ∧
    ctx.waiting.length ≤ ctx.pendingOp.toList.length

theorem behind_step (stepped : blockStep base58Encode outcomes ctx label = some next) :
    (Behind ctx → Behind next) ∧
      (Level ctx → Behind next ∨ Level next ∧ Unpipelined ctx label) := by
  cases label with
  | request isAuthenticated request =>
    cases stepped
    unfold blockHandleRequest
    cases refused : refusal isAuthenticated request with
    | some frame => simp [Behind, Level, Unpipelined, refused]; omega
    | none =>
      simp only [Behind, Level, Unpipelined, refused, length_append, length_singleton,
        toList_some, ← length_eq_zero_iff, forall_const]
      omega
  | result position =>
    obtain ⟨⟨number, op⟩, found, rfl⟩ := map_eq_some_iff.mp stepped
    have inside := (List.getElem?_eq_some_iff.mp found).1
    have shorter := length_eraseIdx_of_lt inside
    simp only [blockHandleCacheResult]
    by_cases pending : ctx.pendingOp = some op
    · simp only [Behind, Level, Unpipelined, pending, if_true, shorter, length_append,
        length_singleton, toList_some, toList_none, length_nil, and_true]
      omega
    · simp only [Behind, Level, Unpipelined, if_neg pending, shorter, and_true]
      omega

variable (base58Encode outcomes steps) in
/-- Every request has its own answer exactly if none went to the cache while another was there. -/
theorem block_requests_are_answered
    (ran : steps.foldlM (blockStep base58Encode outcomes) BlockContext.create = some final)
    (delivered : final.waiting = []) :
    Answered base58Encode outcomes final ↔
      EachStep (blockStep base58Encode outcomes) Unpipelined BlockContext.create steps := by
  constructor
  · intro answered
    have enough : ¬ Behind final := by
      have lengths := answered.length_eq
      simp [Behind] at lengths ⊢
      omega
    have level : Level BlockContext.create := ⟨rfl, le_refl _⟩
    generalize BlockContext.create = start at ran level
    induction steps generalizing start with
    | nil => trivial
    | cons step rest ih =>
      rw [foldlM_cons] at ran
      obtain ⟨next, stepped, ran⟩ := bind_eq_some_iff.mp ran
      rcases (behind_step stepped).2 level with behind | ⟨level, alone⟩
      · refine absurd (EachStep.foldlM ?_ behind (eachStep_true _ _ _) ran) enough
        exact fun _ _ _ behind _ stepped => (behind_step stepped).1 behind
      · intro other again
        cases stepped.symm.trans again
        exact ⟨alone, ih next ran level⟩
  · intro alone
    have prompt := alone.foldlM (fun _ _ _ prompt alone stepped => Prompt.step prompt alone stepped)
      (⟨by simp [BlockContext.create], by simp [BlockContext.create], .refl _⟩ :
        Prompt base58Encode outcomes BlockContext.create) ran
    have answers := prompt.answers
    rwa [delivered, map_nil, append_nil] at answers

/-- A cache that stores blocks under an empty hash. -/
def emptyHashOutcome : CacheOutcome := ⟨0, some [], none⟩

/-- A put and its result. -/
def singlePut : List BlockStep := [.request true (.put [0] 0), .result 0]

theorem single_put_is_answered :
    ∃ final, singlePut.foldlM (blockStep some fun _ => emptyHashOutcome) BlockContext.create =
        some final ∧ Answered some (fun _ => emptyHashOutcome) final :=
  ⟨_, rfl, (block_requests_are_answered some _ singlePut rfl rfl).mpr (by
    rintro _ ⟨⟩
    exact ⟨fun _ => rfl, fun _ _ => ⟨trivial, trivial⟩⟩)⟩

/-- Of two puts that are sent at once, the second has no answer. -/
theorem second_put_is_not_answered :
    ∃ final, [.request true (.put [0] 0), .request true (.put [1] 0), .result 0,
          .result 0].foldlM (blockStep some fun _ => emptyHashOutcome) BlockContext.create =
        some final ∧ final.waiting = [] ∧ final.sent = [(0, .putResponse [] false)] ∧
      ¬ Answered some (fun _ => emptyHashOutcome) final :=
  ⟨_, rfl, rfl, rfl, fun answered => absurd answered.length_eq (by decide)⟩

end

end Liboffs.ClientApi

import Liboffs.OffStreams.ReadTuples

/-!
# Replies in any order

A readable stream asks the tuple cache, the block cache and the network, and each request is
answered once, in any order.  In load mode a tuple whose block is missed is skipped while its
other requests are on their way.

The tuples written are always those loaded or skipped, in order, then the tuple in flight and the
queue; what is rendered is the sums of the loaded ones.  This fails for a stream that is closed
while the network looks for a block.
-/

namespace Liboffs.OffStreams

open BlockCache Library Library.ByteOrder Library.Runs List Option

/-- A stream with its tuples and open requests, and a mark for the use of a missing tuple. -/
structure Fetching where
  stream : ReadableOffStream
  written : List Tuple
  lookups : List Tuple
  gets : List Hash
  finds : List Hash
  broken : Bool

open Fetching

/-- The stream goes on; the requests among the effects will be answered. -/
def Fetching.sends (state : Fetching) (stream : ReadableOffStream)
    (effects : List ReaderEffect) : Fetching :=
  { state with
    stream := stream
    lookups := state.lookups ++ tuplesRequested effects
    gets := state.gets ++ blocksRequested effects
    finds := state.finds ++ readerFindsOf effects }

/-- The answers that are owed for a hash. -/
def Fetching.owed (state : Fetching) (hash : Hash) : Nat :=
  state.gets.count hash + state.finds.count hash

/-- A message is handled. -/
def Fetching.receive (state : Fetching) (message : ReaderMessage) : Fetching :=
  match readableOffStreamDispatch state.stream message with
  | none => { state with broken := true }
  | some stream => state.sends stream (stream.sent.drop state.stream.sent.length)

/-- What happens to a stream: a tuple, an answer, or the end. -/
inductive FetchStep where
  | write (tuple : Tuple)
  | lookupReply (hit : Bool)
  | getReply (position : Nat) (found : Bool)
  | findReply (position : Nat) (found direct : Bool)
  | close

section
variable (store : Hash → Option Bytes)

/-- The block of a hash, if it is found. -/
def blockIf (found : Bool) (hash : Hash) : Option Block :=
  if found then some ⟨dataOf store hash, hash⟩ else none

/-- One step.  What is found under a hash has its bytes. -/
def fetchStep (state : Fetching) : FetchStep → Option Fetching
  | .write tuple => some ({ state with written := state.written ++ [tuple] }.receive (.write tuple))
  | .lookupReply hit =>
    match state.lookups with
    | [] => none
    | tuple :: rest =>
      some ({ state with lookups := rest }.receive
        (.tupleCacheGetResult (if hit then some (tupleContent store tuple) else none)))
  | .getReply position found =>
    state.gets[position]?.map fun hash =>
      { state with gets := state.gets.eraseIdx position }.receive
        (.cacheGetResult hash (blockIf store found hash))
  | .findReply position found direct =>
    state.finds[position]?.map fun hash =>
      { state with finds := state.finds.eraseIdx position }.receive
        (.findBlockResult hash found (blockIf store direct hash))
  | .close => some (state.receive .closeStream)

/-- Tuples have blocks, and nobody closes while the network looks for one. -/
def Unhurried (state : Fetching) : FetchStep → Prop
  | .write tuple => tuple.hashes ≠ []
  | .close => state.stream.isDeactivated = true ∨ state.finds = []
  | _ => True

instance (state : Fetching) : ∀ label, Decidable (Unhurried state label)
  | .write tuple => inferInstanceAs (Decidable (tuple.hashes ≠ []))
  | .close => inferInstanceAs (Decidable (_ ∨ _))
  | .lookupReply _ | .getReply _ _ | .findReply _ _ _ => .isTrue trivial

def renderLoaded (start : ReadableOffStream) (resolved : List (Tuple × Bool)) : ReadableOffStream :=
  ((resolved.filter Prod.snd).map fun pair => tupleContent store pair.1).foldl
    renderOriginData start

/-- The tuples that were resolved, each with whether it was loaded. -/
structure Resolved (start : ReadableOffStream) (state : Fetching)
    (resolved : List (Tuple × Bool)) : Prop where
  ordered : resolved.map Prod.fst <+: state.written
  loaded : state.stream.tuplesLoaded = (resolved.filter Prod.snd).length
  skipped : state.stream.tuplesSkipped = (resolved.filter fun pair => !pair.2).length
  rendered : renderedBytes state.stream.sent =
    renderedBytes (renderLoaded store start resolved).sent
  ended : state.lookups = [] → state.gets = [] → state.finds = [] →
    state.stream.isDeactivated = true ∨ resolved.map Prod.fst = state.written
  sound : state.broken = false

/-- No tuples are mixed, lost or counted twice. -/
def Unmixed (start : ReadableOffStream) (state : Fetching) : Prop :=
  ∃ resolved, Resolved store start state resolved

/-- Two streams that have rendered the same and will go on at the same byte. -/
structure SameRender (stream other : ReadableOffStream) : Prop where
  applied : stream.offsetApplied = other.offsetApplied
  remainder : stream.offsetRemainder = other.offsetRemainder
  final : stream.finalByte = other.finalByte
  position : stream.sentBytes = other.sentBytes
  bytes : renderedBytes stream.sent = renderedBytes other.sent

/-- The counts and the rendering of a stream. -/
structure Books (start : ReadableOffStream) (resolved : List (Tuple × Bool))
    (stream : ReadableOffStream) : Prop
    extends SameRender stream (renderLoaded store start resolved) where
  loaded : stream.tuplesLoaded = (resolved.filter Prod.snd).length
  skipped : stream.tuplesSkipped = (resolved.filter fun pair => !pair.2).length

/-- A stream between resolved tuples and others, with the hashes being answered. -/
structure Open (start : ReadableOffStream) (resolved : List (Tuple × Bool))
    (next : List Tuple) (extra : List Hash) (state : Fetching) : Prop where
  books : Books store start resolved state.stream
  sound : state.broken = false
  active : state.stream.isDeactivated = false
  split : state.written = resolved.map Prod.fst ++ (next ++ state.stream.tupleQueue)
  filled : ∀ tuple ∈ next ++ state.stream.tupleQueue, tuple.hashes ≠ []
  asked : ∀ hash, state.owed hash + extra.count hash =
    state.stream.pendingFetches.count hash + state.stream.staleFetches.count hash
  plain : state.stream.loadMode = false → state.stream.staleFetches = []

/-- What a stream waits for: its tuple, and the requests to the tuple cache. -/
inductive Phase (stream : ReadableOffStream) : List Tuple → List Tuple → Prop
  | idle (pending : stream.pendingTuple = none) (queue : stream.tupleQueue = [])
      (fetches : stream.pendingFetches = []) : Phase stream [] []
  | busy (tuple : Tuple) {lookups : List Tuple} (pending : stream.pendingTuple = some tuple)
      (waits : Waits store stream tuple stream.pendingFetches lookups) :
      Phase stream [tuple] lookups

/-- An open stream. -/
structure Live (start : ReadableOffStream) (resolved : List (Tuple × Bool))
    (next : List Tuple) (extra : List Hash) (state : Fetching) : Prop
    extends Open store start resolved next extra state where
  phase : Phase store state.stream next state.lookups

/-- A stream that has given up, and to which too few blocks are owed to complete a tuple. -/
structure Dead (start : ReadableOffStream) (resolved : List (Tuple × Bool))
    (extra : Nat) (state : Fetching) : Prop where
  books : Books store start resolved state.stream
  sound : state.broken = false
  closed : state.stream.isDeactivated = true
  ordered : resolved.map Prod.fst <+: state.written
  owed : extra + state.finds.length = 0 ∨ state.stream.loadMode = false ∧
    state.stream.blocksReceived + (extra + state.finds.length) < state.stream.blocksExpected

/-- A stream that is open, or has given up. -/
def Kept (start : ReadableOffStream) (state : Fetching) : Prop :=
  ∃ resolved, (∃ next, Live store start resolved next [] state) ∨ Dead store start resolved 0 state

/-- What handling a message comes to keeps the invariant. -/
def Handled (start : ReadableOffStream) (state : Fetching)
    (outcome : Option ReadableOffStream) : Prop :=
  ∃ result effects, outcome = some result ∧ result.sent = state.stream.sent ++ effects ∧
    Kept store start (state.sends result effects)

/-- An open stream that has asked for no block of its tuple. -/
structure Between (start : ReadableOffStream) (resolved : List (Tuple × Bool))
    (next : List Tuple) (state : Fetching) : Prop
    extends Open store start resolved next [] state where
  lookups : state.lookups = []
  fetches : state.stream.pendingFetches = []

end

variable {store : Hash → Option Bytes} {start stream result : ReadableOffStream}
  {resolved : List (Tuple × Bool)} {state : Fetching} {hash : Hash} {tuple : Tuple}
  {next : List Tuple} {effects : List ReaderEffect}

theorem owed_sends : (state.sends result effects).owed hash =
    state.owed hash + (blocksRequested effects).count hash +
      (readerFindsOf effects).count hash := by
  simp only [owed, sends, count_append]
  omega

theorem Handled.receive
    (handled : Handled store start state (readableOffStreamDispatch state.stream message)) :
    Kept store start (state.receive message) := by
  obtain ⟨result, effects, outcome, sent, kept⟩ := handled
  have received : state.receive message = state.sends result effects := by
    simp [Fetching.receive, outcome, sent]
  rw [received]
  exact kept

/-- A message that leads to no effects. -/
theorem Handled.quiet (sent : result.sent = state.stream.sent)
    (kept : Kept store start { state with stream := result }) :
    Handled store start state (some result) := by
  refine ⟨result, [], rfl, ?_, ?_⟩
  · rw [sent, append_nil]
  · simpa [sends, tuplesRequested, blocksRequested, readerFindsOf] using kept

/-- Rendering depends only on where the stream is. -/
theorem SameRender.render (same : SameRender stream other) (data : Bytes) :
    SameRender (renderOriginData stream data) (renderOriginData other data) := by
  have begins : renderStart stream = renderStart other := by
    rw [renderStart, renderStart, same.applied, same.remainder]
  have lengths : renderLength stream data = renderLength other data := by
    rw [renderLength, renderLength, begins, same.final, same.position]
  obtain ⟨_, effects, _, _, bytes, renders⟩ := exists_renderOriginData stream
  obtain ⟨_, others, _, _, otherBytes, otherRenders⟩ := exists_renderOriginData other
  rw [renders, otherRenders]
  constructor
  · simp only [same.applied, same.remainder]
  · exact same.remainder
  · exact same.final
  · simp only [same.position, lengths]
  · rw [renderedBytes_append, renderedBytes_append, same.bytes, bytes, otherBytes, begins, lengths]

theorem Books.send (books : Books store start resolved stream)
    (silent : renderedBytes effects = []) : Books store start resolved (stream.send effects) :=
  { books with
    bytes := by
      rw [ReadableOffStream.send, renderedBytes_append, silent, append_nil]
      exact books.bytes }

/-- The fields that a loaded tuple changes. -/
theorem exists_loaded (stream : ReadableOffStream) :
    ∃ closed applied position effects, AsksNobody effects ∧
      renderOriginData (tallyTupleLoaded stream) data =
        { stream with
          tuplesLoaded := stream.tuplesLoaded + 1
          closed := closed
          offsetApplied := applied
          sentBytes := position
          sent := stream.sent ++ effects } := by
  obtain ⟨first, nobody, _, tallies⟩ := tallyTupleLoaded_eq stream
  obtain ⟨closed, second, asks, _, _, renders⟩ :=
    exists_renderOriginData (tallyTupleLoaded stream)
  rw [renders, tallies]
  exact ⟨closed, _, _, first ++ second, nobody.append asks, by rw [← append_assoc]⟩

theorem Books.load (books : Books store start resolved stream) (tuple : Tuple) :
    Books store start (resolved ++ [(tuple, true)])
      (renderOriginData (tallyTupleLoaded stream) (tupleContent store tuple)) := by
  obtain ⟨_, _, requests, tallies⟩ := tallyTupleLoaded_eq stream
  have counted : SameRender (tallyTupleLoaded stream) (renderLoaded store start resolved) := by
    rw [tallies]
    exact { (books.send requests.rendered).toSameRender with }
  have rendered := counted.render (tupleContent store tuple)
  obtain ⟨_, _, _, _, _, loads⟩ := exists_loaded stream
  refine ⟨?_, ?_, ?_⟩
  · simpa [renderLoaded] using rendered
  · rw [loads]
    simp [books.loaded]
  · rw [loads]
    simp [books.skipped]

variable {gets : List Hash} {lookups : List Tuple}

theorem Waits.perm {others : List Hash} (waits : Waits store stream tuple gets lookups)
    (same : gets.Perm others) : Waits store stream tuple others lookups := by
  cases waits with
  | asking =>
    rw [same.nil_eq.symm]
    exact .asking
  | fetching answered _ some_left all expected received sum =>
    exact .fetching answered others (fun empty => some_left (same.trans (.of_eq empty)).eq_nil)
      ((same.symm.append_left answered).trans all) expected received sum

/-- A tuple is taken up, or its blocks are asked for. -/
theorem Between.starts (between : Between store start resolved [tuple] state)
    (starts : Starts store state.stream result tuple effects) :
    Live store start resolved [tuple] [] (state.sends result effects) := by
  have fetches := starts.fetches between.fetches
  have waits := starts.waits.perm fetches
  have finds := starts.finds
  have silent := starts.requests.rendered
  obtain ⟨_, _, _, fetched, rfl⟩ := starts.changed
  refine
    { between with
      books := { between.books.send silent with }
      asked := fun other => ?_
      phase := ?_ }
  · have before := between.asked other
    rw [between.fetches] at before
    rw [owed_sends, finds, fetches.count_eq]
    change _ = fetched.count other + state.stream.staleFetches.count other
    simp only [count_nil] at before ⊢
    omega
  · change Phase store _ _ (state.lookups ++ _)
    rw [between.lookups]
    exact .busy tuple rfl waits

/-- A stream without a tuple takes the next one from its queue. -/
theorem Between.drain (between : Between store start resolved [] state)
    (pending : state.stream.pendingTuple = none) :
    ∃ effects next, (drainTupleQueue state.stream).sent = state.stream.sent ++ effects ∧
      Live store start resolved next [] (state.sends (drainTupleQueue state.stream) effects) := by
  have open_ : ¬ (state.stream.isDeactivated = true ∨ state.stream.pendingTuple.isSome = true) := by
    simp [between.active, pending]
  rw [drainTupleQueue, if_neg open_]
  split
  · rename_i queue
    refine ⟨[], [], (append_nil _).symm, { between with asked := fun other => ?_, phase := ?_ }⟩
    · rw [owed_sends]
      exact between.asked other
    · change Phase store _ _ (state.lookups ++ [])
      rw [between.lookups]
      exact .idle pending queue between.fetches
  · rename_i tuple rest queue
    have filled := between.filled
    have split := between.split
    rw [queue] at filled split
    have next : Between store start resolved [tuple]
        { state with stream := { state.stream with tupleQueue := rest } } :=
      { between with books := { between.books with }, split := split, filled := filled }
    obtain ⟨effects, starts⟩ := starts_startTupleCacheLookup store
      { state.stream with tupleQueue := rest } (filled tuple mem_cons_self)
    exact ⟨effects, _, starts.sent, next.starts starts⟩

/-- A stream that has passed its tuple and asked nobody. -/
structure Passes (stream base : ReadableOffStream) (effects : List ReaderEffect) : Prop where
  pending : base.pendingTuple = none
  fetches : base.pendingFetches = []
  queue : base.tupleQueue = stream.tupleQueue
  active : base.isDeactivated = stream.isDeactivated
  sent : base.sent = stream.sent ++ effects
  asks : AsksNobody effects

/-- The tuple in flight is resolved, and the next one taken up. -/
theorem Passes.resolve (passes : Passes state.stream base effects)
    (before : Open store start resolved [tuple] extra state) (lookups : state.lookups = [])
    (books : Books store start (resolved ++ [(tuple, loaded)]) base)
    (asked : ∀ hash, state.owed hash = base.staleFetches.count hash)
    (plain : base.loadMode = false → base.staleFetches = []) :
    Handled store start state (some (drainTupleQueue base)) := by
  have between : Between store start (resolved ++ [(tuple, loaded)]) []
      { state with stream := base } := by
    refine ⟨⟨books, before.sound, passes.active.trans before.active, ?_, ?_, ?_, plain⟩, lookups,
      passes.fetches⟩
    · rw [before.split, passes.queue]
      simp
    · intro other member
      exact before.filled other (mem_cons_of_mem _ (passes.queue ▸ member))
    · intro other
      change state.owed other + 0 = base.pendingFetches.count other + _
      rw [asked, passes.fetches]
      exact add_comm _ _
  obtain ⟨more, next, drained, live⟩ := between.drain passes.pending
  refine ⟨_, effects ++ more, rfl, ?_, resolved ++ [(tuple, loaded)], .inl ⟨next, ?_⟩⟩
  · rw [drained, ← append_assoc, ← passes.sent]
  · have same : state.sends (drainTupleQueue base) (effects ++ more) =
        { state with stream := base }.sends (drainTupleQueue base) more := by
      simp [sends, passes.asks.tuples, passes.asks.blocks, passes.asks.finds]
    rw [same]
    exact live

theorem Books.finishDecode (books : Books store start resolved stream)
    (pending : stream.pendingTuple = some tuple)
    (sum : stream.xorAccumulator = some (tupleContent store tuple)) :
    ∃ base effects, finishDecodeAndRender stream = some (drainTupleQueue base) ∧
      Passes stream base effects ∧ Books store start (resolved ++ [(tuple, true)]) base ∧
      base.staleFetches = stream.staleFetches ∧ base.loadMode = stream.loadMode := by
  obtain ⟨first, nobody, silent, _, finishes⟩ := exists_finishDecode pending sum
  have loaded := (books.send silent).load tuple
  obtain ⟨_, _, _, second, asks, loads⟩ :=
    exists_loaded (stream.send first)
  refine ⟨_, first ++ second, finishes, ?_, { loaded with }, ?_, ?_⟩
  · rw [loads]
    exact ⟨rfl, rfl, rfl, rfl, append_assoc _ _ _, nobody.append asks⟩
  · rw [loads]
    rfl
  · rw [loads]
    rfl

theorem count_of_perm (taken : (hash :: rest).Perm hashes) (other : Hash) :
    rest.count other + [hash].count other = hashes.count other := by
  rw [← taken.count_eq other]
  simp only [count_cons, count_nil, zero_add]

theorem Phase.congr (phase : Phase store stream next lookups)
    (pending : result.pendingTuple = stream.pendingTuple)
    (queue : result.pendingTuple = none → result.tupleQueue = stream.tupleQueue)
    (fetches : result.pendingFetches = stream.pendingFetches)
    (expected : result.blocksExpected = stream.blocksExpected)
    (received : result.blocksReceived = stream.blocksReceived)
    (sum : result.xorAccumulator = stream.xorAccumulator) : Phase store result next lookups := by
  cases phase with
  | idle none_ empty unasked =>
    have free := pending.trans none_
    exact .idle free ((queue free).trans empty) (fetches.trans unasked)
  | busy tuple its waits =>
    exact .busy tuple (pending.trans its) (fetches ▸ waits.congr expected received sum)

section
variable (live : Live store start resolved next [hash] state)
include live

/-- An answer for a tuple that was skipped is dropped. -/
theorem Live.drop (stale : hash ∈ state.stream.staleFetches) :
    Handled store start state
      (some { state.stream with staleFetches := state.stream.staleFetches.erase hash }) := by
  refine .quiet rfl ⟨resolved, .inl ⟨next,
    { live with
      books := { live.books with }
      asked := fun other => ?_
      plain := fun plain => ?_
      phase := live.phase.congr rfl (fun _ => rfl) rfl rfl rfl rfl }⟩⟩
  · have before := live.asked other
    rw [← count_of_perm (perm_cons_erase stale).symm, ← add_assoc] at before
    exact add_right_cancel before
  · rw [live.plain plain] at stale
    cases stale

section
variable (fresh : hash ∉ state.stream.staleFetches)
include fresh

/-- A stream that waits for a block of its tuple, with what has arrived. -/
theorem Live.gathers :
    ∃ tuple answered, next = [tuple] ∧ state.lookups = [] ∧
      (hash :: state.stream.pendingFetches.erase hash).Perm state.stream.pendingFetches ∧
      state.stream.pendingTuple = some tuple ∧
      (answered ++ [hash] ++ state.stream.pendingFetches.erase hash).Perm tuple.hashes ∧
      state.stream.blocksExpected = tuple.hashes.length ∧
      state.stream.blocksReceived = answered.length ∧
      state.stream.xorAccumulator = sumSoFar store answered := by
  have count := live.asked hash
  rw [count_eq_zero.mpr fresh, count_singleton_self] at count
  have member : hash ∈ state.stream.pendingFetches := count_pos_iff.mp (by omega)
  have taken := (perm_cons_erase member).symm
  obtain ⟨asked, lookups⟩ : ∃ asked, state.lookups = asked := ⟨_, rfl⟩
  have phase := live.phase
  rw [lookups] at phase ⊢
  cases phase with
  | idle _ _ unasked =>
    rw [unasked] at member
    cases member
  | busy tuple pending waits =>
    obtain ⟨none_asked, _, answered, gathered⟩ := waits.of_get taken
    exact ⟨tuple, answered, rfl, none_asked, taken, pending, gathered⟩

/-- A block of the tuple is added, and the last one renders the tuple. -/
theorem Live.accumulate :
    Handled store start state (accumulateBlock state.stream hash ⟨dataOf store hash, hash⟩) := by
  obtain ⟨tuple, answered, rfl, lookups, taken, pending, all, expected, received, sofar⟩ :=
    live.gathers fresh
  have sum : (added state.stream hash (dataOf store hash)).xorAccumulator =
      sumSoFar store (answered ++ [hash]) := by
    rw [sumSoFar_append, ← sofar]
    rfl
  have owed (other : Hash) : state.owed other =
      (state.stream.pendingFetches.erase hash).count other +
        state.stream.staleFetches.count other := by
    have before := live.asked other
    rw [← count_of_perm taken] at before
    omega
  have books : Books store start resolved (added state.stream hash (dataOf store hash)) :=
    { live.books with }
  change Handled store start state
    (if state.stream.blocksExpected ≤ state.stream.blocksReceived + 1 then
      finishDecodeAndRender (added state.stream hash (dataOf store hash))
    else
      some (added state.stream hash (dataOf store hash)))
  rw [expected, received, ← all.length_eq, length_append, length_append]
  split
  · rename_i complete
    have none_left : state.stream.pendingFetches.erase hash = [] :=
      length_eq_zero_iff.mp (by simpa using complete)
    rw [none_left, append_nil] at all
    rw [sumSoFar_of_perm (by simp) all] at sum
    obtain ⟨base, effects, finishes, passes, loaded, stale, mode⟩ := books.finishDecode pending sum
    have pass : Passes state.stream base effects := { passes with }
    rw [finishes]
    refine pass.resolve live.toOpen lookups loaded (fun other => ?_) fun plain => ?_
    · rw [owed, none_left, stale]
      exact zero_add _
    · exact stale.trans (live.plain (mode.symm.trans plain))
  · rename_i incomplete
    refine .quiet rfl ⟨resolved, .inl ⟨[tuple],
      { live with
        books := books
        asked := owed
        phase := lookups.symm ▸ .busy tuple pending (.fetching (answered ++ [hash]) _ ?_ all
          expected ?_ sum) }⟩⟩
    · intro none_left
      change state.stream.pendingFetches.erase hash = [] at none_left
      simp [none_left] at incomplete
    · change state.stream.blocksReceived + 1 = _
      rw [received, length_append, length_singleton]

/-- A block of the tuple is missed, and the tuple is skipped. -/
theorem Live.skip (mode : state.stream.loadMode = true) :
    Handled store start state (some (skipPendingTuple (pruneAnsweredFetch state.stream hash))) := by
  obtain ⟨tuple, answered, rfl, lookups, taken, _⟩ := live.gathers fresh
  unfold skipPendingTuple
  generalize passing : ({ pruneAnsweredFetch state.stream hash with
      tuplesSkipped := _, staleFetches := _, pendingFetches := _, xorAccumulator := _
      pendingTuple := _, blocksExpected := _, blocksReceived := _, state := _ } :
    ReadableOffStream) = passed
  obtain ⟨effects, asks, requests, notifies⟩ := exists_notifyLoadTuple passed
  have same : renderLoaded store start (resolved ++ [(tuple, false)]) =
      renderLoaded store start resolved := by
    simp [renderLoaded]
  have books : Books store start (resolved ++ [(tuple, false)]) passed := by
    subst passing
    refine ⟨by rw [same]; exact { live.books.toSameRender with }, ?_, ?_⟩
    · simpa [pruneAnsweredFetch] using live.books.loaded
    · simpa [pruneAnsweredFetch] using live.books.skipped
  have passes : Passes state.stream (notifyLoadTuple passed) effects := by
    rw [notifies]
    subst passing
    exact ⟨rfl, rfl, rfl, rfl, rfl, asks⟩
  refine passes.resolve live.toOpen lookups (by rw [notifies]; exact books.send requests.rendered)
    (fun other => ?_) fun plain => ?_
  · have before := live.asked other
    rw [← count_of_perm taken] at before
    rw [notifies]
    subst passing
    simp only [ReadableOffStream.send, pruneAnsweredFetch, count_append, count_reverse]
    omega
  · rw [notifies] at plain
    subst passing
    cases mode.symm.trans plain

end

/-- The block is asked for again, of the network or of the cache. -/
theorem Live.again (mode : OffStreamState)
    (asks : request = .findBlock hash ∨ request = .blockCacheGet hash) :
    Handled store start state (some ({ state.stream with state := mode }.send [request])) := by
  have renders : renderedBytes [request] = [] := by rcases asks with rfl | rfl <;> rfl
  have lookups : tuplesRequested [request] = [] := by rcases asks with rfl | rfl <;> rfl
  have counts (other : Hash) : (blocksRequested [request]).count other +
      (readerFindsOf [request]).count other = [hash].count other := by
    rcases asks with rfl | rfl
    · exact zero_add _
    · exact add_zero _
  refine ⟨_, [request], rfl, rfl, resolved, .inl ⟨next,
    { live with
      books := { live.books.send renders with }
      asked := fun other => ?_
      phase := ?_ }⟩⟩
  · have before := live.asked other
    rw [← counts other] at before
    rw [owed_sends, add_assoc (state.owed other)]
    exact before
  · change Phase store _ _ (state.lookups ++ tuplesRequested _)
    rw [lookups, append_nil]
    exact live.phase.congr rfl (fun _ => rfl) rfl rfl rfl rfl

/-- A block of the tuple is missed, and the stream gives up. -/
theorem Live.abandon (fresh : hash ∉ state.stream.staleFetches)
    (plain : state.stream.loadMode = false) (message : String) :
    Handled store start state (some (abandonTuple state.stream message)) := by
  obtain ⟨tuple, answered, rfl, _, taken, _, all, expected, received, _⟩ := live.gathers fresh
  have owed : (state.gets ++ state.finds).Perm (state.stream.pendingFetches.erase hash) := by
    apply perm_iff_count.mpr
    intro other
    have before := live.asked other
    rw [live.plain plain, ← count_of_perm taken, count_nil] at before
    rw [count_append]
    exact add_right_cancel before
  have lengths := owed.length_eq
  have total := all.length_eq
  rw [length_append] at lengths total
  unfold abandonTuple
  rw [if_neg (by simp [live.active])]
  refine ⟨_, [.notify (.error message), .notify .close], rfl, rfl, resolved, .inr
    ⟨{ live.books.send rfl with }, live.sound, rfl, ⟨_, live.split.symm⟩, .inr ⟨plain, ?_⟩⟩⟩
  change state.stream.blocksReceived + (0 + (state.finds ++ []).length) <
    state.stream.blocksExpected
  simp only [length_append, length_singleton, length_nil] at total ⊢
  omega

/-- The answer of the block cache to an open stream. -/
theorem Live.getReply (found : Bool) :
    Handled store start state
      (readerCacheGetResult state.stream hash (blockIf store found hash)) := by
  have open_ : ¬ state.stream.isDeactivated = true := by simp [live.active]
  cases found with
  | true =>
    simp only [blockIf, if_true, readerCacheGetResult, if_neg open_]
    split
    · exact live.drop ‹_›
    · exact live.accumulate ‹_›
  | false =>
    simp only [blockIf, reduceCtorEq, if_false, readerCacheGetResult, if_neg open_]
    split
    · exact live.drop ‹_›
    · split
      · exact live.again .awaitingNetwork (.inl rfl)
      · split
        · exact live.skip ‹_› ‹_›
        · exact live.abandon ‹_› (Bool.eq_false_of_not_eq_true ‹_›) _

/-- The answer of the network to an open stream. -/
theorem Live.findReply (found direct : Bool) :
    Handled store start state
      (readerFindBlockResult state.stream hash found (blockIf store direct hash)) := by
  unfold readerFindBlockResult
  split
  · exact live.drop ‹_›
  · rename_i fresh
    split
    · cases direct with
      | true => exact live.accumulate fresh
      | false => exact live.again .fetchingBlocks (.inr rfl)
    · split
      · exact live.skip fresh ‹_›
      · exact live.abandon fresh (Bool.eq_false_of_not_eq_true ‹_›) _

end

/-- The answer of the tuple cache to an open stream. -/
theorem Live.lookupReply (live : Live store start resolved next [] state)
    (lookups : state.lookups = tuple :: rest) (hit : Bool) :
    Handled store start { state with lookups := rest } (readerTupleCacheGetResult state.stream
      (if hit then some (tupleContent store tuple) else none)) := by
  have phase := live.phase
  rw [lookups] at phase
  cases phase with
  | busy tuple pending waits =>
    obtain ⟨rfl, fetches, rfl⟩ := waits.of_lookup
    have between : Between store start resolved [tuple] { state with lookups := [] } :=
      { live with lookups := rfl, fetches := fetches }
    cases hit with
    | true =>
      obtain ⟨_, _, _, effects, asks, loads⟩ :=
        exists_loaded state.stream
      have passes : Passes state.stream { renderOriginData (tallyTupleLoaded state.stream)
          (tupleContent store tuple) with pendingTuple := none } effects := by
        rw [loads]
        exact ⟨rfl, fetches, rfl, rfl, rfl, asks⟩
      simp only [if_true, readerTupleCacheGetResult, live.active, reduceCtorEq, if_false]
      refine Passes.resolve passes between.toOpen rfl { live.books.load tuple with }
        (fun other => ?_) ?_
      · have before := live.asked other
        rw [fetches] at before
        rw [loads]
        exact before.trans (zero_add _)
      · rw [loads]
        exact live.plain
    | false =>
      simp only [reduceCtorEq, if_false, readerTupleCacheGetResult, live.active, pending, map_some]
      exact ⟨_, _, rfl, rfl, resolved, .inl ⟨_, between.starts (starts_startBlockFetches store
        pending (live.filled tuple mem_cons_self))⟩⟩

/-- A tuple is written to an open stream. -/
theorem Live.write (live : Live store start resolved next [] state)
    (some_hash : tuple.hashes ≠ []) :
    Handled store start { state with written := state.written ++ [tuple] }
      (some (offStreamWrite state.stream tuple)) := by
  unfold offStreamWrite
  rw [if_neg (by simp [live.active])]
  have filled : ∀ other ∈ next ++ (state.stream.tupleQueue ++ [tuple]), other.hashes ≠ [] := by
    intro other member
    rw [← append_assoc] at member
    rcases mem_append.mp member with old | new
    · exact live.filled other old
    · rw [mem_singleton.mp new]
      exact some_hash
  have split : state.written ++ [tuple] = resolved.map Prod.fst ++
      (next ++ (state.stream.tupleQueue ++ [tuple])) := by
    rw [live.split]
    simp
  split
  · rename_i busy
    refine .quiet rfl ⟨resolved, .inl ⟨next,
      { live with
        books := { live.books with }
        split := split
        filled := filled
        phase := live.phase.congr rfl (fun free => ?_) rfl rfl rfl rfl }⟩⟩
    rw [show state.stream.pendingTuple = none from free] at busy
    cases busy
  · rename_i free
    obtain ⟨asked, lookups⟩ : ∃ asked, state.lookups = asked := ⟨_, rfl⟩
    have phase := live.phase
    rw [lookups] at phase
    cases phase with
    | idle _ empty unasked =>
      rw [empty] at split filled
      have between : Between store start resolved [tuple]
          { state with written := state.written ++ [tuple] } :=
        { live with
          split := by rw [empty]; exact split
          filled := by rw [empty]; exact filled
          lookups := lookups
          fetches := unasked }
      obtain ⟨effects, starts⟩ := starts_startTupleCacheLookup store state.stream some_hash
      exact ⟨_, effects, rfl, starts.sent, resolved, .inl ⟨_, between.starts starts⟩⟩
    | busy _ pending => exact absurd (by rw [pending]; rfl) free

variable {later : Fetching}

/-- A tuple or a call for the end leaves a stream that has given up as it is. -/
theorem Dead.ignore (dead : Dead store start resolved 0 state)
    (stream : later.stream = state.stream) (broken : later.broken = state.broken)
    (written : state.written <+: later.written) (finds : later.finds = state.finds) :
    Handled store start later (some state.stream) := by
  refine .quiet (by rw [stream]) ⟨resolved, .inr ⟨dead.books, broken.trans dead.sound, dead.closed,
    dead.ordered.trans written, ?_⟩⟩
  rw [finds]
  exact dead.owed

/-- The answer of the network to a stream that has given up. -/
theorem Dead.findReply (dead : Dead store start resolved 1 state) (found direct : Bool) :
    Handled store start state
      (readerFindBlockResult state.stream hash found (blockIf store direct hash)) := by
  obtain ⟨books, sound, closed, ordered, nothing | ⟨plain, incomplete⟩⟩ := dead
  · omega
  · have fewer : state.stream.blocksReceived + (0 + state.finds.length) <
        state.stream.blocksExpected := by
      omega
    unfold readerFindBlockResult
    split
    · exact .quiet rfl
        ⟨resolved, .inr ⟨{ books with }, sound, closed, ordered, .inr ⟨plain, fewer⟩⟩⟩
    · split
      · cases direct with
        | true =>
          change Handled store start state
            (if state.stream.blocksExpected ≤ state.stream.blocksReceived + 1 then
              finishDecodeAndRender (added state.stream hash (dataOf store hash))
            else
              some (added state.stream hash (dataOf store hash)))
          rw [if_neg (by omega)]
          refine .quiet rfl ⟨resolved, .inr ⟨{ books with }, sound, closed, ordered,
            .inr ⟨plain, ?_⟩⟩⟩
          change state.stream.blocksReceived + 1 + (0 + state.finds.length) <
            state.stream.blocksExpected
          omega
        | false =>
          refine ⟨_, [.blockCacheGet hash], rfl, rfl, resolved,
            .inr ⟨{ books.send rfl with }, sound, closed, ordered, .inr ⟨plain, ?_⟩⟩⟩
          change _ + (0 + (state.finds ++ []).length) < _
          rw [append_nil]
          exact fewer
      · rw [if_neg (by simp [plain]), abandonTuple]
        rw [if_pos closed]
        exact .quiet rfl ⟨resolved, .inr ⟨{ books with }, sound, closed, ordered,
          .inr ⟨plain, fewer⟩⟩⟩

/-- One request among those that are owed is being answered. -/
theorem Live.answer (live : Live store start resolved next [] state) {finds : List Hash}
    (taken : (hash :: (gets ++ finds)).Perm (state.gets ++ state.finds)) :
    Live store start resolved next [hash] { state with gets := gets, finds := finds } := by
  refine { live with asked := fun other => ?_ }
  have counted := count_of_perm taken other
  rw [count_append, count_append] at counted
  rw [← live.asked other]
  exact counted

theorem Live.step (live : Live store start resolved next [] state) (label : FetchStep)
    (unhurried : Unhurried state label) (stepped : fetchStep store state label = some later) :
    Kept store start later := by
  cases label with
  | write tuple =>
    cases stepped
    exact (live.write unhurried).receive
  | lookupReply hit =>
    rw [fetchStep] at stepped
    split at stepped
    · cases stepped
    · rename_i tuple rest lookups
      cases stepped
      exact (live.lookupReply lookups hit).receive
  | getReply position found =>
    obtain ⟨hash, here, rfl⟩ := map_eq_some_iff.mp stepped
    have answered := live.answer ((perm_eraseIdx here).append_right state.finds)
    exact (answered.getReply found).receive
  | findReply position found direct =>
    obtain ⟨hash, here, rfl⟩ := map_eq_some_iff.mp stepped
    have answered := live.answer (perm_middle.symm.trans
      ((perm_eraseIdx here).append_left state.gets))
    exact (answered.findReply found direct).receive
  | close =>
    cases stepped
    have none_owed : state.finds = [] := unhurried.resolve_left (by simp [live.active])
    apply Handled.receive
    rw [readableOffStreamDispatch, if_neg (by simp [live.active])]
    refine ⟨_, [.notify .close], rfl, rfl, resolved, .inr ⟨{ live.books.send rfl with }, live.sound,
      rfl, ⟨_, live.split.symm⟩, .inl ?_⟩⟩
    change 0 + (state.finds ++ []).length = 0
    rw [none_owed]
    rfl

theorem Dead.step (dead : Dead store start resolved 0 state) (label : FetchStep)
    (stepped : fetchStep store state label = some later) : Kept store start later := by
  cases label with
  | write tuple =>
    cases stepped
    apply Handled.receive
    rw [readableOffStreamDispatch, offStreamWrite, if_pos dead.closed]
    exact dead.ignore rfl rfl (prefix_append _ _) rfl
  | lookupReply hit =>
    rw [fetchStep] at stepped
    split at stepped
    · cases stepped
    · cases stepped
      apply Handled.receive
      cases hit <;>
        simp only [readableOffStreamDispatch, readerTupleCacheGetResult, if_pos dead.closed]
      all_goals exact dead.ignore rfl rfl (prefix_refl _) rfl
  | getReply position found =>
    obtain ⟨hash, here, rfl⟩ := map_eq_some_iff.mp stepped
    apply Handled.receive
    cases found <;> simp [blockIf, readableOffStreamDispatch, readerCacheGetResult,
      if_pos dead.closed]
    all_goals exact dead.ignore rfl rfl (prefix_refl _) rfl
  | findReply position found direct =>
    obtain ⟨hash, here, rfl⟩ := map_eq_some_iff.mp stepped
    have fewer := (perm_eraseIdx here).length_eq
    have answered : Dead store start resolved 1
        { state with finds := state.finds.eraseIdx position } := by
      refine { dead with owed := ?_ }
      rw [add_comm 1, ← length_cons, fewer, ← zero_add state.finds.length]
      exact dead.owed
    exact (answered.findReply found direct).receive
  | close =>
    cases stepped
    apply Handled.receive
    rw [readableOffStreamDispatch, if_pos dead.closed]
    exact dead.ignore rfl rfl (prefix_refl _) rfl

/-- Every step keeps the invariant. -/
theorem Kept.step (label : FetchStep) (later : Fetching) (kept : Kept store start state)
    (unhurried : Unhurried state label) (stepped : fetchStep store state label = some later) :
    Kept store start later := by
  obtain ⟨resolved, ⟨next, live⟩ | dead⟩ := kept
  · exact live.step label unhurried stepped
  · exact dead.step label stepped

/-- When nothing is owed, an open stream has resolved every tuple. -/
theorem Live.resolved_all (live : Live store start resolved next [] state)
    (lookups : state.lookups = []) (gets : state.gets = []) (finds : state.finds = []) :
    resolved.map Prod.fst = state.written := by
  have unasked : state.stream.pendingFetches = [] := by
    apply eq_nil_iff_forall_not_mem.mpr
    intro hash member
    have count := live.asked hash
    simp only [owed, gets, finds, count_nil] at count
    have positive := count_pos_iff.mpr member
    omega
  have split := live.split
  have phase := live.phase
  rw [lookups] at phase
  cases phase with
  | idle _ queue => rw [split, queue, append_nil, append_nil]
  | busy _ _ waits =>
    rw [unasked] at waits
    cases waits with
    | fetching _ _ some_left => exact absurd rfl some_left

theorem Kept.unmixed (kept : Kept store start state) : Unmixed store start state := by
  obtain ⟨resolved, ⟨next, live⟩ | dead⟩ := kept
  · exact ⟨resolved, ⟨_, live.split.symm⟩, live.books.loaded, live.books.skipped, live.books.bytes,
      fun lookups gets finds => .inr (live.resolved_all lookups gets finds), live.sound⟩
  · exact ⟨resolved, dead.ordered, dead.books.loaded, dead.books.skipped, dead.books.bytes,
      fun _ _ _ => .inl dead.closed, dead.sound⟩

/-- A stream that was created, with nothing written to it. -/
def fetching (ori : Ori) (hasTupleCache hasNetwork loadMode : Bool) : Fetching :=
  ⟨readableOffStreamCreateEx ori hasTupleCache hasNetwork loadMode, [], [], [], [], false⟩

/--
Whatever the order of the answers, no tuples are mixed, lost or counted twice, unless the stream
is closed while the network looks.
-/
theorem tuples_are_not_mixed (store : Hash → Option Bytes) (ori : Ori)
    (hasTupleCache hasNetwork loadMode : Bool) (steps : List FetchStep)
    (unhurried : EachStep (fetchStep store) Unhurried
      (fetching ori hasTupleCache hasNetwork loadMode) steps) :
    Throughout (fetchStep store)
      (Unmixed store (readableOffStreamCreateEx ori hasTupleCache hasNetwork loadMode))
      (fetching ori hasTupleCache hasNetwork loadMode) steps :=
  EachStep.throughout (fun _ => Kept.step) (fun _ => Kept.unmixed)
    (⟨[], .inl ⟨[], ⟨⟨⟨rfl, rfl, rfl, rfl, rfl⟩, rfl, rfl⟩, rfl, rfl, rfl, nofun, fun _ => rfl, fun
      _ => rfl⟩, .idle rfl rfl rfl⟩⟩) unhurried

/-- Two blocks of one byte each. -/
def twoBlocks (hash : Hash) : Option Bytes :=
  hash.bytes.head?.map fun byte => [byte]

/-- The tuple of the two blocks. -/
def pairTuple : Tuple :=
  ⟨2, [⟨List.replicate 32 1, rfl⟩, ⟨List.replicate 32 2, rfl⟩], le_rfl⟩

/-- One block is in the cache and the other on the network. -/
theorem found_pair_is_not_mixed :
    Throughout (fetchStep twoBlocks)
      (Unmixed twoBlocks (readableOffStreamCreateEx ⟨.nano, 0, 10⟩ false true false))
      (fetching ⟨.nano, 0, 10⟩ false true false)
      [.write pairTuple, .getReply 0 true, .getReply 0 false, .findReply 0 true true, .close] := by
  apply tuples_are_not_mixed
  decide

/-- The network finds a block after the end: it is rendered as the whole tuple. -/
theorem closed_pair_is_mixed : ∃ final,
    [.write pairTuple, .getReply 0 true, .getReply 0 false, .close, .findReply 0 true true].foldlM
        (fetchStep twoBlocks) (fetching ⟨.nano, 0, 10⟩ false true false) = some final ∧
      final.stream.tuplesLoaded = 1 ∧
      renderedBytes final.stream.sent = [2] ∧ tupleContent twoBlocks pairTuple = [3] ∧
      ¬ Unmixed twoBlocks (readableOffStreamCreateEx ⟨.nano, 0, 10⟩ false true false) final := by
  refine ⟨_, rfl, rfl, rfl, rfl, ?_⟩
  rintro ⟨resolved, ordered, loaded, _, rendered, _⟩
  match resolved with
  | [] => cases loaded
  | (_, false) :: [] => cases loaded
  | (tuple, true) :: [] =>
    cases (cons_prefix_cons.mp ordered).1
    cases rendered
  | _ :: _ :: _ => cases prefix_nil.mp (cons_prefix_cons.mp ordered).2

end Liboffs.OffStreams

import Liboffs.OffStreams.Reading

/-!
# The bytes that are read

What the stream has rendered is at every moment the sum of the blocks of the
first tuples, cut at the last byte of the file.  The tuple in flight, the
queue and the tuples not yet fed are the other ones, in order.
-/

namespace Liboffs.OffStreams

open BlockCache Library Library.ByteOrder Library.Runs List Option

/-- The bytes of tuples. -/
def contentOf (store : Hash → Option Bytes) (tuples : List Tuple) : Bytes :=
  (tuples.map (tupleContent store)).flatten

/-- A stream that has rendered the first tuples. -/
structure Rendered (store : Hash → Option Bytes) (tuples : List Tuple)
    (final : Nat) (done : List Tuple) (stream : ReadableOffStream) : Prop where
  active : stream.isDeactivated = false
  stale : stream.staleFetches = []
  offset : stream.offsetRemainder = 0
  last : stream.finalByte = final
  puts : ∀ pair ∈ tuplesPut stream.sent, ∀ tuple ∈ tuples,
    pair.1.hashes = tuple.hashes → pair.2 = tupleContent store tuple
  bytes : renderedBytes stream.sent = (contentOf store done).take final
  position : stream.sentBytes = min final (contentOf store done).length

/-- The stream has no tuple to work on. -/
structure Idle (tuples done : List Tuple) (state : Reading) : Prop where
  pending : state.stream.pendingTuple = none
  queue : state.stream.tupleQueue = []
  gets : state.gets = []
  lookups : state.lookups = []
  tuples : tuples = done ++ state.remaining

/-- The stream waits for an answer about a tuple. -/
structure Busy (store : Hash → Option Bytes) (tuples done : List Tuple)
    (tuple : Tuple) (state : Reading) : Prop where
  pending : state.stream.pendingTuple = some tuple
  waits : Waits store state.stream tuple state.gets state.lookups
  tuples : tuples = done ++ tuple :: (state.stream.tupleQueue ++ state.remaining)

/-- What holds of a stream that reads the tuples. -/
def ReadInvariant (store : Hash → Option Bytes) (tuples : List Tuple)
    (final : Nat) (state : Reading) : Prop :=
  ∃ done, Rendered store tuples final done state.stream ∧
    (Idle tuples done state ∨ ∃ tuple, Busy store tuples done tuple state)

/-- The answers that a tuple may take. -/
def tupleCost (tuple : Tuple) : Nat :=
  tuple.hashes.length + 1

/-- A bound on the steps still to come. -/
def readMeasure (state : Reading) : Nat :=
  (state.remaining.map fun tuple => tupleCost tuple + 1).sum +
    (state.stream.tupleQueue.map tupleCost).sum +
    (state.lookups.map tupleCost).sum + state.gets.length

variable {result : ReadableOffStream} {remaining : List Tuple} {hash : Hash}

section
variable {store : Hash → Option Bytes} {cached : List (Tuple × Bytes)}
  {tuples : List Tuple} {final : Nat} {lookups done rest : List Tuple} {stream : ReadableOffStream}
  {tuple : Tuple} {state : Reading} {position : Nat}

theorem Waits.cost_le (waits : Waits store stream tuple gets lookups) :
    (lookups.map tupleCost).sum + gets.length ≤ tupleCost tuple := by
  cases waits with
  | asking => simp
  | fetching answered gets some_left all =>
    have lengths := all.length_eq
    rw [length_append] at lengths
    simp only [map_nil, sum_nil, tupleCost]
    omega

theorem Waits.congr (waits : Waits store stream tuple gets lookups)
    (expected : other.blocksExpected = stream.blocksExpected)
    (received : other.blocksReceived = stream.blocksReceived)
    (sum : other.xorAccumulator = stream.xorAccumulator) :
    Waits store other tuple gets lookups := by
  cases waits with
  | asking => exact .asking
  | fetching answered gets some_left all expects receives sums =>
    exact .fetching answered gets some_left all (expected.trans expects)
      (received.trans receives) (sum.trans sums)

theorem readReceive_eq (state : Reading) (message : ReaderMessage)
    (handled : readableOffStreamDispatch state.stream message = some result)
    (sends : result.sent = state.stream.sent ++ effects) :
    state.receive message =
      some { state with
        stream := result
        gets := state.gets ++ blocksRequested effects
        lookups := state.lookups ++ tuplesRequested effects } := by
  unfold Reading.receive
  rw [handled]
  simp [sends]

section
variable (rendered : Rendered store tuples final done stream)
include rendered

/-- Requests do not change what has been rendered. -/
theorem Rendered.starts (starts : Starts store stream result tuple effects) :
    Rendered store tuples final done result := by
  obtain ⟨_, _, _, _, rfl⟩ := starts.changed
  refine { rendered with puts := ?_, bytes := ?_ }
  · rw [tuplesPut_append, starts.requests.puts, append_nil]
    exact rendered.puts
  · rw [renderedBytes_append, starts.requests.rendered, append_nil]
    exact rendered.bytes

/-- A stream without a tuple takes the next one from its queue. -/
theorem ReadInvariant.drain (pending : stream.pendingTuple = none)
    (split : tuples = done ++ (stream.tupleQueue ++ remaining))
    (some_hash : ∀ tuple ∈ tuples, tuple.hashes ≠ []) :
    ∃ effects, (drainTupleQueue stream).sent = stream.sent ++ effects ∧
      ReadInvariant store tuples final ⟨drainTupleQueue stream, remaining, blocksRequested effects,
          tuplesRequested effects⟩ ∧
      ((drainTupleQueue stream).tupleQueue.map tupleCost).sum +
          ((tuplesRequested effects).map tupleCost).sum + (blocksRequested effects).length ≤
        (stream.tupleQueue.map tupleCost).sum := by
  have ready : ¬ (stream.isDeactivated = true ∨ stream.pendingTuple.isSome = true) := by
    simp [rendered.active, pending]
  unfold drainTupleQueue
  rw [if_neg ready]
  cases queue : stream.tupleQueue with
  | nil =>
    refine ⟨[], by simp, ⟨done, rendered, .inl ⟨pending, queue, rfl, rfl, ?_⟩⟩, ?_⟩
    · rw [split, queue, nil_append]
    · simp [queue, blocksRequested, tuplesRequested]
  | cons tuple rest =>
    have member : tuple ∈ tuples := by simp [split, queue]
    obtain ⟨effects, starts⟩ := starts_startTupleCacheLookup store
      { stream with tupleQueue := rest } (some_hash tuple member)
    have kept : Rendered store tuples final done
        { stream with tupleQueue := rest } :=
      { rendered with }
    have left : (startTupleCacheLookup
        { stream with tupleQueue := rest } tuple).tupleQueue = rest :=
      starts.queue
    refine ⟨effects, starts.sent, ⟨done, kept.starts starts, .inr ⟨tuple,
      starts.pending, starts.waits, ?_⟩⟩, ?_⟩
    · rw [left, split, queue]
      rfl
    · have cost := starts.waits.cost_le
      rw [left, map_cons, sum_cons]
      omega

/-- Rendering the sum of a tuple. -/
theorem Rendered.render (tuple : Tuple) :
    ∃ result effects, renderOriginData (tallyTupleLoaded stream) (tupleContent store tuple) =
        result ∧ result.sent = stream.sent ++ effects ∧ AsksNothing effects ∧
      result.tupleQueue = stream.tupleQueue ∧
      Rendered store tuples final (done ++ [tuple]) result := by
  have content : contentOf store (done ++ [tuple]) =
      contentOf store done ++ tupleContent store tuple := by
    simp [contentOf]
  obtain ⟨first, asks, requests, tallies⟩ := tallyTupleLoaded_eq stream
  have within : stream.sentBytes ≤ stream.finalByte := by
    rw [rendered.position, rendered.last]
    exact min_le_left _ _
  obtain ⟨closed, applied, second, nothing, puts, bytes, renders⟩ :=
    renderOriginData_eq
      { stream with tuplesLoaded := stream.tuplesLoaded + 1, sent := stream.sent ++ first }
      (tupleContent store tuple) rendered.offset within
  rw [tallies]
  refine ⟨_, first ++ second, renders, ?_, asks.toAsksNothing.append nothing, rfl,
    rendered.active, rendered.stale, rendered.offset, rendered.last, ?_, ?_, ?_⟩
  · exact append_assoc _ _ _
  · simp only [tuplesPut_append, requests.puts, puts, append_nil]
    exact rendered.puts
  · simp only [renderedBytes_append, requests.rendered, append_nil,
      bytes, rendered.bytes, rendered.last, rendered.position]
    rw [content, take_append]
    congr 2
    omega
  · simp only [content, length_append, rendered.position, rendered.last]
    omega

end

/-- A step that keeps the invariant and decreases the measure. -/
def Advances (store : Hash → Option Bytes) (tuples : List Tuple)
    (final : Nat) (state : Reading) (result : Option Reading) : Prop :=
  ∃ next, result = some next ∧ ReadInvariant store tuples final next ∧
    readMeasure next < readMeasure state

theorem Waits.of_lookup (waits : Waits store stream pending gets (tuple :: rest)) :
    pending = tuple ∧ gets = [] ∧ rest = [] := by
  cases waits
  exact ⟨rfl, rfl, rfl⟩

/-- A stream that has finished a tuple goes on with the next one. -/
theorem ReadInvariant.finish (rendered : Rendered store tuples final (done ++ [tuple]) base)
    (pending : base.pendingTuple = none) (queue : base.tupleQueue = stream.tupleQueue)
    (sent : base.sent = stream.sent ++ effects) (asks : AsksNothing effects)
    (split : tuples = done ++ tuple :: (stream.tupleQueue ++ remaining))
    (some_hash : ∀ tuple ∈ tuples, tuple.hashes ≠ []) :
    ∃ more, (drainTupleQueue base).sent = stream.sent ++ more ∧ ReadInvariant store tuples final
        ⟨drainTupleQueue base, remaining, blocksRequested more, tuplesRequested more⟩ ∧
      ((drainTupleQueue base).tupleQueue.map tupleCost).sum +
          ((tuplesRequested more).map tupleCost).sum + (blocksRequested more).length ≤
        (stream.tupleQueue.map tupleCost).sum := by
  have parts : tuples = done ++ [tuple] ++ (base.tupleQueue ++ remaining) := by
    rw [split, queue, append_assoc]
    rfl
  obtain ⟨more, drained, holds, cost⟩ := ReadInvariant.drain rendered pending parts some_hash
  refine ⟨effects ++ more, ?_, ?_, ?_⟩
  · rw [drained, sent, append_assoc]
  · rw [blocksRequested_append, tuplesRequested_append, asks.blocks, asks.tuples]
    exact holds
  · rw [blocksRequested_append, tuplesRequested_append, asks.blocks, asks.tuples, ← queue]
    exact cost

/-- The sum of all blocks of a tuple, in any order. -/
theorem sumSoFar_of_perm (some_hash : answered ≠ []) (all : answered.Perm tuple.hashes) :
    sumSoFar store answered = some (tupleContent store tuple) := by
  cases answered with
  | nil => exact absurd rfl some_hash
  | cons hash rest => exact congrArg some ((all.map (dataOf store)).foldl_eq [])

/-- The stream after the sum has been put in the tuple cache, if any. -/
theorem Rendered.put (rendered : Rendered store tuples final done stream)
    (silent : renderedBytes effects = [])
    (puts : ∀ pair ∈ tuplesPut effects, pair = (tuple, tupleContent store tuple)) :
    Rendered store tuples final done (stream.send effects) := by
  refine { rendered with puts := ?_, bytes := ?_ }
  · intro pair among other member same
    simp only [ReadableOffStream.send, tuplesPut_append] at among
    rcases mem_append.mp among with before | new
    · exact rendered.puts pair before other member same
    · rw [puts pair new] at same ⊢
      rw [tupleContent, tupleContent, show tuple.hashes = other.hashes from same]
  · simp only [ReadableOffStream.send, renderedBytes_append]
    rw [rendered.bytes, silent, append_nil]

/-- The stream after the tuple in flight has been cleared. -/
def cleared (stream : ReadableOffStream) : ReadableOffStream :=
  { stream with
    xorAccumulator := none
    pendingTuple := none
    blocksExpected := 0
    blocksReceived := 0
    pendingFetches := [] }

/-- A complete sum is put in the tuple cache, if there is one, and rendered. -/
theorem exists_finishDecode (pending : stream.pendingTuple = some tuple)
    (sum : stream.xorAccumulator = some (tupleContent store tuple)) :
    ∃ effects, AsksNobody effects ∧ renderedBytes effects = [] ∧
      (∀ pair ∈ tuplesPut effects, pair = (tuple, tupleContent store tuple)) ∧
      finishDecodeAndRender stream = some (drainTupleQueue (cleared (renderOriginData
        (tallyTupleLoaded (stream.send effects)) (tupleContent store tuple)))) := by
  unfold finishDecodeAndRender
  rw [sum]
  by_cases caches : stream.hasTupleCache = true
  · refine ⟨[.tupleCachePut tuple (tupleContent store tuple)], ⟨⟨rfl, rfl⟩, rfl⟩, rfl,
      fun _ => mem_singleton.mp, ?_⟩
    simp only [caches, if_true, pending, map_some, bind_eq_bind, bind_some]
    rfl
  · have same : stream.send [] = stream := by rw [ReadableOffStream.send, append_nil]
    refine ⟨[], ⟨⟨rfl, rfl⟩, rfl⟩, rfl, forall_mem_nil _, ?_⟩
    rw [same]
    simp only [caches, bind_eq_bind, bind_some]
    rfl

/-- A complete sum is rendered, and the stream goes on. -/
theorem Rendered.finishDecode (rendered : Rendered store tuples final done stream)
    (pending : stream.pendingTuple = some tuple)
    (sum : stream.xorAccumulator = some (tupleContent store tuple)) :
    ∃ base effects, finishDecodeAndRender stream = some (drainTupleQueue base) ∧
      Rendered store tuples final (done ++ [tuple]) base ∧
      base.pendingTuple = none ∧ base.tupleQueue = stream.tupleQueue ∧
      base.sent = stream.sent ++ effects ∧ AsksNothing effects := by
  obtain ⟨first, nobody, silent, puts, finishes⟩ := exists_finishDecode pending sum
  obtain ⟨result, effects, renders, sent, asks, queue, later⟩ :=
    (rendered.put silent puts).render tuple
  refine ⟨cleared result, first ++ effects, ?_, { later with }, rfl, queue, ?_,
    nobody.toAsksNothing.append asks⟩
  · rw [finishes, renders]
  · rw [← append_assoc]
    exact sent

theorem perm_eraseIdx (here : gets[position]? = some hash) :
    (hash :: gets.eraseIdx position).Perm gets := by
  obtain ⟨within, rfl⟩ := List.getElem?_eq_some_iff.mp here
  exact getElem_cons_eraseIdx_perm within

theorem Waits.of_get (waits : Waits store stream tuple gets lookups)
    (taken : (hash :: others).Perm gets) :
    lookups = [] ∧ hash ∈ tuple.hashes ∧ ∃ answered,
      (answered ++ [hash] ++ others).Perm tuple.hashes ∧
      stream.blocksExpected = tuple.hashes.length ∧ stream.blocksReceived = answered.length ∧
      stream.xorAccumulator = sumSoFar store answered := by
  cases waits with
  | asking => cases taken.eq_nil
  | fetching answered gets some_left all expected received sum =>
    refine ⟨rfl, ?_, answered, ?_, expected, received, sum⟩
    · exact all.subset (mem_append_right _ (taken.subset mem_cons_self))
    · rw [append_assoc]
      exact (taken.append_left answered).trans all

/-- The stream after a block has been added to the sum. -/
def added (stream : ReadableOffStream) (hash : Hash) (data : Bytes) : ReadableOffStream :=
  { pruneAnsweredFetch stream hash with
    xorAccumulator :=
      match stream.xorAccumulator with
      | none => some data
      | some sum => some (bufferXor sum data)
    blocksReceived := stream.blocksReceived + 1 }

section
variable (holds : ReadInvariant store tuples final state)
include holds

/-- A stream with an open lookup waits for nothing else. -/
theorem ReadInvariant.asking (lookups : state.lookups = tuple :: rest) :
    ∃ done, Rendered store tuples final done state.stream ∧
      Busy store tuples done tuple state ∧ state.gets = [] ∧ rest = [] := by
  obtain ⟨done, rendered, stage⟩ := holds
  rcases stage with idle | ⟨pending, busy⟩
  · cases idle.lookups.symm.trans lookups
  · have waits := busy.waits
    rw [lookups] at waits
    obtain ⟨rfl, gets, rest_nil⟩ := waits.of_lookup
    exact ⟨done, rendered, busy, gets, rest_nil⟩

section
variable (some_hash : ∀ tuple ∈ tuples, tuple.hashes ≠ [])
include some_hash

/-- A step that feeds a tuple. -/
theorem ReadInvariant.feed (remaining : state.remaining = tuple :: rest) :
    Advances store tuples final state
      ({ state with remaining := rest }.receive (.write tuple)) := by
  obtain ⟨done, rendered, stage⟩ := holds
  rcases stage with idle | ⟨pending, busy⟩
  · have member : tuple ∈ tuples := by simp [idle.tuples, remaining]
    obtain ⟨effects, starts⟩ := starts_startTupleCacheLookup store
      state.stream (some_hash tuple member)
    have handled : offStreamWrite state.stream tuple =
        startTupleCacheLookup state.stream tuple := by
      unfold offStreamWrite
      rw [if_neg (by simp [rendered.active]), if_neg (by simp [idle.pending])]
    rw [readReceive_eq { state with remaining := rest } (.write tuple)
      (congrArg some handled) starts.sent]
    refine ⟨_, rfl, ⟨done, rendered.starts starts, .inr ⟨tuple, starts.pending, ?_, ?_⟩⟩, ?_⟩
    · rw [idle.gets, idle.lookups, nil_append, nil_append]
      exact starts.waits
    · rw [starts.queue, idle.queue, idle.tuples, remaining]
      rfl
    · have cost := starts.waits.cost_le
      simp only [readMeasure, idle.gets, idle.lookups, idle.queue,
        starts.queue, remaining, nil_append, map_nil, sum_nil, map_cons, sum_cons, length_nil]
      omega
  · have handled : offStreamWrite state.stream tuple =
        { state.stream with
          tupleQueue := state.stream.tupleQueue ++ [tuple] } := by
      unfold offStreamWrite
      rw [if_neg (by simp [rendered.active]), if_pos (by simp [busy.pending])]
    have sends : ({ state.stream with tupleQueue := state.stream.tupleQueue ++ [tuple] } :
          ReadableOffStream).sent = state.stream.sent ++ [] := by
      simp
    rw [readReceive_eq { state with remaining := rest } (.write tuple)
      (congrArg some handled) sends]
    refine ⟨_, rfl, ⟨done, ?_, .inr ⟨pending, busy.pending, ?_, ?_⟩⟩, ?_⟩
    · exact { rendered with }
    · change Waits store _ pending (state.gets ++ []) (state.lookups ++ [])
      rw [append_nil, append_nil]
      exact busy.waits.congr rfl rfl rfl
    · rw [busy.tuples, remaining]
      simp
    · simp only [readMeasure, remaining, blocksRequested, tuplesRequested,
        filterMap_nil, append_nil, map_append, sum_append, map_cons, sum_cons, map_nil, sum_nil]
      omega

/-- The tuple cache has forgotten the tuple. -/
theorem ReadInvariant.miss (lookups : state.lookups = tuple :: rest) :
    Advances store tuples final state ({ state with lookups := rest }.receive
        (.tupleCacheGetResult none)) := by
  obtain ⟨done, rendered, busy, gets, rfl⟩ := holds.asking lookups
  have member : tuple ∈ tuples := by simp [busy.tuples]
  have starts := starts_startBlockFetches store busy.pending (some_hash tuple member)
  have handled : readerTupleCacheGetResult state.stream none =
      some (startBlockFetches state.stream tuple) := by
    rw [readerTupleCacheGetResult, if_neg (by simp [rendered.active]), busy.pending]
    rfl
  rw [readReceive_eq { state with lookups := [] } (.tupleCacheGetResult none) handled starts.sent]
  refine ⟨_, rfl, ⟨done, rendered.starts starts, .inr ⟨tuple, starts.pending, ?_, ?_⟩⟩, ?_⟩
  · rw [gets, nil_append, nil_append]
    exact starts.waits
  · exact busy.tuples
  · simp only [readMeasure, gets, lookups, starts.queue, blocksRequested_gets, tuplesRequested_gets,
      nil_append, map_nil, sum_nil, map_cons, sum_cons, length_nil, tupleCost]
    omega

/-- The tuple cache has the sum of the tuple. -/
theorem ReadInvariant.hit (lookups : state.lookups = tuple :: rest) :
    Advances store tuples final state ({ state with lookups := rest }.receive
        (.tupleCacheGetResult (some (tupleContent store tuple)))) := by
  obtain ⟨done, rendered, busy, gets, rfl⟩ := holds.asking lookups
  obtain ⟨result, effects, renders, sent, asks, queue, later⟩ := rendered.render tuple
  have handled : readerTupleCacheGetResult state.stream (some (tupleContent store tuple)) =
        some (drainTupleQueue { result with pendingTuple := none }) := by
    rw [readerTupleCacheGetResult, if_neg (by simp [rendered.active]), renders]
  have finished : Rendered store tuples final (done ++ [tuple])
      { result with pendingTuple := none } :=
    { later with }
  obtain ⟨more, sends, kept, cost⟩ := ReadInvariant.finish finished rfl queue
    sent asks busy.tuples some_hash
  rw [readReceive_eq { state with lookups := [] }
    (.tupleCacheGetResult (some (tupleContent store tuple))) handled sends]
  refine ⟨_, rfl, ?_, ?_⟩
  · rw [gets, nil_append, nil_append]
    exact kept
  · simp only [readMeasure, gets, lookups, nil_append, map_cons,
      sum_cons, map_nil, sum_nil, length_nil, tupleCost] at cost ⊢
    omega

end

/-- A block arrives. -/
theorem ReadInvariant.block (readable : Readable store cached tuples)
    (waiting : state.gets[position]? = some hash) :
    Advances store tuples final state ({ state with gets := state.gets.eraseIdx position }.receive
        (.cacheGetResult hash ((store hash).map (Block.mk · hash)))) := by
  obtain ⟨done, rendered, stage⟩ := holds
  rcases stage with idle | ⟨tuple, busy⟩
  · rw [idle.gets] at waiting
    cases waiting
  · obtain ⟨lookups, named, answered, all, expected, received, sum⟩ :=
      busy.waits.of_get (perm_eraseIdx waiting)
    have member : tuple ∈ tuples := by simp [busy.tuples]
    obtain ⟨data, stored⟩ := isSome_iff_exists.mp (readable.stored tuple member hash named)
    have value : dataOf store hash = data := by simp [dataOf, stored]
    have shorter := length_eraseIdx_of_lt (List.getElem?_eq_some_iff.mp waiting).1
    have within := (List.getElem?_eq_some_iff.mp waiting).1
    have lengths := all.length_eq
    rw [length_append, length_append, length_singleton] at lengths
    have handled : readerCacheGetResult state.stream hash (some ⟨data, hash⟩) =
        if state.stream.blocksExpected ≤ state.stream.blocksReceived + 1 then
          finishDecodeAndRender (added state.stream hash data)
        else
          some (added state.stream hash data) := by
      rw [readerCacheGetResult, if_neg (by simp [rendered.active]),
        if_neg (by simp [rendered.stale])]
      rfl
    have adds : (added state.stream hash data).xorAccumulator =
        sumSoFar store (answered ++ [hash]) := by
      rw [sumSoFar_append, ← sum, value]
      rfl
    have kept : Rendered store tuples final done (added state.stream hash data) := { rendered with }
    rw [stored, map_some]
    by_cases complete : state.stream.blocksExpected ≤ state.stream.blocksReceived + 1
    · rw [if_pos complete] at handled
      have none_left : state.gets.eraseIdx position = [] := by
        apply length_eq_zero_iff.mp
        omega
      rw [none_left, append_nil] at all
      rw [sumSoFar_of_perm (by simp) all] at adds
      obtain ⟨base, effects, finishes, later, cleared, queue, sent, asks⟩ :=
        kept.finishDecode busy.pending adds
      obtain ⟨more, sends, holds, cost⟩ := ReadInvariant.finish later cleared
        queue sent asks busy.tuples readable.some_hash
      rw [readReceive_eq { state with gets := state.gets.eraseIdx position }
        (.cacheGetResult hash (some ⟨data, hash⟩)) (handled.trans finishes) sends]
      refine ⟨_, rfl, ?_, ?_⟩
      · rw [none_left, lookups, nil_append, nil_append]
        exact holds
      · simp only [readMeasure, none_left, lookups, nil_append, map_nil, sum_nil] at cost ⊢
        have queue_cost : ((added state.stream hash data).tupleQueue.map tupleCost).sum =
              (state.stream.tupleQueue.map tupleCost).sum := rfl
        omega
    · rw [if_neg complete] at handled
      rw [readReceive_eq { state with gets := state.gets.eraseIdx position }
        (.cacheGetResult hash (some ⟨data, hash⟩)) handled (append_nil _).symm]
      refine ⟨_, rfl, ⟨done, kept, .inr ⟨tuple, busy.pending, ?_, busy.tuples⟩⟩, ?_⟩
      · change Waits store _ tuple (state.gets.eraseIdx position ++ []) (state.lookups ++ [])
        rw [lookups, append_nil, append_nil]
        refine .fetching (answered ++ [hash]) _ ?_ all expected ?_ adds
        · apply length_pos_iff.mp
          omega
        · change state.stream.blocksReceived + 1 = _
          rw [received, length_append, length_singleton]
      · simp only [readMeasure, blocksRequested, tuplesRequested,
          filterMap_nil, append_nil, shorter]
        change _ + (state.stream.tupleQueue.map tupleCost).sum + _ + _ < _
        omega

end

theorem ReadInvariant.start (store : Hash → Option Bytes) (tuples : List Tuple) (final : Nat)
    (type : BlockSize) (hasTupleCache hasNetwork loadMode : Bool) :
    ReadInvariant store tuples final
      (.start (readableOffStreamCreateEx ⟨type, 0, final⟩ hasTupleCache
        hasNetwork loadMode) tuples) := by
  refine ⟨[], ⟨rfl, rfl, ?_, rfl, ?_, ?_, ?_⟩, .inl ⟨rfl, rfl, rfl, rfl, rfl⟩⟩
  · exact Nat.zero_mod _
  · rintro pair ⟨⟩
  · simp [contentOf, renderedBytes, Reading.start, readableOffStreamCreateEx]
  · simp [contentOf, Reading.start, readableOffStreamCreateEx]

variable (readable : Readable store cached tuples)
include readable

theorem Readable.cachedValue_eq (rendered : Rendered store tuples final done stream)
    (member : tuple ∈ tuples) {value : Bytes}
    (found : cachedValue (cached ++ tuplesPut stream.sent) tuple position = some value) :
    value = tupleContent store tuple := by
  unfold cachedValue at found
  split at found
  case h_2 => cases found
  case h_1 key put getting =>
    split at found
    case isFalse => cases found
    case isTrue same =>
      cases found
      have hashes : key.hashes = tuple.hashes := by simpa [tupleEquals] using same
      have among := mem_of_getElem? getting
      rcases mem_append.mp among with before | own
      · exact readable.cached (key, value) before tuple member hashes
      · exact rendered.puts (key, value) own tuple member hashes

/-- Every step keeps the invariant and decreases the measure. -/
theorem ReadInvariant.step {next : Reading} (holds : ReadInvariant store tuples final state)
    (label : ReadStep) (stepped : readStep store cached state label = some next) :
    ReadInvariant store tuples final next ∧ readMeasure next < readMeasure state := by
  have advances : Advances store tuples final state (readStep store cached state label) := by
    cases possible_of_readStep stepped with
    | feed remaining =>
      rw [readStep, remaining]
      exact holds.feed readable.some_hash remaining
    | block waiting =>
      rw [readStep, waiting]
      exact holds.block readable waiting
    | miss lookups =>
      rw [readStep, lookups]
      exact holds.miss readable.some_hash lookups
    | @hit tuple rest position value lookups found =>
      obtain ⟨done, rendered, busy, _⟩ := holds.asking lookups
      have member : tuple ∈ tuples := by simp [busy.tuples]
      have right := readable.cachedValue_eq rendered member found
      rw [right] at found
      simp only [readStep, lookups, found]
      exact holds.hit readable.some_hash lookups
  obtain ⟨reached, is_next, kept, less⟩ := advances
  cases is_next.symm.trans stepped
  exact ⟨kept, less⟩

/-- A stream that can make no step has been fed and waits for nothing. -/
theorem ReadInvariant.idle_of_stuck (holds : ReadInvariant store tuples final state)
    (stuck : Stuck (readStep store cached) state) :
    renderedBytes state.stream.sent = (contentOf store tuples).take final := by
  have kept := holds
  obtain ⟨done, rendered, stage⟩ := holds
  rcases stage with idle | ⟨tuple, busy⟩
  · cases remaining : state.remaining with
    | nil =>
      have all : tuples = done := by rw [idle.tuples, remaining, append_nil]
      rw [all]
      exact rendered.bytes
    | cons tuple rest =>
      obtain ⟨next, stepped, _⟩ := kept.feed readable.some_hash remaining
      have feeds := stuck .feed
      rw [readStep, remaining] at feeds
      cases feeds.symm.trans stepped
  · cases gets : state.gets with
    | nil =>
      cases lookups : state.lookups with
      | nil =>
        have waits := busy.waits
        rw [gets, lookups] at waits
        cases waits with
        | fetching answered _ some_left => exact absurd rfl some_left
      | cons asked rest =>
        obtain ⟨next, stepped, _⟩ := kept.miss readable.some_hash lookups
        have replies := stuck (.tupleReply none)
        rw [readStep, lookups] at replies
        cases replies.symm.trans stepped
    | cons hash rest =>
      have waiting : state.gets[0]? = some hash := by rw [gets]; rfl
      obtain ⟨next, stepped, _⟩ := kept.block readable waiting
      have replies := stuck (.blockReply 0)
      rw [readStep, waiting] at replies
      cases replies.symm.trans stepped

/--
Tuples whose blocks are stored are read in a bounded number of steps, to the sums of their blocks.
-/
theorem reading_ends (type : BlockSize) (hasTupleCache hasNetwork loadMode : Bool)
    {steps : List ReadStep} {reached : Reading} (runs : steps.foldlM (readStep store cached)
      (.start (readableOffStreamCreateEx ⟨type, 0, final⟩ hasTupleCache
        hasNetwork loadMode) tuples) = some reached) :
    steps.length ≤ (tuples.map fun tuple => tupleCost tuple + 1).sum ∧
      (Stuck (readStep store cached) reached → renderedBytes reached.stream.sent =
          (contentOf store tuples).take final) := by
  have initial := ReadInvariant.start store tuples final type hasTupleCache hasNetwork loadMode
  have each := eachStep_true (readStep store cached) steps
    (.start (readableOffStreamCreateEx ⟨type, 0, final⟩ hasTupleCache hasNetwork loadMode) tuples)
  constructor
  · exact each.length_le readMeasure (fun state label next holds _ stepped =>
        (holds.step readable label stepped).1)
      (fun state label next holds _ stepped => (holds.step readable label stepped).2) initial runs
  · have holds := each.foldlM (fun state label next holds _ stepped =>
      (ReadInvariant.step readable holds label stepped).1) initial runs
    exact holds.idle_of_stuck readable

end

end Liboffs.OffStreams

import Liboffs.Library.Runs
import Liboffs.OffStreams.ReadableOffStream

/-!
# Reading tuples

A readable OFF stream is fed the tuples of a file while the tuple cache and the block cache
answer, in any order.  The tuple cache may have forgotten a tuple, but its values are those that
were put.

Every run ends.  If the store has every block, the stream has then rendered the sums of the
tuples, in order, up to the last byte of the file.
-/

namespace Liboffs.OffStreams

open BlockCache Library Library.ByteOrder Library.XorBytes List

def renderedBytes (effects : List ReaderEffect) : Bytes :=
  (effects.filterMap fun
    | .notify (.data bytes) => some bytes
    | _ => none).flatten

/-- The blocks that the effects ask the block cache for. -/
def blocksRequested (effects : List ReaderEffect) : List Hash :=
  effects.filterMap fun
    | .blockCacheGet hash => some hash
    | _ => none

/-- The tuples that the effects ask the tuple cache for. -/
def tuplesRequested (effects : List ReaderEffect) : List Tuple :=
  effects.filterMap fun
    | .tupleCacheGet tuple => some tuple
    | _ => none

def tuplesPut (effects : List ReaderEffect) : List (Tuple × Bytes) :=
  effects.filterMap fun
    | .tupleCachePut tuple value => some (tuple, value)
    | _ => none

/-- The blocks that the OFF stream asks the network for. -/
def readerFindsOf (effects : List ReaderEffect) : List Hash :=
  effects.filterMap fun
    | .findBlock hash => some hash
    | _ => none

section
variable (first second : List ReaderEffect)
include first second

@[simp]
theorem renderedBytes_append :
    renderedBytes (first ++ second) = renderedBytes first ++ renderedBytes second := by
  simp [renderedBytes]

@[simp]
theorem blocksRequested_append :
    blocksRequested (first ++ second) = blocksRequested first ++ blocksRequested second :=
  filterMap_append

@[simp]
theorem tuplesRequested_append :
    tuplesRequested (first ++ second) = tuplesRequested first ++ tuplesRequested second :=
  filterMap_append

@[simp]
theorem tuplesPut_append : tuplesPut (first ++ second) = tuplesPut first ++ tuplesPut second :=
  filterMap_append

@[simp]
theorem readerFindsOf_append :
    readerFindsOf (first ++ second) = readerFindsOf first ++ readerFindsOf second :=
  filterMap_append

end

/-- A stream, the tuples for it, and its requests not yet answered. -/
structure Reading where
  stream : ReadableOffStream
  remaining : List Tuple
  gets : List Hash
  lookups : List Tuple

/-- What happens to a stream that reads a file. -/
inductive ReadStep where
  | feed
  | blockReply (position : Nat)
  | tupleReply (source : Option Nat)

/-- A message is handled; the requests it leads to will be answered. -/
def Reading.receive (state : Reading) (message : ReaderMessage) : Option Reading :=
  (readableOffStreamDispatch state.stream message).map fun stream =>
    let new := stream.sent.drop state.stream.sent.length
    { state with
      stream := stream
      gets := state.gets ++ blocksRequested new
      lookups := state.lookups ++ tuplesRequested new }

/-- A value that was put under the hashes of the tuple, by its position. -/
def cachedValue (puts : List (Tuple × Bytes)) (tuple : Tuple) (position : Nat) : Option Bytes :=
  match puts[position]? with
  | some (key, value) => if tupleEquals key tuple then some value else none
  | none => none

/-- One step, over a store and with the given puts in the tuple cache. -/
def readStep (store : Hash → Option Bytes) (cached : List (Tuple × Bytes))
    (state : Reading) : ReadStep → Option Reading
  | .feed =>
    match state.remaining with
    | [] => none
    | tuple :: rest => { state with remaining := rest }.receive (.write tuple)
  | .blockReply position =>
    match state.gets[position]? with
    | none => none
    | some hash =>
      { state with gets := state.gets.eraseIdx position }.receive
        (.cacheGetResult hash ((store hash).map (Block.mk · hash)))
  | .tupleReply source =>
    match state.lookups with
    | [] => none
    | tuple :: rest =>
      match source with
      | none => { state with lookups := rest }.receive (.tupleCacheGetResult none)
      | some position =>
        match cachedValue (cached ++ tuplesPut state.stream.sent) tuple position with
        | none => none
        | some value => { state with lookups := rest }.receive (.tupleCacheGetResult (some value))

/-- The steps that can be taken, by what is open. -/
inductive ReadStep.Possible (cached : List (Tuple × Bytes)) (state : Reading) : ReadStep → Prop
  | feed {tuple : Tuple} {rest : List Tuple} (remaining : state.remaining = tuple :: rest) :
      Possible cached state .feed
  | block {position : Nat} {hash : Hash} (waiting : state.gets[position]? = some hash) :
      Possible cached state (.blockReply position)
  | miss {tuple : Tuple} {rest : List Tuple} (lookups : state.lookups = tuple :: rest) :
      Possible cached state (.tupleReply none)
  | hit {tuple : Tuple} {rest : List Tuple} {position : Nat} {value : Bytes}
      (lookups : state.lookups = tuple :: rest)
      (found : cachedValue (cached ++ tuplesPut state.stream.sent) tuple position = some value) :
      Possible cached state (.tupleReply (some position))

theorem possible_of_readStep (stepped : readStep store cached state label = some new) :
    label.Possible cached state := by
  unfold readStep at stepped
  grind [ReadStep.Possible]

/-- A stream that is about to be fed the tuples. -/
def Reading.start (stream : ReadableOffStream) (tuples : List Tuple) : Reading where
  stream := stream
  remaining := tuples
  gets := []
  lookups := []

def dataOf (store : Hash → Option Bytes) (hash : Hash) : Bytes :=
  (store hash).getD []

/-- The sum of the blocks that a tuple names. -/
def tupleContent (store : Hash → Option Bytes) (tuple : Tuple) : Bytes :=
  xorAll (tuple.hashes.map (dataOf store))

/-- Tuples whose blocks are all in the store. -/
structure Readable (store : Hash → Option Bytes)
    (cached : List (Tuple × Bytes)) (tuples : List Tuple) : Prop where
  some_hash : ∀ tuple ∈ tuples, tuple.hashes ≠ []
  stored : ∀ tuple ∈ tuples, ∀ hash ∈ tuple.hashes, (store hash).isSome = true
  cached : ∀ pair ∈ cached, ∀ tuple ∈ tuples,
    pair.1.hashes = tuple.hashes → pair.2 = tupleContent store tuple

/-- The sum of the blocks that have arrived, if there are any. -/
def sumSoFar (store : Hash → Option Bytes) : List Hash → Option Bytes
  | [] => none
  | hash :: rest => some (xorAll ((hash :: rest).map (dataOf store)))

theorem sumSoFar_append (store : Hash → Option Bytes) (answered : List Hash) (hash : Hash) :
    sumSoFar store (answered ++ [hash]) =
      match sumSoFar store answered with
      | none => some (dataOf store hash)
      | some sum => some (bufferXor sum (dataOf store hash)) := by
  cases answered with
  | nil => simp [sumSoFar, xorAll]
  | cons first rest =>
    change some (xorAll ((first :: rest ++ [hash]).map (dataOf store))) =
      some (bufferXor (xorAll ((first :: rest).map (dataOf store))) (dataOf store hash))
    rw [bufferXor_eq, map_append, map_singleton, xorAll_append_singleton]

/-- Effects that render nothing and put nothing in the tuple cache. -/
structure Requests (effects : List ReaderEffect) : Prop where
  rendered : renderedBytes effects = []
  puts : tuplesPut effects = []

theorem Requests.nil : Requests [] where
  rendered := rfl
  puts := rfl

/-- Effects that ask for nothing. -/
structure AsksNothing (effects : List ReaderEffect) : Prop where
  blocks : blocksRequested effects = []
  tuples : tuplesRequested effects = []

theorem AsksNothing.append (left : AsksNothing first) (right : AsksNothing second) :
    AsksNothing (first ++ second) where
  blocks := by simp [left.blocks, right.blocks]
  tuples := by simp [left.tuples, right.tuples]

/-- Effects that ask nobody, the network included. -/
structure AsksNobody (effects : List ReaderEffect) : Prop extends AsksNothing effects where
  finds : readerFindsOf effects = []

theorem AsksNobody.append (left : AsksNobody first) (right : AsksNobody second) :
    AsksNobody (first ++ second) where
  toAsksNothing := left.toAsksNothing.append right.toAsksNothing
  finds := by simp [left.finds, right.finds]

section
variable (stream : ReadableOffStream)
include stream

theorem exists_closeAtEnd :
    ∃ closed effects, AsksNobody effects ∧ Requests effects ∧ closeAtEnd stream =
        { stream with
          closed := closed
          sent := stream.sent ++ effects } := by
  unfold closeAtEnd
  split
  · exact ⟨_, _, ⟨⟨rfl, rfl⟩, rfl⟩, ⟨rfl, rfl⟩, rfl⟩
  · exact ⟨_, [], ⟨⟨rfl, rfl⟩, rfl⟩, .nil, by rw [append_nil]⟩

/-- What a sum renders, and where the stream is then. -/
theorem exists_renderOriginData :
    ∃ closed effects, AsksNobody effects ∧ tuplesPut effects = [] ∧
      renderedBytes effects = (bufferSlice data (renderStart stream)
        (renderStart stream + renderLength stream data)).getD [] ∧
      renderOriginData stream data =
        { stream with
          closed := closed
          offsetApplied := stream.offsetApplied || decide (0 < stream.offsetRemainder)
          sentBytes := stream.sentBytes + renderLength stream data
          sent := stream.sent ++ effects } := by
  unfold renderOriginData
  dsimp only
  generalize bufferSlice data (renderStart stream)
    (renderStart stream + renderLength stream data) = slice
  cases slice with
  | none =>
    obtain ⟨closed, effects, asks, requests, closes⟩ := exists_closeAtEnd
      { stream with
        offsetApplied := stream.offsetApplied || decide (0 < stream.offsetRemainder)
        sentBytes := stream.sentBytes + renderLength stream data }
    exact ⟨closed, effects, asks, requests.puts, requests.rendered, closes⟩
  | some slice =>
    obtain ⟨closed, effects, asks, requests, closes⟩ := exists_closeAtEnd
      { stream.send [.notify (.data slice)] with
        offsetApplied := stream.offsetApplied || decide (0 < stream.offsetRemainder)
        sentBytes := stream.sentBytes + renderLength stream data }
    refine ⟨closed, [.notify (.data slice)] ++ effects, .append ⟨⟨rfl, rfl⟩, rfl⟩ asks,
      by rw [tuplesPut_append]; exact requests.puts, ?_, ?_⟩
    · rw [renderedBytes_append, requests.rendered]
      simp [renderedBytes]
    · rw [← append_assoc]
      exact closes

theorem renderOriginData_eq (data : Bytes)
    (whole : stream.offsetRemainder = 0) (within : stream.sentBytes ≤ stream.finalByte) :
    ∃ closed applied effects, AsksNothing effects ∧ tuplesPut effects = [] ∧ renderedBytes effects =
        data.take (stream.finalByte - stream.sentBytes) ∧ renderOriginData stream data =
        { stream with
          closed := closed
          offsetApplied := applied
          sentBytes := min stream.finalByte (stream.sentBytes + data.length)
          sent := stream.sent ++ effects } := by
  have start : renderStart stream = 0 := by simp [renderStart, whole]
  have length : renderLength stream data =
      min data.length (stream.finalByte - stream.sentBytes) := by
    rw [renderLength, start]
    split <;> omega
  have slice : bufferSlice data 0 (0 + renderLength stream data) =
      some (data.take (stream.finalByte - stream.sentBytes)) := by
    rw [bufferSlice, length, if_pos (by omega)]
    simp [Nat.min_comm]
  have advanced : stream.sentBytes + renderLength stream data =
      min stream.finalByte (stream.sentBytes + data.length) := by
    rw [length]
    omega
  obtain ⟨closed, effects, asks, puts, bytes, renders⟩ := exists_renderOriginData stream
  rw [start, slice] at bytes
  rw [advanced] at renders
  exact ⟨closed, _, effects, asks.toAsksNothing, puts, bytes, renders⟩

theorem exists_notifyLoadTuple :
    ∃ effects, AsksNobody effects ∧ Requests effects ∧
      notifyLoadTuple stream = stream.send effects := by
  unfold notifyLoadTuple
  split
  · exact ⟨_, ⟨⟨rfl, rfl⟩, rfl⟩, ⟨rfl, rfl⟩, rfl⟩
  · exact ⟨[], ⟨⟨rfl, rfl⟩, rfl⟩, .nil, by rw [ReadableOffStream.send, append_nil]⟩

theorem tallyTupleLoaded_eq :
    ∃ effects, AsksNobody effects ∧ Requests effects ∧ tallyTupleLoaded stream =
        { stream with tuplesLoaded := stream.tuplesLoaded + 1, sent := stream.sent ++ effects } :=
  exists_notifyLoadTuple { stream with tuplesLoaded := stream.tuplesLoaded + 1 }

end

/-- How a stream waits for the blocks of a tuple. -/
inductive Waits (store : Hash → Option Bytes) (stream : ReadableOffStream)
    (tuple : Tuple) : List Hash → List Tuple → Prop
  | asking : Waits store stream tuple [] [tuple]
  | fetching (answered gets : List Hash) (some_left : gets ≠ [])
      (all : (answered ++ gets).Perm tuple.hashes)
      (expected : stream.blocksExpected = tuple.hashes.length)
      (received : stream.blocksReceived = answered.length)
      (sum : stream.xorAccumulator = sumSoFar store answered) : Waits store stream tuple gets []

/-- What follows for a stream that starts on a tuple. -/
structure Starts (store : Hash → Option Bytes) (stream result : ReadableOffStream) (tuple : Tuple)
    (effects : List ReaderEffect) : Prop where
  requests : Requests effects
  finds : readerFindsOf effects = []
  pending : result.pendingTuple = some tuple
  sent : result.sent = stream.sent ++ effects
  queue : result.tupleQueue = stream.tupleQueue
  waits : Waits store result tuple (blocksRequested effects) (tuplesRequested effects)
  fetches : stream.pendingFetches = [] → (blocksRequested effects).Perm result.pendingFetches
  changed : ∃ expected received sum fetches, result =
    { stream with
      pendingTuple := some tuple
      blocksExpected := expected
      blocksReceived := received
      xorAccumulator := sum
      pendingFetches := fetches
      sent := stream.sent ++ effects }

section

theorem blocksRequested_gets (hashes : List Hash) :
    blocksRequested (hashes.map ReaderEffect.blockCacheGet) = hashes := by
  simp [blocksRequested, filterMap_map]

theorem tuplesRequested_gets (hashes : List Hash) :
    tuplesRequested (hashes.map ReaderEffect.blockCacheGet) = [] := by
  simp [tuplesRequested, filterMap_map]

theorem starts_startBlockFetches (store : Hash → Option Bytes)
    (pending : stream.pendingTuple = some tuple) (some_hash : tuple.hashes ≠ []) :
    Starts store stream (startBlockFetches stream tuple) tuple
      (tuple.hashes.map .blockCacheGet) := by
  refine ⟨⟨?_, ?_⟩, ?_, pending, rfl, rfl, ?_, fun _ => ?_, _, _, _, _, by rw [← pending]; rfl⟩
  · simp [renderedBytes, filterMap_map]
  · simp [tuplesPut, filterMap_map]
  · simp [readerFindsOf, filterMap_map]
  · rw [blocksRequested_gets, tuplesRequested_gets]
    exact .fetching [] tuple.hashes some_hash (List.Perm.refl _) rfl rfl rfl
  · rw [blocksRequested_gets]
    exact (reverse_perm _).symm

theorem starts_startTupleCacheLookup (store : Hash → Option Bytes) (stream : ReadableOffStream)
    (some_hash : tuple.hashes ≠ []) :
    ∃ effects, Starts store stream (startTupleCacheLookup stream tuple) tuple effects := by
  unfold startTupleCacheLookup
  split
  · exact ⟨[.tupleCacheGet tuple], ⟨rfl, rfl⟩, rfl, rfl, rfl, rfl, .asking,
      fun none_left => .of_eq none_left.symm, _, _, _, _, rfl⟩
  · have starts : Starts store { stream with pendingTuple := some tuple } _ tuple _ :=
      starts_startBlockFetches store rfl some_hash
    exact ⟨_, { starts with }⟩

end

end Liboffs.OffStreams

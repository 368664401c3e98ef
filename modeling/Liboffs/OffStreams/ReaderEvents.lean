import Liboffs.OffStreams.ReadTuples

/-!
# The events of a readable OFF stream

For each tuple that it has added up the stream sends the bytes, and with the
last byte of the file it finishes, completes and closes.  Everything else that
it sends while the blocks are found is a request.
-/

namespace Liboffs.OffStreams

open BlockCache Library Library.ByteOrder List Option

/-- The events among the effects of the OFF stream. -/
def readerEventsOf (effects : List ReaderEffect) : List (StreamEvent Bytes) :=
  effects.filterMap fun
    | .notify event => some event
    | _ => none

def eventBytes (events : List (StreamEvent Bytes)) : List Bytes :=
  events.filterMap fun
    | .data bytes => some bytes
    | _ => none

@[simp]
theorem readerEventsOf_append :
    readerEventsOf (first ++ second) = readerEventsOf first ++ readerEventsOf second :=
  filterMap_append

/-- The stream has only made requests. -/
structure Quietly (stream next : ReadableOffStream) : Prop where
  effects : ∃ effects, next.sent = stream.sent ++ effects ∧
    readerEventsOf effects = [] ∧ readerFindsOf effects = []
  final : next.finalByte = stream.finalByte
  mode : next.loadMode = stream.loadMode
  position : next.sentBytes = stream.sentBytes
  offset : next.offsetRemainder = stream.offsetRemainder

/-- The events with which a stream ends. -/
def endEvents (stream : ReadableOffStream) : List (StreamEvent Bytes) :=
  if stream.finalByte ≤ stream.sentBytes then
    [.finished, .complete, .close]
  else
    []

/-- The stream has rendered the bytes of a tuple. -/
structure Renders (stream next : ReadableOffStream) : Prop where
  effects : ∃ effects piece, next.sent = stream.sent ++ effects ∧
    readerEventsOf effects = .data piece :: endEvents next ∧ readerFindsOf effects = []
  final : next.finalByte = stream.finalByte
  mode : next.loadMode = stream.loadMode

theorem Quietly.of_same (sent : new.sent = stream.sent) (final : new.finalByte = stream.finalByte)
    (mode : new.loadMode = stream.loadMode) (position : new.sentBytes = stream.sentBytes)
    (offset : new.offsetRemainder = stream.offsetRemainder) : Quietly stream new where
  effects := ⟨[], by rw [sent, append_nil], rfl, rfl⟩
  final := final
  mode := mode
  position := position
  offset := offset

theorem Quietly.trans (before : Quietly first second) (after : Quietly second third) :
    Quietly first third := by
  rcases before.effects with ⟨effects, sent, events, finds⟩
  rcases after.effects with ⟨others, sent', events', finds'⟩
  refine ⟨⟨effects ++ others, ?_, ?_, ?_⟩, after.final.trans before.final,
    after.mode.trans before.mode, after.position.trans before.position,
    after.offset.trans before.offset⟩
  · rw [sent', sent, append_assoc]
  · rw [readerEventsOf_append, events, events', append_nil]
  · rw [readerFindsOf_append, finds, finds', append_nil]

theorem Quietly.renders (before : Quietly first second) (after : Renders second third) :
    Renders first third := by
  rcases before.effects with ⟨effects, sent, events, finds⟩
  rcases after.effects with ⟨others, piece, sent', events', finds'⟩
  refine ⟨⟨effects ++ others, piece, ?_, ?_, ?_⟩,
    after.final.trans before.final, after.mode.trans before.mode⟩
  · rw [sent', sent, append_assoc]
  · rw [readerEventsOf_append, events, events', nil_append]
  · rw [readerFindsOf_append, finds, finds', append_nil]

theorem Renders.quietly (before : Renders first second) (after : Quietly second third) :
    Renders first third := by
  rcases before.effects with ⟨effects, piece, sent, events, finds⟩
  rcases after.effects with ⟨others, sent', events', finds'⟩
  refine ⟨⟨effects ++ others, piece, ?_, ?_, ?_⟩,
    after.final.trans before.final, after.mode.trans before.mode⟩
  · rw [sent', sent, append_assoc]
  · rw [readerEventsOf_append, events, events', append_nil,
      endEvents, endEvents, after.final, after.position]
  · rw [readerFindsOf_append, finds, finds', append_nil]

section
variable (stream : ReadableOffStream)
include stream

theorem quietly_startBlockFetches (tuple : Tuple) :
    Quietly stream (startBlockFetches stream tuple) where
  effects := by
    refine ⟨_, rfl, ?_, ?_⟩
    · simp [readerEventsOf, filterMap_map]
    · simp [readerFindsOf, filterMap_map]
  final := rfl
  mode := rfl
  position := rfl
  offset := rfl

theorem quietly_startTupleCacheLookup (tuple : Tuple) :
    Quietly stream (startTupleCacheLookup stream tuple) := by
  unfold startTupleCacheLookup
  split
  · exact ⟨⟨[.tupleCacheGet tuple], rfl, rfl, rfl⟩, rfl, rfl, rfl, rfl⟩
  · have starts := quietly_startBlockFetches { stream with pendingTuple := some tuple } tuple
    exact { starts with }

theorem quietly_drainTupleQueue : Quietly stream (drainTupleQueue stream) := by
  unfold drainTupleQueue
  split
  · exact .of_same rfl rfl rfl rfl rfl
  · split
    · exact .of_same rfl rfl rfl rfl rfl
    · next tuple rest _ =>
        have starts := quietly_startTupleCacheLookup { stream with tupleQueue := rest } tuple
        exact { starts with }

theorem quietly_tallyTupleLoaded (mode : stream.loadMode = false) :
    Quietly stream (tallyTupleLoaded stream) := by
  unfold tallyTupleLoaded notifyLoadTuple
  rw [if_neg (by simp [mode])]
  exact .of_same rfl rfl rfl rfl rfl

/-- Reading from the front of the file, the bytes of a tuple are rendered. -/
theorem renders_renderOriginData (data : Bytes) (whole : stream.offsetRemainder = 0) :
    Renders stream (renderOriginData stream data) := by
  have start : renderStart stream = 0 := by simp [renderStart, whole]
  have fits : renderLength stream data ≤ data.length := by
    rw [renderLength, start]
    split <;> omega
  have slice : bufferSlice data 0 (0 + renderLength stream data) =
      some (data.take (renderLength stream data)) := by
    rw [bufferSlice, if_pos (by omega)]
    simp
  unfold renderOriginData
  simp only [start, slice]
  unfold closeAtEnd
  split
  case isTrue last =>
    refine ⟨⟨_, data.take (renderLength stream data), append_assoc _ _ _, ?_, rfl⟩, rfl, rfl⟩
    exact congrArg (List.cons _) (if_pos last).symm
  case isFalse more =>
    refine ⟨⟨_, data.take (renderLength stream data), rfl, ?_, rfl⟩, rfl, rfl⟩
    exact congrArg (List.cons _) (if_neg more).symm

end

/-- The stream has made requests, or rendered the bytes of a tuple. -/
def Emits (stream next : ReadableOffStream) : Prop :=
  Quietly stream next ∨ Renders stream next

section
variable {stream next : ReadableOffStream}

theorem emits_write (stream : ReadableOffStream) (tuple : Tuple) :
    Quietly stream (offStreamWrite stream tuple) := by
  unfold offStreamWrite
  split
  · exact .of_same rfl rfl rfl rfl rfl
  · split
    · exact .of_same rfl rfl rfl rfl rfl
    · exact quietly_startTupleCacheLookup stream tuple

theorem emits_tupleCacheGetResult (mode : stream.loadMode = false)
    (whole : stream.offsetRemainder = 0) (value : Option Bytes)
    (handled : readerTupleCacheGetResult stream value = some next) : Emits stream next := by
  cases value with
  | none =>
    rw [readerTupleCacheGetResult] at handled
    split at handled
    · cases handled
      exact .inl (.of_same rfl rfl rfl rfl rfl)
    · rcases map_eq_some_iff.mp handled with ⟨tuple, _, rfl⟩
      exact .inl (quietly_startBlockFetches stream tuple)
  | some data =>
    rw [readerTupleCacheGetResult] at handled
    split at handled
    · cases handled
      exact .inl (.of_same rfl rfl rfl rfl rfl)
    · cases handled
      have tallies := quietly_tallyTupleLoaded stream mode
      have renders := renders_renderOriginData (tallyTupleLoaded stream)
        data (tallies.offset.trans whole)
      have drains := quietly_drainTupleQueue
        { renderOriginData (tallyTupleLoaded stream) data with pendingTuple := none }
      exact .inr (tallies.renders (renders.quietly { drains with }))

/-- A sum that has been put in the cache is rendered. -/
theorem Quietly.finishes (puts : Quietly stream next) (mode : stream.loadMode = false)
    (whole : stream.offsetRemainder = 0) :
    Renders stream (drainTupleQueue
      { renderOriginData (tallyTupleLoaded next) data with
        xorAccumulator := none
        pendingTuple := none
        blocksExpected := 0
        blocksReceived := 0
        pendingFetches := [] }) := by
  have tallies := quietly_tallyTupleLoaded next (puts.mode.trans mode)
  have renders := renders_renderOriginData (tallyTupleLoaded next) data
    ((tallies.offset.trans puts.offset).trans whole)
  have drains := quietly_drainTupleQueue
    { renderOriginData (tallyTupleLoaded next) data with
      xorAccumulator := none
      pendingTuple := none
      blocksExpected := 0
      blocksReceived := 0
      pendingFetches := [] }
  exact (puts.trans tallies).renders (renders.quietly { drains with })

section
variable (mode : stream.loadMode = false) (whole : stream.offsetRemainder = 0)
include mode whole

theorem emits_finishDecodeAndRender (handled : finishDecodeAndRender stream = some next) :
    Emits stream next := by
  unfold finishDecodeAndRender at handled
  split at handled
  · cases handled
    exact .inl (.of_same rfl rfl rfl rfl rfl)
  · next data _ =>
      split at handled
      · rcases bind_eq_some_iff.mp handled with ⟨cached, put, rest⟩
        rcases map_eq_some_iff.mp put with ⟨tuple, _, rfl⟩
        cases rest
        have puts : Quietly stream (stream.send [.tupleCachePut tuple data]) :=
          ⟨⟨[.tupleCachePut tuple data], rfl, rfl, rfl⟩, rfl, rfl, rfl, rfl⟩
        exact .inr (puts.finishes mode whole)
      · cases handled
        have same : Quietly stream stream := .of_same rfl rfl rfl rfl rfl
        exact .inr (same.finishes mode whole)

theorem emits_cacheGetResult (hash : Hash) (block : Block)
    (handled : readerCacheGetResult stream hash (some block) = some next) : Emits stream next := by
  rw [readerCacheGetResult] at handled
  split at handled
  · cases handled
    exact .inl (.of_same rfl rfl rfl rfl rfl)
  · split at handled
    · cases handled
      exact .inl (.of_same rfl rfl rfl rfl rfl)
    · unfold accumulateBlock at handled
      dsimp only at handled
      split at handled
      · rcases emits_finishDecodeAndRender (by exact mode) (by exact whole) handled with
          quiet | renders
        · exact .inl { quiet with }
        · exact .inr { renders with }
      · cases handled
        exact .inl (.of_same rfl rfl rfl rfl rfl)

end

end

theorem ReadInvariant.asked (holds : ReadInvariant store tuples final state)
    (readable : Readable store cached tuples) :
    ∀ hash ∈ state.gets, (store hash).isSome = true := by
  obtain ⟨done, rendered, idle | ⟨tuple, busy⟩⟩ := holds
  · rw [idle.gets]
    simp
  · have member : tuple ∈ tuples := by simp [busy.tuples]
    have waits := busy.waits
    generalize state.gets = gets at waits
    generalize state.lookups = lookups at waits
    cases waits with
    | asking => simp
    | fetching answered gets some_left all =>
      intro hash among
      exact readable.stored tuple member hash (all.subset (mem_append_right _ among))

/-- A step that reads makes requests, or answers one and renders a tuple. -/
theorem emits_readStep (mode : state.stream.loadMode = false)
    (whole : state.stream.offsetRemainder = 0)
    (stored : ∀ hash ∈ state.gets, (store hash).isSome = true)
    (stepped : readStep store cached state label = some new) :
    Quietly state.stream new.stream ∨ (state.gets ≠ [] ∨ state.lookups ≠ []) ∧
        Renders state.stream new.stream := by
  cases possible_of_readStep stepped with
  | @feed tuple rest remaining =>
    rw [readStep, remaining] at stepped
    rcases map_eq_some_iff.mp stepped with ⟨stream, handled, rfl⟩
    cases handled
    exact .inl (emits_write state.stream tuple)
  | @block position hash waiting =>
    rw [readStep, waiting] at stepped
    rcases map_eq_some_iff.mp stepped with ⟨stream, handled, rfl⟩
    rcases isSome_iff_exists.mp (stored hash (mem_of_getElem? waiting)) with ⟨data, found⟩
    rw [found] at handled
    have open_request := ne_nil_of_mem (mem_of_getElem? waiting)
    exact (emits_cacheGetResult mode whole hash ⟨data, hash⟩
      handled).imp_right (And.intro (.inl open_request))
  | miss lookups =>
    rw [readStep, lookups] at stepped
    rcases map_eq_some_iff.mp stepped with ⟨stream, handled, rfl⟩
    exact (emits_tupleCacheGetResult mode whole none
      handled).imp_right (And.intro (.inr (by simp [lookups])))
  | hit lookups found =>
    simp only [readStep, lookups, found] at stepped
    rcases map_eq_some_iff.mp stepped with ⟨stream, handled, rfl⟩
    exact (emits_tupleCacheGetResult mode whole (some _)
      handled).imp_right (And.intro (.inr (by simp [lookups])))

end Liboffs.OffStreams

import Liboffs.ClientApi.GetPipeline

/-!
# A get that finds its blocks

While every block is found, the pipeline of a get goes through the tuples of
the file: the descriptor sends them, the OFF stream renders their bytes, and
both close once.  What the descriptor has not sent yet, what waits for the
subscriber and what waits for the OFF stream are together the tuples that are
still to be read.

Every step uses up some of a budget, so that the pipeline comes to rest, and
then the whole file has been sent.
-/

namespace Liboffs.ClientApi

open BlockCache Library Library.ByteOrder Library.StoreWalks OffStreams List Option GetPipeline
open StreamEvent

def ClosesLast {Data : Type} (events : List (StreamEvent Data)) : Prop :=
  .close ∉ events.dropLast

variable {event : StreamEvent (List Bytes)}
  {waiting : List (StreamEvent (List Bytes))} {handled : List (StreamEvent Data)}

theorem ClosesLast.not_mem {events waiting : List (StreamEvent Data)} {event : StreamEvent Data}
    (last : ClosesLast events) (front : handled ++ event :: waiting <+: events) :
    .close ∉ handled := by
  intro among
  rcases front with ⟨later, rfl⟩
  apply last
  rw [append_assoc, dropLast_append_of_ne_nil (by simp)]
  exact mem_append_left _ among

theorem closesLast_append (none : .close ∉ front) : ClosesLast (front ++ [.close]) := by
  rw [ClosesLast, dropLast_concat]
  exact none

/-- The events of a descriptor that sends the tuples. -/
def descriptorPlan (tuples : List Tuple) : List (StreamEvent (List Bytes)) :=
  (tuples.map tupleKeys).map .data ++ [.complete, .close]

theorem closesLast_descriptorPlan : ClosesLast (descriptorPlan tuples) := by
  have split : descriptorPlan tuples =
      ((tuples.map tupleKeys).map .data ++ [.complete]) ++ [.close] := by
    simp [descriptorPlan]
  rw [split]
  apply closesLast_append
  simp

/-- The next event of a descriptor, from the number of those before it. -/
theorem descriptorPlan_next {tuples : List Tuple} {handled : List (StreamEvent (List Bytes))}
    (front : handled ++ event :: waiting <+: descriptorPlan tuples) :
    (∃ tuple, tuples.drop handled.length = tuple :: tuples.drop (handled.length + 1) ∧
      event = .data (tupleKeys tuple)) ∨
    (tuples.drop handled.length = [] ∧ (event = .complete ∨ event = .close)) := by
  have here : (descriptorPlan tuples)[handled.length]? = some event := by
    rcases front with ⟨later, whole⟩
    rw [← whole]
    simp
  by_cases early : handled.length < tuples.length
  · left
    refine ⟨tuples[handled.length], drop_eq_getElem_cons early, ?_⟩
    rw [descriptorPlan, getElem?_append_left (by simpa using early)] at here
    simpa [early, eq_comm] using here
  · right
    have late := not_lt.mp early
    refine ⟨drop_of_length_le late, ?_⟩
    rw [descriptorPlan, getElem?_append_right (by simpa using late)] at here
    have among := mem_of_getElem? here
    simpa using among

@[simp]
theorem hashOfKey_bytes (hash : Hash) : hashOfKey hash.bytes = some hash := by
  rw [hashOfKey, dif_pos hash.size]

@[simp]
theorem keyStore_bytes (store : Hash → Option Bytes) (hash : Hash) :
    keyStore store hash.bytes = store hash := by
  rw [keyStore, hashOfKey_bytes, bind_some]

theorem mapM_hashOfKey (hashes : List Hash) :
    (hashes.map Hash.bytes).mapM hashOfKey = some hashes := by
  induction hashes with
  | nil => rfl
  | cons hash hashes ih =>
    rw [map_cons, mapM_cons, hashOfKey_bytes, ih]
    rfl

/-- A tuple without room. -/
def fullTuple (hashes : List Hash) : Tuple where
  capacity := hashes.length
  hashes := hashes
  within := le_refl _

theorem capacity_foldl_tuplePush (hashes : List Hash) (tuple : Tuple) :
    (hashes.foldl tuplePush tuple).capacity = tuple.capacity := by
  induction hashes generalizing tuple with
  | nil => rfl
  | cons hash hashes ih =>
    rw [foldl_cons, ih, tuplePush]
    split <;> rfl

theorem tupleOfKeys_tupleKeys (tuple : Tuple) :
    tupleOfKeys (tupleKeys tuple) = some (fullTuple tuple.hashes) := by
  have capacity := capacity_foldl_tuplePush tuple.hashes (tupleCreate (tupleKeys tuple).length)
  have hashes := hashes_foldl_tuplePush tuple.hashes
    (tupleCreate (tupleKeys tuple).length) (by simp [tupleCreate, tupleKeys])
  rw [tupleOfKeys, tupleKeys, mapM_hashOfKey, map_some, ← tupleKeys]
  generalize tuple.hashes.foldl tuplePush
    (tupleCreate (tupleKeys tuple).length) = received at capacity hashes ⊢
  cases received
  simp only [tupleCreate, tupleKeys, length_map, nil_append] at *
  subst hashes capacity
  rfl

variable {state : Reading}

/-- Tuples that come later do not matter for a message. -/
theorem receive_append {next : Reading} {message : ReaderMessage}
    (received : state.receive message = some next) :
    { state with remaining := state.remaining ++ later }.receive message =
      some { next with remaining := next.remaining ++ later } := by
  rcases map_eq_some_iff.mp received with ⟨stream, handled, rfl⟩
  exact map_eq_some_iff.mpr ⟨stream, handled, rfl⟩

variable {label : ReadStep}

/-- Tuples that come later do not matter for a step. -/
theorem readStep_append {store : Hash → Option Bytes} {cached : List (Tuple × Bytes)}
    {next : Reading} (stepped : readStep store cached state label = some next) :
    readStep store cached { state with remaining := state.remaining ++ later } label =
      some { next with remaining := next.remaining ++ later } := by
  cases possible_of_readStep stepped with
  | feed remaining =>
    rw [readStep, remaining] at stepped
    simp only [readStep, remaining]
    exact receive_append stepped
  | block waiting =>
    rw [readStep, waiting] at stepped ⊢
    exact receive_append stepped
  | miss lookups =>
    rw [readStep, lookups] at stepped
    simp only [readStep, lookups]
    exact receive_append stepped
  | hit lookups found =>
    simp only [readStep, lookups, found] at stepped ⊢
    exact receive_append stepped

/-- Tuples that add up to a file, the last one of them not before its end. -/
structure Servable (store : Hash → Option Bytes)
    (cached : List (Tuple × Bytes)) (tuples : List Tuple) (file : Bytes) : Prop where
  readable : Readable store cached tuples
  full : ∀ tuple ∈ tuples, fullTuple tuple.hashes = tuple
  unfinished : ∀ done tuple later, tuples = done ++ tuple :: later →
    (contentOf store done).length < file.length
  content : (contentOf store tuples).take file.length = file

/-- The descriptor is about to be started, or makes its way. -/
inductive DescriptorServes (store : Bytes → Option Bytes)
    (plan : List (StreamEvent (List Bytes))) (rounds : Nat) (get : GetPipeline) : Prop
  | waiting (pushes : get.pushes = 1) (gets : get.descriptorGets = [])
      (fresh : get.descriptor.sent = [])
      (progress : Progress store plan rounds ⟨descriptorPush get.descriptor, 0⟩)
  | running (answered : Nat) (pushes : get.pushes = 0)
      (gets : get.descriptorGets = unanswered descriptorRequests ⟨get.descriptor, answered⟩)
      (progress : Progress store plan rounds ⟨get.descriptor, answered⟩)

/-- Only the descriptor and its messages matter for that. -/
theorem DescriptorServes.same {store : Bytes → Option Bytes}
    {plan : List (StreamEvent (List Bytes))} {rounds : Nat} {get next : GetPipeline}
    (serves : DescriptorServes store plan rounds get) (pushes : next.pushes = get.pushes)
    (gets : next.descriptorGets = get.descriptorGets) (same : next.descriptor = get.descriptor) :
    DescriptorServes store plan rounds next := by
  cases serves with
  | waiting one none => exact .waiting (pushes ▸ one) (gets ▸ none) (by rwa [same]) (by rwa [same])
  | running answered none =>
    exact .running answered (pushes ▸ none) (by rwa [gets, same]) (by rwa [same])

/-- The OFF stream with all the tuples that will be sent to it. -/
def ahead (tuples : List Tuple) (get : GetPipeline) : Reading :=
  { get.reading with
    remaining := get.reading.remaining ++ tuples.drop get.descriptorHandled.length }

/-- The frame that the subscriber sends for an event. -/
def replyTo : StreamEvent Bytes → Option GetFrame
  | .data bytes => some (.data bytes)
  | .close => some .getEnd
  | _ => none

/-- What holds of a pipeline whose blocks are all found. -/
structure Serving (store : Hash → Option Bytes) (tuples : List Tuple)
    (file : Bytes) (rounds : Nat) (get : GetPipeline) : Prop where
  intact : get.corrupted = false
  descriptor : DescriptorServes (keyStore store) (descriptorPlan tuples) rounds get
  noDescriptorFinds : get.descriptorFinds = []
  descriptorEvents : get.descriptorHandled ++ get.descriptorEvents = tupleEvents get.descriptor.sent
  reading : ReadInvariant store tuples file.length (ahead tuples get)
  mode : get.reading.stream.loadMode = false
  noReaderFinds : get.readerFinds = []
  readerEvents : get.readerHandled ++ get.readerEvents = readerEventsOf get.reading.stream.sent
  pieces : ∃ pieces : List Bytes, readerEventsOf get.reading.stream.sent =
    pieces.map .data ++ endEvents get.reading.stream
  replies : get.sent = startFrame file.length :: get.readerHandled.filterMap replyTo
  references : get.references =
    (if .close ∈ get.readerHandled then 0 else 1) + if .close ∈ get.descriptorHandled then 0 else 1
  freed : get.freed = if get.references = 0 then 1 else 0

/-- A bound on the steps that are still to come. -/
def servingCost (tuples : List Tuple) (rounds : Nat) (get : GetPipeline) : Nat :=
  rounds + get.pushes + ((descriptorPlan tuples).length - get.descriptorHandled.length) +
    5 * readMeasure (ahead tuples get) + get.readerEvents.length

/-- A pipeline that goes on, with less to do than the bound. -/
def Goes (store : Hash → Option Bytes) (tuples : List Tuple) (file : Bytes)
    (bound : Nat) (get : GetPipeline) : Prop :=
  ∃ rounds, Serving store tuples file rounds get ∧ servingCost tuples rounds get < bound

variable {next : ReadableDescriptor} {effects : List ReaderEffect}

section
variable {store : Hash → Option Bytes} {cached : List (Tuple × Bytes)}
  {tuples : List Tuple} {file : Bytes} {rounds : Nat} {get : GetPipeline}

namespace Serving

section
variable (serving : Serving store tuples file rounds get)
include serving

/-- The events of the descriptor are the first ones of its plan. -/
theorem plan : get.descriptorHandled ++ get.descriptorEvents <+: descriptorPlan tuples := by
  rw [serving.descriptorEvents]
  cases serving.descriptor with
  | waiting pushes gets fresh progress =>
    rw [fresh]
    exact nil_prefix
  | running answered pushes gets progress => exact progress.isPrefix

theorem closesLast : ClosesLast (readerEventsOf get.reading.stream.sent) := by
  rcases serving.pieces with ⟨pieces, events⟩
  rw [events, endEvents]
  split
  · have split : pieces.map data ++ [.finished, .complete, .close] =
        (pieces.map .data ++ [.finished, .complete]) ++ [.close] := by
      simp
    rw [split]
    apply closesLast_append
    simp
  · intro among
    simpa using dropLast_subset _ among

theorem descriptor_open (events : get.descriptorEvents = event :: waiting) :
    .close ∉ get.descriptorHandled ∧ get.freed = 0 := by
  have front := serving.plan
  rw [events] at front
  have running := closesLast_descriptorPlan.not_mem front
  refine ⟨running, ?_⟩
  rw [serving.freed, serving.references, if_neg running, if_neg (by simp)]

theorem reader_open {event : StreamEvent Bytes} {waiting : List (StreamEvent Bytes)}
    (events : get.readerEvents = event :: waiting) :
    .close ∉ get.readerHandled ∧ get.freed = 0 := by
  have front : get.readerHandled ++ event :: waiting <+: readerEventsOf get.reading.stream.sent :=
    ⟨[], by rw [append_nil, ← serving.readerEvents, events]⟩
  have running := serving.closesLast.not_mem front
  refine ⟨running, ?_⟩
  rw [serving.freed, serving.references, if_neg running, if_neg (by omega)]

end

end Serving

theorem count_references [DecidableEq Data] {event : StreamEvent Data}
    (running : .close ∉ handled) :
    (if .close ∈ handled ++ [event] then 0 else 1) =
      (1 : Nat) - if event = .close then 1 else 0 := by
  by_cases closes : event = .close
  · simp [closes]
  · simp [running, closes, Ne.symm closes]

theorem updateDescriptor_eq (get : GetPipeline)
    (sent : next.sent = get.descriptor.sent ++ (events.map .notify ++ fetches.map .blockCacheGet)) :
    get.updateDescriptor next =
      { get with
        descriptor := next
        descriptorGets := get.descriptorGets ++ fetches
        descriptorEvents := get.descriptorEvents ++ events } := by
  have new : next.sent.drop get.descriptor.sent.length =
      events.map .notify ++ fetches.map .blockCacheGet := by
    rw [sent, drop_left]
  rw [updateDescriptor, new]
  simp [requestedHashes, tupleEvents, descriptorFindsOf, filterMap_append, filterMap_map]

section
variable (serving : Serving store tuples file rounds get)
include serving

/-- The descriptor of a pipeline goes on. -/
theorem Serving.update {left answered : Nat} (asks : AsksOnce get.descriptor next)
    (progress : Progress (keyStore store) (descriptorPlan tuples) left ⟨next, answered⟩)
    (open_requests : (descriptorRequests get.descriptor).length = answered)
    (less : left < rounds + get.pushes) :
    Goes store tuples file (servingCost tuples rounds get)
      ({ get with pushes := 0, descriptorGets := [] }.updateDescriptor next) := by
  rcases asks with ⟨events, fetches, sent, _⟩
  rw [updateDescriptor_eq { get with pushes := 0, descriptorGets := [] } sent]
  refine ⟨left, { serving with
      descriptor := .running answered rfl ?_ progress
      descriptorEvents := ?_ }, ?_⟩
  · rw [unanswered, descriptorRequests, sent, requestedHashes,
      filterMap_append, ← requestedHashes, ← open_requests, descriptorRequests, drop_left]
    simp [filterMap_map]
  · rw [← append_assoc, serving.descriptorEvents, sent, tupleEvents, tupleEvents, filterMap_append]
    simp [filterMap_map]
  · change left + 0 + ((descriptorPlan tuples).length - get.descriptorHandled.length) +
      5 * readMeasure (ahead tuples get) + get.readerEvents.length < _
    rw [servingCost]
    omega

theorem Serving.push (pushes : get.pushes ≠ 0) :
    Goes store tuples file (servingCost tuples rounds get)
      ({ get with pushes := get.pushes - 1 }.descriptorReceive .push) := by
  cases serving.descriptor with
  | running answered none gets progress => exact absurd none pushes
  | waiting one gets fresh progress =>
    have asks : AsksOnce get.descriptor (descriptorPush get.descriptor) := by
      unfold descriptorPush
      split
      · exact (Notifies.of_eq rfl).asksOnce
      · split
        · exact ⟨[.error ""], [], rfl, Nat.zero_le 1⟩
        · next hash _ => exact ⟨[], [hash], rfl, le_refl 1⟩
    have goes := serving.update asks progress (by rw [descriptorRequests, fresh]; rfl) (by omega)
    have same : { get with pushes := get.pushes - 1 } =
        { get with pushes := 0, descriptorGets := [] } := by
      rw [one, gets]
    rw [same]
    exact goes

theorem Serving.descriptorReply {position : Nat}
    {hash : Bytes} (asked : get.descriptorGets[position]? = some hash) :
    Goes store tuples file (servingCost tuples rounds get) ({ get with
          descriptorGets := get.descriptorGets.eraseIdx position
        }.descriptorReceive
        (.cacheGetResult hash (keyStore store hash))) := by
  cases serving.descriptor with
  | waiting one gets fresh progress =>
    rw [gets] at asked
    cases asked
  | running answered none gets progress =>
    cases progress with
    | ended empty sent =>
      rw [gets, empty] at asked
      cases asked
    | @asking left _ link data next single stored read later =>
      rw [gets, single] at asked
      cases position with
      | succ position => cases asked
      | zero =>
        cases asked
        have length : (descriptorRequests get.descriptor).length = answered + 1 := by
          have counted := congrArg List.length single
          rw [unanswered, length_drop] at counted
          change (descriptorRequests get.descriptor).length - answered = 1 at counted
          omega
        have goes := serving.update (asksOnce_descriptorGetResult read) later length (by omega)
        rw [descriptorReceive]
        simp only [readableDescriptorDispatch, stored]
        rw [read]
        simp only [gets, single, eraseIdx_cons_zero]
        have same : { get with descriptorGets := [] } =
            { get with pushes := 0, descriptorGets := [] } := by
          rw [none]
        rw [same]
        exact goes

/-- An event of the descriptor that is not its end. -/
theorem Serving.descriptorPasses (events : get.descriptorEvents = event :: waiting)
    (goes_on : event ≠ .close) (remaining : List Tuple) (same : remaining ++ tuples.drop (get.descriptorHandled.length + 1) =
      get.reading.remaining ++ tuples.drop get.descriptorHandled.length) :
    Goes store tuples file (servingCost tuples rounds get) { get with
        descriptorEvents := waiting
        descriptorHandled := get.descriptorHandled ++ [event]
        reading := { get.reading with remaining := remaining } } := by
  have running := (serving.descriptor_open events).1
  have front := serving.plan
  rw [events] at front
  have bound := front.length_le
  rw [length_append, length_cons] at bound
  have kept : ahead tuples
      { get with
        descriptorEvents := waiting
        descriptorHandled := get.descriptorHandled ++ [event]
        reading := { get.reading with remaining := remaining } } =
      ahead tuples get := by
    simp [ahead, same]
  refine ⟨rounds, { serving with
      descriptor := serving.descriptor.same rfl rfl rfl
      descriptorEvents := ?_
      reading := ?_
      references := ?_ }, ?_⟩
  · rw [← serving.descriptorEvents, events]
    simp
  · rw [kept]
    exact serving.reading
  · rw [serving.references, count_references running, if_neg running, if_neg goes_on]
  · rw [servingCost, kept, servingCost, length_append, length_singleton]
    change rounds + get.pushes + _ + _ + get.readerEvents.length < _
    omega

theorem Serving.descriptorCloses (events : get.descriptorEvents = .close :: waiting)
    (last : tuples.drop get.descriptorHandled.length = []) :
    Goes store tuples file (servingCost tuples rounds get) ({ get with
          descriptorEvents := waiting
          descriptorHandled := get.descriptorHandled ++ [close] }.dropReference) := by
  have opened := serving.descriptor_open events
  have front := serving.plan
  rw [events] at front
  have bound := front.length_le
  rw [length_append, length_cons] at bound
  have past : tuples.drop (get.descriptorHandled.length + 1) = [] := by
    rw [drop_eq_nil_iff] at last ⊢
    omega
  have kept : ahead tuples
      ({ get with
          descriptorEvents := waiting
          descriptorHandled := get.descriptorHandled ++ [close] }.dropReference) =
      ahead tuples get := by
    simp [ahead, dropReference, last, past]
  have count := serving.references
  rw [if_neg opened.1] at count
  refine ⟨rounds, { serving with
      descriptor := serving.descriptor.same rfl rfl rfl
      descriptorEvents := ?_
      reading := ?_
      references := ?_
      freed := ?_ }, ?_⟩
  · change get.descriptorHandled ++ [.close] ++ waiting = tupleEvents get.descriptor.sent
    rw [← serving.descriptorEvents, events]
    simp
  · rw [kept]
    exact serving.reading
  · change get.references - 1 = _ +
      if .close ∈ get.descriptorHandled ++ [.close] then 0 else 1
    rw [count_references opened.1, if_pos rfl, count]
    rfl
  · change (if get.references - 1 = 0 then get.freed + 1 else get.freed) =
      if get.references - 1 = 0 then 1 else 0
    rw [opened.2]
  · rw [servingCost, kept, servingCost]
    change rounds + get.pushes + (_ - (get.descriptorHandled ++ [_]).length) +
      _ + get.readerEvents.length < _
    rw [length_append, length_singleton]
    omega

end

theorem Serving.descriptorEvent (servable : Servable store cached tuples file)
    (serving : Serving store tuples file rounds get)
    (events : get.descriptorEvents = event :: waiting) :
    Goes store tuples file (servingCost tuples rounds get) ({ get with
          descriptorEvents := waiting
          descriptorHandled := get.descriptorHandled ++ [event]
        }.onDescriptorEvent event) := by
  have opened := (serving.descriptor_open events).2
  have front := serving.plan
  rw [events] at front
  rcases descriptorPlan_next front with ⟨tuple, next, rfl⟩ | ⟨last, rfl | rfl⟩
  · have member : tuple ∈ tuples := by
      apply drop_subset get.descriptorHandled.length
      rw [next]
      exact mem_cons_self
    have goes := serving.descriptorPasses events (by simp) (get.reading.remaining ++ [tuple]) (by
        rw [next, append_assoc]
        rfl)
    rw [onDescriptorEvent, guarded, if_pos opened,
      onTuple, tupleOfKeys_tupleKeys, servable.full tuple member]
    exact goes
  · have past : tuples.drop (get.descriptorHandled.length + 1) = [] := by
      rw [drop_eq_nil_iff] at last ⊢
      omega
    exact serving.descriptorPasses events (by simp) get.reading.remaining (by rw [last, past])
  · rw [onDescriptorEvent, guarded, if_pos opened]
    exact serving.descriptorCloses events last

variable {reading : Reading}

/-- The OFF stream of a pipeline goes on. -/
theorem Serving.readOn (serving : Serving store tuples file rounds get)
    (sent : reading.stream.sent = get.reading.stream.sent ++ effects)
    (finds : readerFindsOf effects = []) (few : (readerEventsOf effects).length ≤ 4)
    (kept : ReadInvariant store tuples file.length
      { reading with
        remaining := reading.remaining ++
          tuples.drop get.descriptorHandled.length }) (less : readMeasure
      { reading with
        remaining := reading.remaining ++ tuples.drop get.descriptorHandled.length } <
      readMeasure (ahead tuples get)) (mode : reading.stream.loadMode = get.reading.stream.loadMode)
    (pieces : ∃ pieces : List Bytes, readerEventsOf reading.stream.sent =
      pieces.map .data ++ endEvents reading.stream) :
    Goes store tuples file (servingCost tuples rounds get) (get.updateReading reading) := by
  rw [updateReading, sent, drop_left, finds, append_nil]
  refine ⟨rounds, { serving with
      descriptor := serving.descriptor.same rfl rfl rfl
      reading := kept
      mode := mode.trans serving.mode
      readerEvents := ?_
      pieces := pieces }, ?_⟩
  · rw [sent, readerEventsOf_append, ← serving.readerEvents, append_assoc]
  · change rounds + get.pushes + (_ - get.descriptorHandled.length) + 5 * readMeasure _ +
      (get.readerEvents ++ readerEventsOf effects).length < _
    rw [servingCost, length_append]
    change rounds + get.pushes + (_ - get.descriptorHandled.length) +
      5 * readMeasure { reading with
        remaining := reading.remaining ++ tuples.drop get.descriptorHandled.length } + _ < _
    omega

theorem Serving.read (servable : Servable store cached tuples file)
    (serving : Serving store tuples file rounds get)
    (stepped : readStep store cached get.reading label = some reading) :
    Goes store tuples file (servingCost tuples rounds get) (get.updateReading reading) := by
  obtain ⟨kept, less⟩ := serving.reading.step servable.readable label
    (readStep_append stepped)
  have stored := serving.reading.asked servable.readable
  obtain ⟨done, rendered, stage⟩ := serving.reading
  rcases serving.pieces with ⟨pieces, shown⟩
  rcases emits_readStep serving.mode rendered.offset stored stepped with
    quiet | ⟨asked, renders⟩
  · rcases quiet.effects with ⟨effects, sent, events, finds⟩
    apply serving.readOn sent finds (by simp [events]) kept less quiet.mode
    refine ⟨pieces, ?_⟩
    rw [sent, readerEventsOf_append, events, append_nil, shown,
      endEvents, endEvents, quiet.final, quiet.position]
  · rcases renders.effects with ⟨effects, piece, sent, events, finds⟩
    have few : (readerEventsOf effects).length ≤ 4 := by
      rw [events, endEvents]
      split <;> simp
    have running : endEvents get.reading.stream = [] := by
      rcases stage with idle | ⟨tuple, busy⟩
      · rcases asked with gets | lookups
        · exact absurd idle.gets gets
        · exact absurd idle.lookups lookups
      · have short := servable.unfinished done tuple _ busy.tuples
        have position := rendered.position
        have last := rendered.last
        change get.reading.stream.sentBytes = _ at position
        change get.reading.stream.finalByte = _ at last
        rw [endEvents, if_neg (by omega)]
    apply serving.readOn sent finds few kept less renders.mode
    refine ⟨pieces ++ [piece], ?_⟩
    rw [sent, readerEventsOf_append, events, shown, running, map_append]
    simp

section
variable (serving : Serving store tuples file rounds get)
include serving

/-- An event of the OFF stream that is not its end. -/
theorem Serving.readerPasses {event : StreamEvent Bytes} {waiting : List (StreamEvent Bytes)}
    (events : get.readerEvents = event :: waiting) (goes_on : event ≠ .close) (sent : List GetFrame)
    (replied : sent = get.sent ++ [event].filterMap replyTo) :
    Goes store tuples file (servingCost tuples rounds get) { get with
        readerEvents := waiting
        readerHandled := get.readerHandled ++ [event]
        sent := sent } := by
  have running := (serving.reader_open events).1
  refine ⟨rounds, { serving with
      descriptor := serving.descriptor.same rfl rfl rfl
      readerEvents := ?_
      replies := ?_
      references := ?_ }, ?_⟩
  · rw [← serving.readerEvents, events]
    simp
  · rw [replied, serving.replies, filterMap_append]
    rfl
  · rw [serving.references, count_references running, if_neg running, if_neg goes_on]
  · rw [servingCost, servingCost, events]
    change _ + _ + _ + 5 * readMeasure (ahead tuples get) + _ < _
    simp

theorem Serving.readerCloses {waiting : List (StreamEvent Bytes)}
    (events : get.readerEvents = .close :: waiting) :
    Goes store tuples file (servingCost tuples rounds get) ({ get with
          readerEvents := waiting
          readerHandled := get.readerHandled ++ [close]
        }.onReaderClose) := by
  have opened := serving.reader_open events
  have count := serving.references
  rw [if_neg opened.1] at count
  refine ⟨rounds, { serving with
      descriptor := serving.descriptor.same rfl rfl rfl
      readerEvents := ?_
      replies := ?_
      references := ?_
      freed := ?_ }, ?_⟩
  · change get.readerHandled ++ [.close] ++ waiting = readerEventsOf get.reading.stream.sent
    rw [← serving.readerEvents, events]
    simp
  · change get.sent ++ [.getEnd] = startFrame file.length ::
      (get.readerHandled ++ [close]).filterMap replyTo
    rw [serving.replies, filterMap_append]
    rfl
  · change get.references - 1 = (if .close ∈ get.readerHandled ++ [.close] then 0 else 1) +
        if .close ∈ get.descriptorHandled then 0 else 1
    rw [count_references opened.1, if_pos rfl, count]
    omega
  · change (if get.references - 1 = 0 then get.freed + 1 else get.freed) =
      if get.references - 1 = 0 then 1 else 0
    rw [opened.2]
  · rw [servingCost, servingCost, events]
    change rounds + get.pushes + (_ - get.descriptorHandled.length) +
      5 * readMeasure (ahead tuples get) + waiting.length < _
    rw [length_cons]
    omega

theorem Serving.readerEvent {event : StreamEvent Bytes} {waiting : List (StreamEvent Bytes)}
    (events : get.readerEvents = event :: waiting) :
    Goes store tuples file (servingCost tuples rounds get) ({ get with
          readerEvents := waiting
          readerHandled := get.readerHandled ++ [event]
        }.onReaderEvent event) := by
  have opened := (serving.reader_open events).2
  rcases serving.pieces with ⟨pieces, shown⟩
  have among : event ∈ pieces.map .data ++ endEvents get.reading.stream := by
    rw [← shown, ← serving.readerEvents, events]
    simp
  rcases mem_append.mp among with data | ends
  · rcases mem_map.mp data with ⟨bytes, _, rfl⟩
    rw [onReaderEvent, guarded, if_pos opened]
    exact serving.readerPasses events (by simp) _ rfl
  · rw [endEvents] at ends
    split at ends
    · rcases mem_cons.mp ends with rfl | ends
      · exact serving.readerPasses events (by simp) _ (append_nil _).symm
      · rcases mem_cons.mp ends with rfl | ends
        · exact serving.readerPasses events (by simp) _ (append_nil _).symm
        · cases mem_singleton.mp ends
          rw [onReaderEvent, guarded, if_pos opened]
          exact serving.readerCloses events
    · cases ends

end

theorem Serving.step (servable : Servable store cached tuples file)
    (serving : Serving store tuples file rounds get) {next : GetPipeline} (label : PipelineStep)
    (stepped : pipelineStep store cached get label = some next) :
    Goes store tuples file (servingCost tuples rounds get) next := by
  cases label with
  | push =>
    rw [pipelineStep] at stepped
    split at stepped
    · cases stepped
    · cases stepped
      exact serving.push (by assumption)
  | descriptorReply position =>
    cases asked : get.descriptorGets[position]? with
    | none =>
      rw [pipelineStep, asked] at stepped
      cases stepped
    | some hash =>
      rw [pipelineStep, asked] at stepped
      cases stepped
      exact serving.descriptorReply asked
  | descriptorFind position found block =>
    rw [pipelineStep, serving.noDescriptorFinds] at stepped
    cases stepped
  | descriptorEvent =>
    cases events : get.descriptorEvents with
    | nil =>
      rw [pipelineStep, events] at stepped
      cases stepped
    | cons event waiting =>
      rw [pipelineStep, events] at stepped
      cases stepped
      exact serving.descriptorEvent servable events
  | read label =>
    rcases map_eq_some_iff.mp stepped with ⟨reading, read, rfl⟩
    exact serving.read servable read
  | readerFind position found block =>
    rw [pipelineStep, serving.noReaderFinds] at stepped
    cases stepped
  | readerEvent =>
    cases events : get.readerEvents with
    | nil =>
      rw [pipelineStep, events] at stepped
      cases stepped
    | cons event waiting =>
      rw [pipelineStep, events] at stepped
      cases stepped
      exact serving.readerEvent events

end

end Liboffs.ClientApi

import Liboffs.ClientApi.GetServing

/-!
# What the gets of a connection deliver

A get whose file is stored in standard blocks and tuples of three, all of them in the cache,
delivers the file, for every order of the events and for one get after the other.

The conditions are needed: errors and closes send frames of their own, a range is not looked at,
the context of a get through a directory is freed with the first stream, and frames do not name
their get.
-/

namespace Liboffs.ClientApi

open List

open BlockCache Library Library.ByteOrder Library.Pages OffStreams

section
variable {store : Hash → Option Bytes} {cached : List (Tuple × Bytes)}
  {tuples : List Tuple} {file : Bytes} {rounds : Nat} {get : GetPipeline}

theorem renderedBytes_isPrefix (holds : ReadInvariant store tuples final state) :
    renderedBytes state.stream.sent <+: (contentOf store tuples).take final ∧
      (renderedBytes state.stream.sent).length = state.stream.sentBytes ∧
      state.stream.finalByte = final := by
  obtain ⟨done, rendered, stage⟩ := holds
  have front : done <+: tuples := by
    rcases stage with idle | ⟨tuple, busy⟩
    · rw [idle.tuples]
      exact prefix_append _ _
    · rw [busy.tuples]
      exact prefix_append _ _
  refine ⟨?_, ?_, rendered.last⟩
  · rw [rendered.bytes]
    rcases front with ⟨later, rfl⟩
    rw [contentOf, contentOf, map_append, flatten_append]
    exact List.IsPrefix.take (prefix_append _ _) final
  · rw [rendered.bytes, length_take, rendered.position]

/-- The frames for events that have been handled. -/
theorem replies_of_handled
    (front : handled <+: pieces.map .data ++ bif last then [.finished, .complete, .close] else []) :
    ∃ shown ends, handled.filterMap replyTo = shown.map .data ++ ends ∧ shown <+: pieces ∧
      (.close ∉ handled ∧ ends = [] ∨ .close ∈ handled ∧ ends = [.getEnd] ∧ shown = pieces ∧
          last = true) := by
  have data : ∀ shown : List Bytes, (shown.map StreamEvent.data).filterMap replyTo =
        shown.map GetFrame.data := by
    intro shown
    rw [filterMap_map, ← filterMap_eq_map]
    rfl
  rcases prefix_or_prefix_of_prefix front (prefix_append _ _) with
    within | ⟨rest, rfl⟩
  · rw [prefix_iff_eq_take, ← map_take] at within
    generalize handled.length = count at within
    rw [within, data]
    refine ⟨pieces.take count, [], (append_nil _).symm, take_prefix _ _, .inl ⟨?_, rfl⟩⟩
    intro among
    rcases mem_map.mp among with ⟨piece, _, data⟩
    cases data
  · rw [prefix_append_right_inj] at front
    have none : ∀ event, event ∈ pieces.map StreamEvent.data → event ≠ .close := by
      intro event among
      rcases mem_map.mp among with ⟨piece, _, rfl⟩
      simp
    cases last with
    | false =>
      cases prefix_nil.mp front
      refine ⟨pieces, [], ?_, prefix_refl _, .inl ⟨?_, rfl⟩⟩
      · rw [append_nil, data, append_nil]
      · rw [append_nil]
        exact fun among => none _ among rfl
    | true =>
      have listed := (mem_inits _ _).mpr front
      simp only [cond_true, List.inits, map_cons, map_nil,
        mem_cons, not_mem_nil, or_false] at listed
      rw [filterMap_append, data]
      rcases listed with rfl | rfl | rfl | rfl
      · refine ⟨pieces, [], rfl, prefix_refl _, .inl ⟨?_, rfl⟩⟩
        simp
      · refine ⟨pieces, [], rfl, prefix_refl _, .inl ⟨?_, rfl⟩⟩
        simp
      · refine ⟨pieces, [], rfl, prefix_refl _, .inl ⟨?_, rfl⟩⟩
        simp
      · refine ⟨pieces, [.getEnd], rfl, prefix_refl _, .inr ⟨?_, rfl, rfl, rfl⟩⟩
        simp

/-- The client sees the announcement, some first bytes and perhaps the end. -/
theorem Serving.answers (servable : Servable store cached tuples file)
    (serving : Serving store tuples file rounds get) :
    ∃ pieces ends, Answers file get.sent (startFrame file.length) pieces ends ∧
      (.close ∈ get.readerHandled → ends = [.getEnd]) := by
  rcases serving.pieces with ⟨pieces, events⟩
  obtain ⟨front, length, final⟩ := renderedBytes_isPrefix serving.reading
  have flat : renderedBytes get.reading.stream.sent = pieces.flatten := by
    have same : renderedBytes get.reading.stream.sent =
        (eventBytes (readerEventsOf get.reading.stream.sent)).flatten := by
      rw [renderedBytes, eventBytes, readerEventsOf, filterMap_filterMap]
      congr 2
      funext effect
      cases effect with
      | notify event => cases event <;> rfl
      | blockCacheGet | tupleCacheGet | tupleCachePut | findBlock => rfl
    rw [same, events, eventBytes, filterMap_append, endEvents]
    split <;> simp [filterMap_map]
  have handled : get.readerHandled <+: pieces.map .data ++
      bif decide (get.reading.stream.finalByte ≤ get.reading.stream.sentBytes)
      then [.finished, .complete, .close] else [] := by
    have whole : get.readerHandled <+: pieces.map .data ++ endEvents get.reading.stream := by
      rw [← events, ← serving.readerEvents]
      exact prefix_append _ _
    rw [Bool.cond_decide]
    exact whole
  change renderedBytes get.reading.stream.sent <+: _ at front
  rw [servable.content, flat] at front
  change (renderedBytes get.reading.stream.sent).length = get.reading.stream.sentBytes at length
  change get.reading.stream.finalByte = _ at final
  rw [flat] at length
  obtain ⟨shown, ends, replies, begins, stage⟩ := replies_of_handled handled
  have shape : get.sent = startFrame file.length :: shown.map .data ++ ends := by
    rw [serving.replies, replies]
    rfl
  rcases begins with ⟨later, rfl⟩
  rw [flatten_append] at front length
  rcases stage with ⟨open_, rfl⟩ | ⟨closed, rfl, same, last⟩
  · refine ⟨shown, [], ⟨shape, ?_, .inl rfl⟩, fun closed =>
      absurd closed open_⟩
    exact (prefix_append _ _).trans front
  · have all : later = [] := by simpa using same
    subst all
    rw [flatten_nil, append_nil] at front length
    have whole : shown.flatten = file := by
      apply front.eq_of_length_le
      rw [length]
      simpa [final] using last
    exact ⟨shown, [.getEnd], ⟨shape, front, .inr (.inl ⟨rfl, whole⟩)⟩, fun _ => rfl⟩

/-- A context is freed with the second of the two streams. -/
theorem Serving.freedAtEnd (serving : Serving store tuples file rounds get) : FreedAtEnd get where
  intact := serving.intact
  freed := by
    rw [serving.freed, serving.references]
    by_cases reader : .close ∈ get.readerHandled
    · by_cases descriptor : .close ∈ get.descriptorHandled
      · simp [reader, descriptor]
      · simp [reader, descriptor]
    · simp [reader]

/-- A pipeline in which nothing moves has come to its end. -/
theorem Serving.ends (servable : Servable store cached tuples file)
    (serving : Serving store tuples file rounds get)
    (still : ∀ label, pipelineStep store cached get label = none) :
    .close ∈ get.readerHandled ∧ .close ∈ get.descriptorHandled := by
  have descriptorDone : get.descriptorEvents = [] := by
    cases events : get.descriptorEvents with
    | nil => rfl
    | cons event waiting =>
      have moves := still .descriptorEvent
      rw [pipelineStep, events] at moves
      cases moves
  have readerDone : get.readerEvents = [] := by
    cases events : get.readerEvents with
    | nil => rfl
    | cons event waiting =>
      have moves := still .readerEvent
      rw [pipelineStep, events] at moves
      cases moves
  have handled : get.descriptorHandled = descriptorPlan tuples := by
    have all := serving.descriptorEvents
    rw [descriptorDone, append_nil] at all
    rw [all]
    cases serving.descriptor with
    | waiting pushes gets fresh progress =>
      have moves := still .push
      rw [pipelineStep, if_neg (by omega)] at moves
      cases moves
    | running answered pushes gets progress =>
      cases progress with
      | ended empty sent => exact sent
      | asking asked stored read later =>
        have moves := still (.descriptorReply 0)
        rw [pipelineStep, gets, asked] at moves
        cases moves
  have fed : tuples.drop get.descriptorHandled.length = [] := by
    rw [handled, drop_eq_nil_iff, descriptorPlan]
    simp
  have here : ahead tuples get = get.reading := by rw [ahead, fed, append_nil]
  have reading := serving.reading
  rw [here] at reading
  have rendered := reading.idle_of_stuck servable.readable (by
    intro label
    have moves := still (.read label)
    rwa [pipelineStep, Option.map_eq_none_iff] at moves)
  obtain ⟨_, length, final⟩ := renderedBytes_isPrefix reading
  rw [servable.content] at rendered
  rw [rendered] at length
  rcases serving.pieces with ⟨pieces, events⟩
  constructor
  · have all := serving.readerEvents
    rw [readerDone, append_nil] at all
    rw [all, events, endEvents, if_pos (by rw [final, length])]
    simp
  · rw [handled, descriptorPlan]
    simp

end

/-- A node has the blocks of the tuples and of their descriptor, and they add up to the file. -/
structure StoredAs (hashData : Bytes → Hash) (store : Hash → Option Bytes) (type : BlockSize)
    (tupleSize : Nat) (tuples : List Tuple) (url : OffUrl) (file : Bytes) : Prop where
  some_byte : file ≠ []
  length : url.streamLength = file.length
  sized : ∀ tuple ∈ tuples, tuple.hashes.length = tupleSize
  counted : fileTuples type file.length = tuples.length
  descriptor : ∃ hasNetwork isEphemeral putGroup written,
    writeDescriptor hashData
        (writeableDescriptorCreate type 32 tupleSize hasNetwork isEphemeral
          putGroup) tuples = some written ∧
      publishedHash written.sent = url.descriptorHash ∧
      HoldsChain (keyStore store) (putBlocks written.sent)
  stored : ∀ tuple ∈ tuples, ∀ hash ∈ tuple.hashes, (store hash).isSome = true
  block : ∀ tuple ∈ tuples, (tupleContent store tuple).length = type.bytes
  content : (contentOf store tuples).take file.length = file

section
variable {store : Hash → Option Bytes} {type : BlockSize} {tuples : List Tuple}
  {file : Bytes} {cached : List (Tuple × Bytes)}

/-- The tuples as the OFF stream of a get receives them. -/
def receivedTuples (tuples : List Tuple) : List Tuple :=
  tuples.map fun tuple => fullTuple tuple.hashes

theorem tupleKeys_receivedTuples :
    (receivedTuples tuples).map tupleKeys = tuples.map tupleKeys := by
  rw [receivedTuples, map_map]
  rfl

theorem length_contentOf {done : List Tuple} (block : ∀ tuple ∈ done,
      (tupleContent store tuple).length = type.bytes) :
    (contentOf store done).length = done.length * type.bytes := by
  induction done with
  | nil => simp [contentOf]
  | cons tuple done ih =>
    have rest := ih fun other among => block other (mem_cons_of_mem _ among)
    have first := block tuple mem_cons_self
    rw [contentOf] at rest ⊢
    rw [map_cons, flatten_cons, length_append, first, rest, length_cons]
    ring

/-- The blocks of a file, all but the last of which are full. -/
theorem fileTuples_le {length count : Nat} (counted : count < fileTuples type length) :
    count * type.bytes < length := by
  have positive := type.bytes_pos
  have split := Nat.div_add_mod length type.bytes
  rw [fileTuples] at counted
  have bound : count * type.bytes ≤ length / type.bytes * type.bytes ∧
      (count < length / type.bytes ∨ 0 < length % type.bytes) := by
    split at counted
    · exact ⟨Nat.mul_le_mul_right _ (Nat.lt_succ_iff.mp counted), .inr ‹_›⟩
    · exact ⟨Nat.mul_le_mul_right _ (le_of_lt counted), .inl counted⟩
  rw [mul_comm] at split
  rcases bound with ⟨within, less | more⟩
  · have strictly := Nat.mul_lt_mul_of_pos_right less positive
    omega
  · omega

/-- A file that is there can be served. -/
theorem StoredAs.servable (stored : StoredAs hashData store type tupleSize tuples url file)
    (some_hash : 0 < tupleSize) (consistent : ∀ pair ∈ cached, pair.2 = tupleContent store pair.1) :
    Servable store cached (receivedTuples tuples) file where
  readable := by
    refine ⟨?_, ?_, ?_⟩
    · intro tuple among
      rcases mem_map.mp among with ⟨original, listed, rfl⟩
      have sized := stored.sized original listed
      exact ne_nil_of_length_pos (by rw [fullTuple, sized]; exact some_hash)
    · intro tuple among
      rcases mem_map.mp among with ⟨original, listed, rfl⟩
      exact stored.stored original listed
    · intro pair among tuple _ same
      rw [consistent pair among, tupleContent, tupleContent, same]
  full := by
    intro tuple among
    rcases mem_map.mp among with ⟨original, _, rfl⟩
    rfl
  unfinished := by
    intro done tuple later split
    have listed : ∀ other ∈ done, (tupleContent store other).length = type.bytes := by
      intro other among
      have member : other ∈ receivedTuples tuples := by
        rw [split]
        exact mem_append_left _ among
      rcases mem_map.mp member with ⟨original, source, rfl⟩
      exact stored.block original source
    rw [length_contentOf listed]
    apply fileTuples_le
    rw [stored.counted]
    have count := congrArg List.length split
    rw [receivedTuples, length_map, length_append, length_cons] at count
    omega
  content := by
    rw [contentOf, receivedTuples, map_map]
    exact stored.content

/-- The descriptor of such a file is read to its end. -/
theorem StoredAs.progress (stored : StoredAs hashData store .standard 3 tuples url file)
    (hasNetwork : Bool) :
    ∃ rounds, Progress (keyStore store) (descriptorPlan (receivedTuples tuples)) rounds
      ⟨descriptorPush (readableDescriptorCreate (getOri url) 32 hasNetwork), 0⟩ := by
  obtain ⟨writerNetwork, isEphemeral, putGroup, written, wrote, published,
    holds⟩ := stored.descriptor
  have length := length_descriptorKeys stored.sized
  have positive : 0 < tuples.length := by
    rw [← stored.counted, fileTuples]
    have some_byte := length_pos_iff.mpr stored.some_byte
    change 0 < file.length / 128000 + if 0 < file.length % 128000 then 1 else 0
    split <;> omega
  have fresh := fresh_writeableDescriptorCreate .standard 32 3 writerNetwork isEphemeral putGroup
  have more : descriptorKeys tuples ≠ [] := by
    apply ne_nil_of_length_pos
    omega
  have room : ¬ LastFull (hashesPerBlock .standard) (descriptorKeys tuples).length := by
    rw [length]
    rintro ⟨linked, total⟩
    change tuples.length * 3 = linked * (4000 - 1) + 4000 at total
    omega
  obtain ⟨rounds, progress⟩ := fresh.progress hashData rfl more
    (fun nano => nomatch nano) stored.sized stored.counted room wrote holds hasNetwork
  refine ⟨rounds, ?_⟩
  rw [descriptorPlan, tupleKeys_receivedTuples]
  rw [published] at progress
  have same : getOri url = frontOri
      (writeableDescriptorCreate .standard 32 3 writerNetwork isEphemeral
        putGroup) file.length url.descriptorHash := by
    rw [getOri, stored.length]
    rfl
  rw [same]
  exact progress

/-- The pipeline of such a file starts to serve it. -/
theorem StoredAs.serving (stored : StoredAs hashData store .standard 3 tuples url file)
    (conn : GetConnection) (progress : Progress (keyStore store)
      (descriptorPlan (receivedTuples tuples)) rounds
      ⟨descriptorPush (readableDescriptorCreate (getOri url) 32 conn.hasNetwork), 0⟩) :
    Serving store (receivedTuples tuples) file rounds (startPipeline conn (getOri url) 2) where
  intact := rfl
  descriptor := .waiting rfl rfl rfl progress
  noDescriptorFinds := rfl
  descriptorEvents := rfl
  reading := by
    have start := ReadInvariant.start store (receivedTuples tuples)
      file.length .standard conn.hasTupleCache conn.hasNetwork false
    rw [← stored.length] at start ⊢
    exact start
  mode := rfl
  noReaderFinds := rfl
  readerEvents := rfl
  pieces := by
    refine ⟨[], ?_⟩
    rw [endEvents, if_neg]
    · rfl
    · have some_byte := length_pos_iff.mpr stored.some_byte
      change ¬ url.streamLength ≤ 0
      rw [stored.length]
      omega
  replies := by
    change [startFrame url.streamLength] = _
    rw [stored.length]
    rfl
  references := rfl
  freed := rfl

end

end Liboffs.ClientApi

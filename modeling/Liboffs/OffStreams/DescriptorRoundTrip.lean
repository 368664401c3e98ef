import Liboffs.Library.StoreWalks
import Liboffs.OffStreams.DescriptorChain

/-!
# Descriptors read back

The readable descriptor walks a chain over a store: it asks for one block
after the other, and each request is answered with what the store has under
the hash.  The walk over the pages of a written descriptor gives back its
tuples, up to the last page.  When all places of the last page are taken, the
reader takes the last hash of the file for a link.
-/

namespace Liboffs.OffStreams

open BlockCache Library Library.ByteOrder Library.Pages Library.StoreWalks List ReadableDescriptor

def descriptorRequests (desc : ReadableDescriptor) : List Bytes :=
  requestedHashes desc.sent

/-- A descriptor that has been pushed. -/
def startReading (ori : DescriptorOri) (descriptorPad : Nat)
    (hasNetwork : Bool) : Walk ReadableDescriptor :=
  ⟨descriptorPush (readableDescriptorCreate ori descriptorPad hasNetwork), 0⟩

variable {reading : Walk ReadableDescriptor}

section
variable (store : Bytes → Option Bytes)

/-- With the last answer, these are the events that the stream has sent. -/
def Reads (reading : Walk ReadableDescriptor) (events : List (StreamEvent (List Bytes))) : Prop :=
  ∃ final,
    Settles descriptorRequests descriptorGetResult store reading final ∧
    tupleEvents final.sent = events

variable {store}

theorem reads_of_answered (answered : unanswered descriptorRequests reading = [])
    (events : List (StreamEvent (List Bytes))) :
    Reads store reading events ↔ tupleEvents reading.state.sent = events := by
  simp only [Reads, settles_of_answered answered]
  constructor
  · rintro ⟨_, rfl, sent⟩
    exact sent
  · intro sent
    exact ⟨_, rfl, sent⟩

theorem reads_of_answer
    (step : answerOldest descriptorRequests descriptorGetResult store reading = some new)
    (events : List (StreamEvent (List Bytes))) :
    Reads store reading events ↔ Reads store new events := by
  simp only [Reads, settles_of_answer step]

/-- A descriptor that sends its events in answers, with one request at a time. -/
inductive Progress (store : Bytes → Option Bytes) (events : List (StreamEvent (List Bytes))) :
    Nat → Walk ReadableDescriptor → Prop
  | ended {reading : Walk ReadableDescriptor}
      (answered : unanswered descriptorRequests reading = [])
      (sent : tupleEvents reading.state.sent = events) : Progress store events 0 reading
  | asking {rounds : Nat} {reading : Walk ReadableDescriptor}
      {link data : Bytes} {next : ReadableDescriptor}
      (asked : unanswered descriptorRequests reading = [link])
      (stored : store link = some data)
      (read : descriptorGetResult reading.state link (some data) = some next)
      (later : Progress store events rounds ⟨next, reading.answered + 1⟩) :
      Progress store events (rounds + 1) reading

/-- With the last answer the events have been sent. -/
theorem Progress.reads (progress : Progress store events rounds reading) :
    Reads store reading events := by
  induction progress with
  | ended answered sent => exact (reads_of_answered answered _).mpr sent
  | asking asked stored read later ih =>
    apply (reads_of_answer _ _).mpr ih
    rw [answerOldest, asked]
    simp only [stored, read]
    rfl

end

/-- Bytes that are cut into hashes. -/
theorem exists_keys (count : Nat) (bytes : Bytes) (length : bytes.length = 32 * count) :
    ∃ keys : List Bytes, Keys keys ∧ keys.length = count ∧ keys.flatten = bytes := by
  induction count generalizing bytes with
  | zero =>
    refine ⟨[], ?_, rfl, ?_⟩
    · intro key among
      cases among
    · exact (length_eq_zero_iff.mp length).symm
  | succ count ih =>
    obtain ⟨keys, sized, counted, whole⟩ := ih (bytes.drop 32) (by
      rw [length_drop]
      omega)
    refine ⟨bytes.take 32 :: keys, ?_, ?_, ?_⟩
    · intro key among
      rcases mem_cons.mp among with rfl | behind
      · rw [length_take]
        omega
      · exact sized key behind
    · rw [length_cons, counted]
    · rw [flatten_cons, whole, take_append_drop]

/-- A place that has not been used. -/
def zeroKey : Bytes :=
  List.replicate 32 0

variable {keys : List Bytes} {count : Nat} {key : Bytes} {hash : Hash}

/-- The places of the last page, with those that have not been used. -/
theorem bufferSlice_last (sized : Keys keys) (fits : keys.length ≤ hashesPerBlock type) :
    bufferSlice (keys.flatten ++ List.replicate (type.bytes - keys.flatten.length) 0)
        0 (hashesPerBlock type * 32) =
      some (keys ++ List.replicate (hashesPerBlock type - keys.length) zeroKey).flatten := by
  have length := sized.length_flatten
  have room := hashesPerBlock_mul_le type
  have zeros : (replicate (hashesPerBlock type - keys.length) zeroKey).flatten =
      replicate ((hashesPerBlock type - keys.length) * 32) 0 :=
    flatten_replicate_replicate
  rw [bufferSlice, if_pos, flatten_append, zeros, drop_zero,
    Nat.sub_zero, take_append, take_of_length_le (by omega), take_replicate]
  · congr 3
    omega
  · rw [length_append, length_replicate]
    omega

/-- The places of a page with a link. -/
theorem bufferSlice_page (sized : Keys page) (filled : page.length + 1 = hashesPerBlock type)
    (next : Hash) :
    bufferSlice (page.flatten ++ next.bytes) 0 (hashesPerBlock type * 32) =
      some (page ++ [next.bytes]).flatten := by
  have length := sized.length_flatten
  have whole : (page.flatten ++ next.bytes).length = hashesPerBlock type * 32 := by
    rw [length_append, next.size]
    omega
  rw [bufferSlice, if_pos ⟨Nat.zero_le _, whole.ge⟩, drop_zero,
    Nat.sub_zero, take_of_length_le whole.le, flatten_append]
  simp

/-- The reader when the block that it has asked for is there. -/
def expectNothing (desc : ReadableDescriptor) : ReadableDescriptor :=
  { desc with expectedHash := none }

/-- A reader that waits for the block with the next hashes. -/
structure Waiting (cutPoint : Nat) (tuples : List (List Bytes))
    (left requested : List Bytes) (link : Bytes) (reading : Walk ReadableDescriptor) : Prop where
  awaiting : Awaiting cutPoint tuples left (requested ++ [link]) reading.state
  expected : reading.state.expectedHash = some link
  answered : reading.answered = requested.length

namespace Waiting

variable {cutPoint : Nat} {tuples : List (List Bytes)} {left requested : List Bytes} {link : Bytes}
  {reading : Walk ReadableDescriptor} {store : Bytes → Option Bytes}

variable {data : Bytes}

section
variable (waiting : Waiting cutPoint tuples left requested link reading)
include waiting

/-- The reader while it looks at the block. -/
theorem looking :
    Awaiting cutPoint tuples left (requested ++ [link]) (expectNothing reading.state) := by
  have awaiting := waiting.awaiting
  have front := awaiting.front
  exact { awaiting with front := ⟨front.offset, front.remainder, front.pad, front.size⟩ }

theorem answerOldest_eq :
    answerOldest descriptorRequests descriptorGetResult store reading =
      (descriptorGetResult reading.state link (store link)).map
        fun desc => ⟨desc, requested.length + 1⟩ :=
  StoreWalks.answerOldest_eq waiting.awaiting.asked waiting.answered

theorem descriptorGetResult_eq (stored : store link = some data) :
    descriptorGetResult reading.state link (store link) =
      descriptorBlock (expectNothing reading.state) data := by
  rw [descriptorGetResult, if_neg (by simp [waiting.awaiting.active]),
    if_neg (by simp [waiting.expected]), stored]
  rfl

theorem unanswered_eq : unanswered descriptorRequests reading = [link] := by
  rw [unanswered, descriptorRequests, waiting.awaiting.asked, waiting.answered]
  simp

end

/-- A block with a link, and what the reader waits for then. -/
theorem page {next : Bytes}
    (waiting : Waiting cutPoint tuples (keys ++ left) requested link reading)
    (stored : store link = some data) (more : left ≠ []) (sized : Keys (keys ++ [next]))
    (cut : bufferSlice data 0 cutPoint = some (keys ++ [next]).flatten) :
    ∃ later, Waiting cutPoint tuples left (requested ++ [link]) next later ∧
      (∀ events, Reads store reading events ↔ Reads store later events) ∧
      ∀ events rounds, Progress store events rounds later →
        Progress store events (rounds + 1) reading := by
  obtain ⟨read, block, expected, awaits⟩ :=
    waiting.looking.descriptorBlock_link keys next more sized cut
  have handled : descriptorGetResult reading.state link (store link) = some read := by
    rw [waiting.descriptorGetResult_eq stored, block]
  refine ⟨⟨read, requested.length + 1⟩, ⟨awaits, expected, by simp⟩, ?_, ?_⟩
  · apply reads_of_answer
    rw [waiting.answerOldest_eq, handled]
    rfl
  · intro events rounds later
    rw [stored] at handled
    apply Progress.asking waiting.unanswered_eq stored handled
    rw [waiting.answered]
    exact later

/-- The block with the last hashes and room behind them. -/
theorem finish {zeros : List Bytes}
    (waiting : Waiting cutPoint tuples (keys ++ [key]) requested link reading)
    (stored : store link = some data) (room : zeros ≠ []) (sized : Keys (keys ++ key :: zeros))
    (cut : bufferSlice data 0 cutPoint = some (keys ++ key :: zeros).flatten) :
    Progress store (tuples.map .data ++ [.complete, .close]) 1 reading := by
  obtain ⟨read, equal, asked, events⟩ := waiting.looking.readKeys_end keys key zeros room
  have block : descriptorBlock (expectNothing reading.state) data = some read := by
    rw [← waiting.looking.cut] at cut
    apply descriptorBlock_of_done
    rw [waiting.looking.processDescriptor_eq sized (by simp) cut, equal]
  have handled := waiting.descriptorGetResult_eq stored
  rw [stored, block] at handled
  apply Progress.asking waiting.unanswered_eq stored handled
  rw [waiting.answered]
  exact .ended (unanswered_of_silent asked) events

section
variable (waiting : Waiting cutPoint tuples left requested link reading)
include waiting

/-- Where the answer brings no tuple, the reader is not at its end. -/
theorem not_reads_of_silent {read : ReadableDescriptor}
    (result : descriptorGetResult reading.state link (store link) = some read)
    (asked : requestedHashes read.sent = requestedHashes reading.state.sent)
    (events : List (StreamEvent (List Bytes)))
    (sent : tupleEvents read.sent = tupleEvents reading.state.sent ++ events)
    (silent : .complete ∉ events) :
    ¬ Reads store reading (tuples.map .data ++ [.complete, .close]) := by
  have answer : answerOldest descriptorRequests descriptorGetResult store reading =
      some ⟨read, requested.length + 1⟩ := by
    rw [waiting.answerOldest_eq, result]
    rfl
  have answered : unanswered descriptorRequests ⟨read, requested.length + 1⟩ = [] :=
    unanswered_of_silent (asked.trans waiting.awaiting.asked)
  rw [reads_of_answer answer, reads_of_answered answered, sent]
  obtain ⟨before, _, _, told, _⟩ := waiting.awaiting.split
  intro equal
  have among : StreamEvent.complete ∈ tupleEvents reading.state.sent ++ events := by
    rw [equal]
    simp
  rw [told] at among
  rcases mem_append.mp among with early | late
  · obtain ⟨tuple, _, other⟩ := mem_map.mp early
    cases other
  · exact silent late

/-- A link to a block that the store does not have. -/
theorem missing (absent : store link = none) :
    ¬ Reads store reading (tuples.map .data ++ [.complete, .close]) := by
  have result : descriptorGetResult reading.state link (store link) =
      if reading.state.hasNetwork then
        some ({ expectNothing reading.state with state := .awaitingNetwork }.send [.findBlock link])
      else
        some (descriptorReaderDeactivate (expectNothing reading.state)
          "Descriptor block not found") := by
    rw [descriptorGetResult, if_neg (by simp [waiting.awaiting.active]),
      if_neg (by simp [waiting.expected]), absent]
    rfl
  by_cases network : reading.state.hasNetwork
  · rw [if_pos network] at result
    apply waiting.not_reads_of_silent result _ []
    · simp [send, tupleEvents, expectNothing]
    · simp
    · simp [send, requestedHashes, expectNothing]
  · rw [if_neg network, descriptorReaderDeactivate,
      if_neg (by simp [waiting.looking.active])] at result
    apply waiting.not_reads_of_silent result _ [.error "Descriptor block not found", .close]
    · simp [send, tupleEvents, expectNothing]
    · simp
    · simp [send, requestedHashes, expectNothing]

theorem short (stored : store link = some data) (less : data.length < cutPoint) :
    ¬ Reads store reading (tuples.map .data ++ [.complete, .close]) := by
  have looking := waiting.looking
  have cut : descriptorPart (expectNothing reading.state) data = none := by
    rw [descriptorPart, looking.unread, looking.whole]
    simp only [lt_self_iff_false, false_and, if_false]
    rw [looking.cut, bufferSlice, if_neg (by omega)]
  have result : descriptorGetResult reading.state link (store link) =
      some { expectNothing reading.state with
        currentDescriptor := none } := by
    rw [waiting.descriptorGetResult_eq stored]
    apply descriptorBlock_of_done
    rw [processDescriptor, cut, processLoop, if_pos (.inl rfl)]
  apply waiting.not_reads_of_silent result rfl [] _ (by simp)
  exact (append_nil _).symm

end

/-- The last hash, taken for a link, is right only if the block there begins with it. -/
theorem mistaken
    (waiting : Waiting (count * 32) tuples [key] requested key reading) (places : 2 ≤ count) :
    Reads store reading (tuples.map .data ++ [.complete, .close]) ↔
      ∃ data, store key = some data ∧ count * 32 ≤ data.length ∧ data.take 32 = key := by
  cases stored : store key with
  | none =>
    constructor
    · intro reads
      exact absurd reads (waiting.missing stored)
    · rintro ⟨data, other, _⟩
      cases other
  | some data =>
    by_cases long : count * 32 ≤ data.length
    · have looking := waiting.looking
      obtain ⟨before, apart, taken⟩ := looking.last
      obtain ⟨keys, sized, counted, whole⟩ := exists_keys count (data.take (count * 32)) (by
          rw [length_take]
          omega)
      match keys, sized, counted, whole with
      | [], _, counted, _ =>
        rw [← counted] at places
        cases places
      | [_], _, counted, _ =>
        rw [← counted] at places
        cases places with
        | step less => cases less
      | other :: next :: rest, sized, _, whole =>
        have begins : data.take 32 = other := by
          have cut := congrArg (take 32) whole
          rw [take_take, Nat.min_eq_left (by omega), flatten_cons, ← sized.head, take_left] at cut
          rw [← sized.head]
          exact cut.symm
        obtain ⟨deactivated, asked, events⟩ := taken other
        have result : descriptorGetResult reading.state key (store key) =
            some (takeKey (expectNothing reading.state) other) := by
          rw [waiting.descriptorGetResult_eq stored]
          apply descriptorBlock_of_done
          rw [looking.processDescriptor_eq sized (cons_ne_nil _ _), readKeys, if_pos deactivated]
          rw [looking.cut, bufferSlice, if_pos ⟨Nat.zero_le _, long⟩, whole]
          simp
        have answer : answerOldest descriptorRequests descriptorGetResult store reading =
            some ⟨takeKey (expectNothing reading.state) other, requested.length + 1⟩ := by
          rw [waiting.answerOldest_eq, result]
          rfl
        have answered : unanswered descriptorRequests ⟨takeKey (expectNothing reading.state) other,
              requested.length + 1⟩ = [] :=
          unanswered_of_silent asked
        rw [reads_of_answer answer, reads_of_answered answered, events, apart]
        simp [begins, long]
    · constructor
      · intro reads
        exact absurd reads (waiting.short stored (Nat.lt_of_not_le long))
      · rintro ⟨_, same, enough, _⟩
        cases same
        exact absurd enough long

end Waiting

section
variable {hashData : Bytes → Hash} {store : Bytes → Option Bytes}
  {type : BlockSize} {tuples : List (List Bytes)}

/-- The store has the blocks of a chain. -/
def HoldsChain (store : Bytes → Option Bytes) (blocks : List Block) : Prop :=
  ∀ block ∈ blocks, store block.hash.bytes = some block.data

/-- The last block of a chain. -/
theorem HoldsChain.last (holds : HoldsChain store (chainOf hashData (pageChunks type.bytes [keys])))
    (named : chainHash hashData (pageChunks type.bytes [keys]) = some hash) :
    store hash.bytes = some (keys.flatten ++
      List.replicate (type.bytes - keys.flatten.length) 0) := by
  have same := Option.some.inj named
  have stored := holds _ mem_cons_self
  simp only [priorBytes, chainOf, head?_nil, Option.map_none, append_nil] at stored same
  rw [← same]
  exact stored

/-- A block of a chain that is not the last one. -/
theorem HoldsChain.page {page : List Bytes} {later : List (List Bytes)} (more : later ≠ [])
    (holds : HoldsChain store (chainOf hashData (pageChunks type.bytes (page :: later))))
    (named : chainHash hashData (pageChunks type.bytes (page :: later)) = some hash) :
    ∃ next, chainHash hashData (pageChunks type.bytes later) = some next ∧
      HoldsChain store (chainOf hashData (pageChunks type.bytes later)) ∧
      store hash.bytes = some (page.flatten ++ next.bytes) := by
  obtain ⟨next, named', chain⟩ := chainOf_page hashData more
  rw [chain] at holds
  rw [chainHash, chain] at named
  refine ⟨next, named', ?_, ?_⟩
  · intro block among
    exact holds block (mem_cons_of_mem _ among)
  · have stored := holds _ mem_cons_self
    have same := Option.some.inj named
    rw [← same]
    exact stored

/--
The walk over a chain, by induction on its pages; without room the last hash is taken for a link.
-/
theorem Waiting.chain {pages : List (List Bytes)} (paged : Paged (hashesPerBlock type) keys pages)
    (sized : Keys keys) (holds : HoldsChain store (chainOf hashData (pageChunks type.bytes pages)))
    (named : chainHash hashData (pageChunks type.bytes pages) = some hash) {requested : List Bytes}
    (waiting : Waiting (hashesPerBlock type * 32) tuples keys requested hash.bytes reading) :
    (¬ LastFull (hashesPerBlock type) keys.length →
      ∃ rounds, Progress store (tuples.map .data ++ [.complete, .close]) rounds reading) ∧
    (LastFull (hashesPerBlock type) keys.length → ∃ key requested' later, keys.getLast? = some key ∧
        Waiting (hashesPerBlock type * 32) tuples [key] requested' key later ∧
        ∀ events, Reads store reading events ↔ Reads store later events) := by
  induction paged generalizing hash requested reading with
  | @last keys more fits =>
    have stored := holds.last named
    have cut := bufferSlice_last sized fits
    obtain ⟨front, key, rfl⟩ : ∃ front key, keys = front ++ [key] :=
      ⟨keys.dropLast, keys.getLast more, (dropLast_append_getLast more).symm⟩
    rw [lastFull_of_le fits]
    constructor
    · intro room
      cases unused : replicate (hashesPerBlock type - (front ++ [key]).length) zeroKey with
      | nil =>
        have none := congrArg length unused
        rw [length_replicate, length_nil] at none
        omega
      | cons zero zeros =>
        rw [unused, append_assoc] at cut
        refine ⟨1, waiting.finish stored (cons_ne_nil zero zeros) ?_ cut⟩
        apply Keys.append
        · exact sized.of_append.1
        · intro other among
          rcases mem_cons.mp among with rfl | behind
          · exact sized other (mem_append_right _ mem_cons_self)
          · rw [← unused] at behind
            rw [(mem_replicate.mp behind).2]
            rfl
    · intro full
      rw [full, Nat.sub_self, replicate_zero, append_nil] at cut
      obtain ⟨later, waits, same, _⟩ := waiting.page stored (cons_ne_nil key []) sized cut
      exact ⟨key, _, later, by simp, waits, same⟩
  | @page front rest pages filled more behind ih =>
    obtain ⟨first, second⟩ := sized.of_append
    obtain ⟨next, named', holds', stored⟩ := holds.page behind.pages_ne_nil named
    have linked : Keys (front ++ [next.bytes]) := first.append (by
      intro key among
      rw [mem_singleton.mp among]
      exact next.size)
    obtain ⟨later, waits, same, step⟩ := waiting.page stored
      behind.items_ne_nil linked (bufferSlice_page first filled next)
    obtain ⟨room, full⟩ := ih second holds' named' waits
    rw [length_append, lastFull_page filled more]
    constructor
    · intro free
      rcases room free with ⟨rounds, progress⟩
      exact ⟨rounds + 1, step _ rounds progress⟩
    · intro taken
      obtain ⟨key, requested', final, last, waits', same'⟩ := full taken
      refine ⟨key, requested', final, ?_, waits', fun events => (same events).trans (same' events)⟩
      rw [getLast?_append, last]
      rfl

end

def fileTuples (type : BlockSize) (finalByte : Nat) : Nat :=
  finalByte / type.bytes + if 0 < finalByte % type.bytes then 1 else 0

/-- The descriptor that is read from the front of a file. -/
def frontOri (stream : WriteableDescriptor) (finalByte : Nat)
    (descriptorHash : Option Hash) : DescriptorOri where
  blockType := stream.blockType
  fileOffset := 0
  finalByte := finalByte
  tupleSize := stream.tupleSize
  descriptorOffset := 0
  descriptorHash := descriptorHash.map Hash.bytes

/-- The tuples are written, and the reader that is started at the hash sends them and closes. -/
def RoundTrips (hashData : Bytes → Hash) (store : Bytes → Option Bytes)
    (stream : WriteableDescriptor) (hasNetwork : Bool) (finalByte : Nat)
    (tuples : List Tuple) : Prop :=
  ∃ written,
    writeDescriptor hashData stream tuples = some written ∧
    (∀ message, .notify (.error message) ∉ written.sent) ∧
    Reads store (startReading (frontOri stream finalByte (publishedHash written.sent))
        stream.descriptorPad hasNetwork)
      (tuples.map (fun tuple => .data (tupleKeys tuple)) ++ [.complete, .close])

/-- The block under the last hash of the tuples begins with this hash. -/
def LastHashEchoes (store : Bytes → Option Bytes) (type : BlockSize) (tuples : List Tuple) : Prop :=
  ∃ key data,
    (descriptorKeys tuples).getLast? = some key ∧ store key = some data ∧
    hashesPerBlock type * 32 ≤ data.length ∧ data.take 32 = key

variable {tuples : List Tuple}

/-- A reader that has been started waits for the first block. -/
theorem waiting_startReading (pad : stream.descriptorPad = 32) (some : descriptorKeys tuples ≠ [])
    (sized : ∀ tuple ∈ tuples, tuple.hashes.length = stream.tupleSize)
    (counted : fileTuples stream.blockType finalByte = tuples.length) (hasNetwork : Bool)
    (hash : Hash) :
    Waiting (hashesPerBlock stream.blockType * 32) (tuples.map tupleKeys)
      (descriptorKeys tuples) [] hash.bytes (startReading (frontOri stream finalByte (.some hash))
        stream.descriptorPad hasNetwork) := by
  have positive : 0 < stream.tupleSize := by
    have length := length_descriptorKeys sized
    apply pos_of_ne_zero
    intro zero
    rw [zero, mul_zero] at length
    exact some (length_eq_zero_iff.mp length)
  refine ⟨⟨⟨?_, rfl, pad, positive⟩, rfl, positive, ?_, rfl, rfl, ?_, ?_,
    rfl, [], tuples.map tupleKeys, rfl, rfl, rfl, rfl⟩, rfl, rfl⟩
  · exact Nat.zero_div _
  · rw [pad]
    rfl
  · rw [length_map]
    exact counted
  · intro keys among
    obtain ⟨tuple, listed, rfl⟩ := mem_map.mp among
    rw [tupleKeys, length_map]
    exact sized tuple listed

theorem publishedHash_descriptorPuts : publishedHash (descriptorPuts stream blocks) = none := by
  by_cases ephemeral : stream.isEphemeral
  · simp [publishedHash, descriptorPuts, ephemeral]
  · simp [publishedHash, descriptorPuts, ephemeral]

theorem putBlocks_descriptorPuts : putBlocks (descriptorPuts stream blocks) = blocks := by
  by_cases ephemeral : stream.isEphemeral
  · simp [putBlocks, descriptorPuts, ephemeral, filterMap_map]
  · simp [putBlocks, descriptorPuts, ephemeral, filterMap_map]

section
variable (hashData : Bytes → Hash) {store : Bytes → Option Bytes}
  {stream : WriteableDescriptor} {tuples : List Tuple} {finalByte : Nat} {hasNetwork : Bool}

theorem not_roundTrips_of_unpublished {written : WriteableDescriptor}
    (wrote : writeDescriptor hashData stream tuples = some written)
    (none : publishedHash written.sent = none) :
    ¬ RoundTrips hashData store stream hasNetwork finalByte tuples := by
  rintro ⟨other, wrote', _, reads⟩
  cases wrote.symm.trans wrote'
  rw [none, reads_of_answered rfl] at reads
  have length := congrArg List.length reads
  rw [length_append] at length
  change 1 = List.length _ + 2 at length
  omega

section
variable (fresh : Fresh stream) (pad : stream.descriptorPad = 32)
  (more : descriptorKeys tuples ≠ [])
  (linkable : stream.blockType = .nano →
    (descriptorKeys tuples).length ≤ hashesPerBlock stream.blockType)
  (sized : ∀ tuple ∈ tuples, tuple.hashes.length = stream.tupleSize)
include fresh pad more linkable sized

theorem Fresh.stored_chain
    (holds : ∀ written, writeDescriptor hashData stream tuples = some written →
      HoldsChain store (putBlocks written.sent)) :
    ∃ pages written hash, Paged (hashesPerBlock stream.blockType) (descriptorKeys tuples) pages ∧
      writeDescriptor hashData stream tuples = some written ∧
      (∀ message, .notify (.error message) ∉ written.sent) ∧
      publishedHash written.sent = some hash ∧
      chainHash hashData (pageChunks stream.blockType.bytes pages) = some hash ∧ HoldsChain store
        (chainOf hashData (pageChunks stream.blockType.bytes pages)) := by
  obtain ⟨pages, paged⟩ := exists_paged
    (two_le_hashesPerBlock stream.blockType) (descriptorKeys tuples) more
  obtain ⟨written, hash, wrote, named, sent⟩ := fresh.written_chain hashData pad sized paged (by
      by_cases nano : stream.blockType = .nano
      · exact .inr (linkable nano)
      · exact .inl nano)
  refine ⟨pages, written, hash, paged, wrote, ?_, ?_, named, ?_⟩
  · intro message
    rw [sent]
    simp only [mem_append, descriptorPuts, mem_map, not_or]
    constructor
    · rintro ⟨block, _, put⟩
      split at put <;> cases put
    · simp
  · rw [sent, publishedHash_append, publishedHash_descriptorPuts]
    rfl
  · intro block among
    apply holds written wrote
    rw [sent, putBlocks, filterMap_append]
    apply mem_append_left
    rw [← putBlocks, putBlocks_descriptorPuts, mem_reverse]
    exact among

/-- A chain is read back unless the last page is full. -/
theorem Fresh.roundTrips_chain (counted : fileTuples stream.blockType finalByte = tuples.length)
    (holds : ∀ written, writeDescriptor hashData stream tuples = some written →
      HoldsChain store (putBlocks written.sent)) :
    RoundTrips hashData store stream hasNetwork finalByte tuples ↔
      (LastFull (hashesPerBlock stream.blockType) (descriptorKeys tuples).length →
        LastHashEchoes store stream.blockType tuples) := by
  obtain ⟨pages, written, hash, paged, wrote, accepted, published, named,
    chain⟩ := fresh.stored_chain hashData pad more linkable sized holds
  have waiting := waiting_startReading pad more sized counted hasNetwork hash
  have events : tuples.map (fun tuple =>
      StreamEvent.data (tupleKeys tuple)) =
      (tuples.map tupleKeys).map .data := by
    rw [map_map]
    rfl
  have reads : RoundTrips hashData store stream hasNetwork finalByte tuples ↔ Reads store
        (startReading (frontOri stream finalByte (some hash)) stream.descriptorPad hasNetwork)
        ((tuples.map tupleKeys).map .data ++ [.complete, .close]) := by
    constructor
    · rintro ⟨other, wrote', _, reads⟩
      cases wrote.symm.trans wrote'
      rw [published, events] at reads
      exact reads
    · intro reads
      refine ⟨written, wrote, accepted, ?_⟩
      rw [published, events]
      exact reads
  obtain ⟨room, full⟩ := waiting.chain paged (keys_descriptorKeys tuples) chain named
  rw [reads]
  by_cases last : LastFull (hashesPerBlock stream.blockType) (descriptorKeys tuples).length
  · obtain ⟨key, requested, later, final, waits, same⟩ := full last
    rw [same, waits.mistaken (two_le_hashesPerBlock _)]
    constructor
    · rintro ⟨data, rest⟩ _
      exact ⟨key, data, final, rest⟩
    · intro echoes
      obtain ⟨other, data, final', rest⟩ := echoes last
      cases final.symm.trans final'
      exact ⟨data, rest⟩
  · constructor
    · intro _ full
      exact absurd full last
    · intro _
      rcases room last with ⟨rounds, progress⟩
      exact progress.reads

end

/-- When exactly a descriptor is read back from a store that holds its chain. -/
theorem Fresh.roundTrips_iff (fresh : Fresh stream)
    (sized : ∀ tuple ∈ tuples, tuple.hashes.length = stream.tupleSize)
    (counted : fileTuples stream.blockType finalByte = tuples.length) (holds : ∀ written,
      writeDescriptor hashData stream tuples = some written →
      HoldsChain store (putBlocks written.sent)) :
    RoundTrips hashData store stream hasNetwork finalByte tuples ↔
      stream.descriptorPad = 32 ∧ descriptorKeys tuples ≠ [] ∧ (stream.blockType = .nano →
        (descriptorKeys tuples).length ≤ hashesPerBlock stream.blockType) ∧
      (LastFull (hashesPerBlock stream.blockType) (descriptorKeys tuples).length →
        LastHashEchoes store stream.blockType tuples) := by
  by_cases nothing : stream.descriptorPad ≠ 32 ∨ descriptorKeys tuples = []
  · obtain ⟨written, wrote, none⟩ := fresh.written_nothing hashData nothing
    apply iff_of_false (not_roundTrips_of_unpublished hashData wrote none)
    rintro ⟨pad, more, _⟩
    exact nothing.elim (absurd pad) more
  obtain ⟨pad, more⟩ := not_or.mp nothing
  rw [not_not] at pad
  by_cases linkable : stream.blockType = .nano →
      (descriptorKeys tuples).length ≤ hashesPerBlock stream.blockType
  · rw [fresh.roundTrips_chain hashData pad more linkable sized counted holds]
    constructor
    · intro echoes
      exact ⟨pad, more, linkable, echoes⟩
    · rintro ⟨_, _, _, echoes⟩
      exact echoes
  · obtain ⟨nano, long⟩ := Classical.not_imp.mp linkable
    obtain ⟨written, wrote, none⟩ := fresh.written_nano hashData pad sized
      nano (Nat.lt_of_not_le long)
    apply iff_of_false (not_roundTrips_of_unpublished hashData wrote none)
    rintro ⟨_, _, links, _⟩
    exact linkable links

end

/--
The tuples of a file are read back from their descriptor exactly if the hashes are as long as the
pad, there are any, a nano block need not be linked, and the last block is not full, or what is
under its last hash begins with this hash.
-/
theorem descriptor_chains_round_trip (hashData : Bytes → Hash) (store : Bytes → Option Bytes)
    (blockType : BlockSize) (descriptorPad tupleSize : Nat)
    (writerNetwork readerNetwork isEphemeral : Bool) (putGroup : UInt32) (tuples : List Tuple)
    (finalByte : Nat) (sized : ∀ tuple ∈ tuples, tuple.hashes.length = tupleSize)
    (counted : fileTuples blockType finalByte = tuples.length) (holds : ∀ written,
      writeDescriptor hashData (writeableDescriptorCreate blockType descriptorPad tupleSize
          writerNetwork isEphemeral putGroup) tuples = some written →
      HoldsChain store (putBlocks written.sent)) :
    RoundTrips hashData store (writeableDescriptorCreate blockType descriptorPad tupleSize
          writerNetwork isEphemeral putGroup)
        readerNetwork finalByte tuples ↔ descriptorPad = 32 ∧ 0 < tuples.length * tupleSize ∧
      (blockType = .nano → tuples.length * tupleSize ≤ hashesPerBlock blockType) ∧
      (LastFull (hashesPerBlock blockType) (tuples.length * tupleSize) →
        LastHashEchoes store blockType tuples) := by
  have length := length_descriptorKeys sized
  have fresh := fresh_writeableDescriptorCreate blockType descriptorPad
    tupleSize writerNetwork isEphemeral putGroup
  apply (fresh.roundTrips_iff hashData sized counted holds).trans
  rw [← length, length_pos_iff]
  rfl

/-- A hash of equal bytes. -/
def filledHash (byte : UInt8) : Hash :=
  ⟨List.replicate 32 byte, length_replicate⟩

/-- A store with the block of a descriptor that fits in one. -/
def oneBlockStore (type : BlockSize) (hash : Hash) (keys : List Bytes)
    (key : Bytes) : Option Bytes :=
  if key = hash.bytes then
    some (keys.flatten ++ List.replicate (type.bytes - keys.flatten.length) 0)
  else
    none

theorem holdsChain_oneBlockStore (hashData : Bytes → Hash) (type : BlockSize) (hash : Hash)
    (named : hashData ((descriptorKeys tuples).flatten ++ List.replicate
        (type.bytes - (descriptorKeys tuples).flatten.length) 0) = hash)
    (sized : ∀ tuple ∈ tuples, tuple.hashes.length = tupleSize) (more : descriptorKeys tuples ≠ [])
    (fits : (descriptorKeys tuples).length ≤ hashesPerBlock type) (written : WriteableDescriptor)
    (wrote : writeDescriptor hashData
      (writeableDescriptorCreate type 32 tupleSize false false 0) tuples = some written) :
    HoldsChain (oneBlockStore type hash (descriptorKeys tuples)) (putBlocks written.sent) := by
  have fresh := fresh_writeableDescriptorCreate type 32 tupleSize false false 0
  obtain ⟨other, _, wrote', _, sent⟩ := fresh.written_chain hashData rfl
    sized (.last more fits) (.inr fits)
  cases wrote.symm.trans wrote'
  intro block among
  rw [sent, putBlocks, filterMap_append, ← putBlocks, putBlocks_descriptorPuts] at among
  rcases mem_append.mp among with put | event
  · have only : block = ⟨_, hashData _⟩ :=
      mem_singleton.mp (mem_reverse.mp put)
    simp only [priorBytes, chainOf, head?_nil, Option.map_none, append_nil] at only
    rw [only, oneBlockStore]
    exact if_pos (congrArg Hash.bytes named)
  · cases event

/-- A tuple of one hash, several times. -/
def repeatedTuple (size : Nat) (hash : Hash) : Tuple :=
  ⟨size, List.replicate size hash, length_replicate.le⟩

theorem length_hashes_of_repeated {size : Nat} :
    ∀ tuple ∈ List.replicate count (repeatedTuple size hash), tuple.hashes.length = size := by
  intro tuple among
  rw [(mem_replicate.mp among).2]
  exact length_replicate

theorem eq_of_mem_repeated {size : Nat} (among : key ∈
      descriptorKeys (List.replicate count (repeatedTuple size hash))) : key = hash.bytes := by
  obtain ⟨keys, listed, among⟩ := mem_flatten.mp among
  obtain ⟨tuple, replicated, rfl⟩ := mem_map.mp listed
  rw [(mem_replicate.mp replicated).2] at among
  obtain ⟨other, listed, rfl⟩ := mem_map.mp among
  rw [(mem_replicate.mp listed).2]

theorem length_repeated (count size : Nat) (hash : Hash) :
    (descriptorKeys (List.replicate count (repeatedTuple size hash))).length = count * size := by
  rw [length_descriptorKeys length_hashes_of_repeated, length_replicate]

/-- The descriptor of a file of one block is read back. -/
theorem one_tuple_round_trips :
    RoundTrips (fun _ => filledHash 0) (oneBlockStore .standard (filledHash 0)
        (descriptorKeys [repeatedTuple 3 (filledHash 1)]))
      (writeableDescriptorCreate .standard 32 3 false false 0) false 128000
      [repeatedTuple 3 (filledHash 1)] := by
  have sized : ∀ tuple ∈ [repeatedTuple 3 (filledHash 1)], tuple.hashes.length = 3 := by
    intro tuple among
    rw [mem_singleton.mp among]
    rfl
  rw [descriptor_chains_round_trip _ _ _ _ _ _ _ _ _ _ _ sized rfl
    (holdsChain_oneBlockStore _ _ _ rfl sized (cons_ne_nil _ _) (by decide))]
  refine ⟨rfl, by decide, by simp, ?_⟩
  intro full
  rw [lastFull_of_le (by decide)] at full
  exact absurd full (by decide)

/-- Two thousand tuples of two hashes fill a block and are not read back. -/
theorem full_block_does_not_round_trip :
    (∀ written, writeDescriptor (fun _ => filledHash 0)
        (writeableDescriptorCreate .standard 32 2 false false 0)
        (List.replicate 2000 (repeatedTuple 2 (filledHash 1))) = some written →
      HoldsChain (oneBlockStore .standard (filledHash 0) (descriptorKeys
            (List.replicate 2000 (repeatedTuple 2 (filledHash 1)))))
        (putBlocks written.sent)) ∧
    ¬ RoundTrips (fun _ => filledHash 0) (oneBlockStore .standard (filledHash 0) (descriptorKeys
          (List.replicate 2000 (repeatedTuple 2 (filledHash 1)))))
      (writeableDescriptorCreate .standard 32 2 false false 0) false
      256000000
      (List.replicate 2000 (repeatedTuple 2 (filledHash 1))) := by
  have length := length_repeated 2000 2 (filledHash 1)
  have more : descriptorKeys (replicate 2000 (repeatedTuple 2 (filledHash 1))) ≠ [] := by
    decide
  have holds := holdsChain_oneBlockStore (fun _ => filledHash 0) .standard
    (filledHash 0) rfl length_hashes_of_repeated more (by rw [length]; decide)
  refine ⟨holds, ?_⟩
  have fresh := fresh_writeableDescriptorCreate .standard 32 2 false false 0
  have counted : fileTuples .standard 256000000 =
      (replicate 2000 (repeatedTuple 2 (filledHash 1))).length := by
    rw [length_replicate]
    rfl
  intro reads
  have sized : ∀ tuple ∈ replicate 2000 (repeatedTuple 2 (filledHash 1)),
      tuple.hashes.length = 2 := length_hashes_of_repeated
  obtain ⟨_, _, _, echoes⟩ := (fresh.roundTrips_iff _ sized counted holds).mp reads
  obtain ⟨key, data, last, stored, _⟩ := echoes ⟨0, length⟩
  have ones := eq_of_mem_repeated (mem_of_getLast? last)
  rw [oneBlockStore, ones, if_neg (by decide)] at stored
  cases stored

end Liboffs.OffStreams

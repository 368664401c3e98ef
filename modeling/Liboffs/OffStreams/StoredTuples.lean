import Liboffs.OffStreams.Storing

/-!
# The tuples of a stored file

A stream that stores a file goes through three phases: it is written to, it
has been finalized and waits for random blocks, and it is done.  Each step
keeps what holds in the phase or leads to the next one, and each step adds
one to a count that the length of the file bounds.
-/

namespace Liboffs.OffStreams

open BlockCache Library Library.ByteOrder Library.Runs List WriteableOffStream

/-- The bytes that the stream holds or has stored. -/
def WriteableOffStream.content (stream : WriteableOffStream) : Bytes :=
  fileContent stream.entries stream.accumulator stream.sent

/-- The bytes written, followed by less than a block. -/
def Padded (stream : WriteableOffStream) : Prop :=
  ∃ padding, padding.length < stream.blockType.bytes ∧ stream.content = stream.hashState ++ padding

/-- The hash of the final block is the last of the hashes and no other. -/
def LastIs : Option Block → List Hash → Prop
  | none, _ => True
  | some block, hashes => ∃ before, hashes = before ++ [block.hash] ∧ block.hash ∉ before

def waitingHashes (entries : List TupleEntry) : List Hash :=
  entries.map fun entry => entry.origin.hash

/-- Chunks are still being written. -/
structure Filling (state : Storing) : Prop where
  unfinished : state.finalized = false
  active : state.stream.isDeactivated = false
  pending : state.stream.pendingFinalize = false
  final : state.stream.finalBlock = none
  completed : state.stream.completed = false
  pulled : state.stream.hasPulled = true ↔ state.stream.entries ≠ []
  content : state.stream.content = state.stream.hashState

/-- The stream is finalized and waits for random blocks. -/
structure Closing (state : Storing) : Prop where
  finalized : state.finalized = true
  written : state.remaining = []
  active : state.stream.isDeactivated = false
  pending : state.stream.pendingFinalize = true
  completed : state.stream.completed = false
  waiting : state.stream.entries ≠ []
  pulled : state.stream.hasPulled = true
  empty : state.stream.accumulator = []
  last : LastIs state.stream.finalBlock (waitingHashes state.stream.entries)
  padded : Padded state.stream

/-- All tuples have been sent. -/
structure Done (state : Storing) : Prop where
  finalized : state.finalized = true
  written : state.remaining = []
  completed : state.stream.completed = true
  stored : state.stream.entries = []
  pulled : state.stream.hasPulled = false
  empty : state.stream.accumulator = []
  padded : Padded state.stream

/-- What holds of a stream that stores the chunks, in every phase. -/
structure StoreInvariant (hashData : Bytes → Hash) (type : BlockSize)
    (tupleSize : Nat) (chunks : List Bytes) (state : Storing) : Prop where
  type_eq : state.stream.blockType = type
  size_eq : state.stream.tupleSize = tupleSize
  ready : state.stream.currentRecipe.isSome = true
  sound : Sound hashData type tupleSize state.stream.entries
    state.stream.accumulator state.stream.sent
  written : ∃ before, chunks = before ++ state.remaining ∧ state.stream.hashState = before.flatten
  answered : state.unanswered.length ≤ (blocksPut state.stream.sent).length
  phase : Filling state ∨ Closing state ∨ Done state

/-- The number of steps that have led to a state. -/
def stepsTaken (tupleSize : Nat) (chunks : List Bytes) (state : Storing) : Nat :=
  (chunks.length - state.remaining.length) + state.finalized.toNat +
    (randomBlocksFor tupleSize * (tuplesCached state.stream.sent).length +
      randomBlocksHeld state.stream.entries) +
    ((blocksPut state.stream.sent).length - state.unanswered.length)

/-- A step that keeps the invariant and is counted. -/
def Counted (hashData : Bytes → Hash) (type : BlockSize) (tupleSize : Nat) (chunks : List Bytes)
    (state next : Storing) : Prop :=
  StoreInvariant hashData type tupleSize chunks next ∧
    stepsTaken tupleSize chunks next = stepsTaken tupleSize chunks state + 1

variable {result : WriteableOffStream} {effects : List WriterEffect}

section
variable (hashData : Bytes → Hash) {type : BlockSize} {tupleSize : Nat}
  {chunks : List Bytes} {state : Storing}

theorem receive_eq (state : Storing) (message : WriterMessage)
    (handled : writeableOffStreamDispatch hashData state.stream message = result)
    (sends : result.sent = state.stream.sent ++ effects) :
    state.receive hashData message =
      { state with
        stream := result
        unanswered := state.unanswered ++ (blocksPut effects).map Block.hash } := by
  unfold Storing.receive
  rw [handled]
  simp [sends]

/-- A step that writes a chunk. -/
theorem StoreInvariant.write (holds : StoreInvariant hashData type tupleSize chunks state)
    (filling : Filling state) (remaining : state.remaining = chunk :: rest) :
    Counted hashData type tupleSize chunks state
      ({ state with remaining := rest }.receive hashData (.write chunk)) := by
  obtain ⟨rfl, rfl, ready, sound, ⟨before, split, hashed⟩, answered, _⟩ := holds
  have cuts : CutTo hashData
      { state.stream with hashState := state.stream.hashState ++ chunk } chunk
      (writeableWrite hashData state.stream chunk) := by
    rw [writeableWrite, if_neg (by simp [filling.active])]
    exact writeLoop_cuts hashData _ chunk.length chunk ready sound.short (le_refl _)
  obtain ⟨blocks, left, readable, pulled, effects, quiet, cut, pulls, result⟩ := cuts
  rw [receive_eq hashData { state with remaining := rest } (.write chunk) result rfl]
  constructor
  · refine ⟨rfl, rfl, ready, ?_, ⟨before ++ [chunk], ?_, ?_⟩, ?_, .inl ?_⟩
    · exact (sound.accept cut.sized cut.short).quiet quiet
    · simp [split, remaining]
    · simp [hashed]
    · simpa [quiet.blocks] using answered
    · refine { filling with pulled := ?_, content := ?_ }
      · simp only [pulls, filling.pulled, ne_eq, append_eq_nil_iff, map_eq_nil_iff, not_and_or]
      · change fileContent _ _ _ = _
        rw [fileContent_quiet quiet, fileContent_accept cut.whole]
        congr 1
        exact filling.content
  · simp only [stepsTaken, randomBlocksHeld_accept, tuplesCached_append, blocksPut_append,
      quiet.cached, quiet.blocks, append_nil, map_nil, split, remaining, length_append, length_cons]
    omega

theorem quiet_fileHash (hash : Hash) : Quiet [.notify (.data (.fileHash hash))] where
  tuples := rfl
  blocks := rfl
  cached := rfl

theorem quiet_complete : Quiet [.notify .finished, .notify .complete, .notify .close] where
  tuples := rfl
  blocks := rfl
  cached := rfl

/-- The stream after its rest, with padding, has become the last entry. -/
def restAccepted (stream : WriteableOffStream) (padding : Bytes) : WriteableOffStream :=
  { stream with
    accumulator := []
    entries := stream.entries ++
      [originEntry hashData stream.tupleSize (stream.accumulator ++ padding)]
    finalBlock := some ⟨stream.accumulator ++ padding, hashData (stream.accumulator ++ padding)⟩
    hasPulled := true }

/-- A rest becomes the last entry, of a block that starts with it. -/
theorem acceptRest_eq (stream : WriteableOffStream) (frand : Nat → UInt8)
    (ready : stream.currentRecipe.isSome = true)
    (short : stream.accumulator.length < stream.blockType.bytes)
    (some_rest : stream.accumulator ≠ []) :
    ∃ padding effects, Quiet effects ∧
      (stream.accumulator ++ padding).length = stream.blockType.bytes ∧
      blockCreateByType hashData stream.accumulator stream.blockType frand =
        some ⟨stream.accumulator ++ padding, hashData (stream.accumulator ++ padding)⟩ ∧
      acceptRest hashData stream frand = (restAccepted hashData stream padding).send effects := by
  obtain ⟨block, made, proper, ⟨padding, whole⟩⟩ :=
    blockCreateByType_of_le hashData frand (le_of_lt short)
  have block_eq : block = ⟨stream.accumulator ++ padding,
      hashData (stream.accumulator ++ padding)⟩ := by
    cases block with
    | mk data hash =>
      rw [Block.mk.injEq]
      refine ⟨whole.symm, ?_⟩
      rw [whole]
      exact proper.hash
  rw [block_eq] at made proper
  obtain ⟨effects, quiet, pulls⟩ := getRandomBlocks_eq
    { restAccepted hashData stream padding with
      accumulator := stream.accumulator
      hasPulled := stream.hasPulled }
    ready
  refine ⟨padding, effects, quiet, proper.length, made, ?_⟩
  unfold acceptRest
  rw [if_neg (by simpa using some_rest), made]
  exact congrArg (fun pulled : WriteableOffStream => { pulled with accumulator := [] }) pulls

def hashSent (stream : WriteableOffStream) : WriteableOffStream :=
  stream.send [.notify (.data (.fileHash (hashData stream.hashState)))]

section
variable (stream : WriteableOffStream) (frand : Nat → UInt8)
include stream frand

section
variable (active : stream.isDeactivated = false)
include active

theorem writeableFinalize_of_active
    (rest_eq : acceptRest hashData (hashSent hashData stream) frand = rest) :
    writeableFinalize hashData stream frand =
      if rest.entries.isEmpty ∧ ¬ rest.hasPulled then
        writerComplete rest
      else
        { rest with pendingFinalize := true } := by
  rw [← rest_eq, writeableFinalize, if_neg (by simp [active])]
  rfl

/-- Without a rest, the stream is done or waits for its entries. -/
theorem writeableFinalize_of_empty (empty : stream.accumulator = [])
    (pulled : stream.hasPulled = true ↔ stream.entries ≠ []) :
    ∃ effects, Quiet effects ∧ writeableFinalize hashData stream frand =
        if stream.entries = [] then
          { stream with isDeactivated := true, completed := true, sent := stream.sent ++ effects }
        else
          { stream with
            pendingFinalize := true
            sent := stream.sent ++ effects } := by
  have rest : acceptRest hashData (hashSent hashData stream) frand = hashSent hashData stream := by
    unfold acceptRest
    rw [if_pos]
    change stream.accumulator.isEmpty = true
    rw [empty]
    rfl
  rw [writeableFinalize_of_active hashData stream frand active rest]
  have hash := quiet_fileHash (hashData stream.hashState)
  by_cases stored : stream.entries = []
  · refine ⟨_, hash.append quiet_complete, ?_⟩
    rw [if_pos stored, if_pos, ← append_assoc]
    · rfl
    · constructor
      · change stream.entries.isEmpty = true
        rw [stored]
        rfl
      · intro has
        exact pulled.mp has stored
  · refine ⟨_, hash, ?_⟩
    rw [if_neg stored, if_neg]
    · rfl
    · rintro ⟨none_left, _⟩
      exact stored (isEmpty_iff.mp none_left)

/-- With a rest, the stream waits for its entries. -/
theorem writeableFinalize_of_rest (ready : stream.currentRecipe.isSome = true)
    (short : stream.accumulator.length < stream.blockType.bytes)
    (some_rest : stream.accumulator ≠ []) :
    ∃ padding effects, Quiet effects ∧
      (stream.accumulator ++ padding).length = stream.blockType.bytes ∧
      blockCreateByType hashData stream.accumulator stream.blockType frand =
        some ⟨stream.accumulator ++ padding, hashData (stream.accumulator ++ padding)⟩ ∧
      writeableFinalize hashData stream frand =
        { restAccepted hashData stream padding with
          pendingFinalize := true
          sent := stream.sent ++ effects } := by
  obtain ⟨padding, effects, quiet, sized, made, rest⟩ := acceptRest_eq
    hashData (hashSent hashData stream) frand ready short some_rest
  refine ⟨padding, _, (quiet_fileHash (hashData stream.hashState)).append quiet, sized, made, ?_⟩
  rw [writeableFinalize_of_active hashData stream frand active rest, if_neg, ← append_assoc]
  · rfl
  · rintro ⟨_, waits⟩
    exact waits rfl

end

end

section
variable (holds : StoreInvariant hashData type tupleSize chunks state) (filling : Filling state)
  (remaining : state.remaining = []) (frand : Nat → UInt8)
include holds filling remaining frand

/-- A step that finalizes a stream without a rest. -/
theorem StoreInvariant.finalize_of_empty (empty : state.stream.accumulator = []) :
    Counted hashData type tupleSize chunks state
      ({ state with finalized := true }.receive hashData (.finalize frand)) := by
  obtain ⟨rfl, rfl, ready, sound, written, answered, _⟩ := holds
  obtain ⟨effects, quiet, result⟩ := writeableFinalize_of_empty hashData
    state.stream frand filling.active empty filling.pulled
  have padded : fileContent state.stream.entries state.stream.accumulator
      (state.stream.sent ++ effects) = state.stream.hashState ++ [] := by
    rw [fileContent_quiet quiet, append_nil]
    exact filling.content
  have positive := state.stream.blockType.bytes_pos
  by_cases stored : state.stream.entries = []
  · rw [if_pos stored] at result
    rw [receive_eq hashData { state with finalized := true } (.finalize frand) result rfl]
    constructor
    · refine ⟨rfl, rfl, ready, sound.quiet quiet, written, ?_,
        .inr (.inr ⟨rfl, remaining, rfl, stored, ?_, empty, [], positive, padded⟩)⟩
      · simpa [quiet.blocks] using answered
      · have idle : ¬ state.stream.hasPulled = true := fun has =>
          filling.pulled.mp has stored
        simpa using idle
    · simp only [stepsTaken, tuplesCached_append, blocksPut_append, quiet.cached, quiet.blocks,
        append_nil, map_nil, filling.unfinished, Bool.toNat_true, Bool.toNat_false]
      omega
  · rw [if_neg stored] at result
    rw [receive_eq hashData { state with finalized := true } (.finalize frand) result rfl]
    constructor
    · refine ⟨rfl, rfl, ready, sound.quiet quiet, written, ?_,
        .inr (.inl ⟨rfl, remaining, filling.active, rfl, filling.completed,
          stored, filling.pulled.mpr stored, empty, ?_, [], positive, padded⟩)⟩
      · simpa [quiet.blocks] using answered
      · rw [filling.final]
        trivial
    · simp only [stepsTaken, tuplesCached_append, blocksPut_append, quiet.cached, quiet.blocks,
        append_nil, map_nil, filling.unfinished, Bool.toNat_true, Bool.toNat_false]
      omega

theorem StoreInvariant.finalize_of_rest (some_rest : state.stream.accumulator ≠ [])
    (differs : LastDiffers hashData state (.finalize frand)) :
    Counted hashData type tupleSize chunks state
      ({ state with finalized := true }.receive hashData (.finalize frand)) := by
  obtain ⟨rfl, rfl, ready, sound, written, answered, _⟩ := holds
  obtain ⟨padding, effects, quiet, sized, made, result⟩ :=
    writeableFinalize_of_rest hashData state.stream frand filling.active ready sound.short some_rest
  have positive := state.stream.blockType.bytes_pos
  have whole : state.stream.accumulator ++ padding =
      [state.stream.accumulator ++ padding].flatten ++ [] := by
    simp
  have accepted : Sound hashData state.stream.blockType state.stream.tupleSize
      (state.stream.entries ++ [state.stream.accumulator ++ padding].map
        (originEntry hashData state.stream.tupleSize)) []
      state.stream.sent :=
    sound.accept (by simpa using sized) positive
  rw [receive_eq hashData { state with finalized := true } (.finalize frand) result rfl]
  constructor
  · refine ⟨rfl, rfl, ready, accepted.quiet quiet, written, ?_,
      .inr (.inl ⟨rfl, remaining, filling.active, rfl, filling.completed,
        ?_, rfl, rfl, ?_, padding, ?_, ?_⟩)⟩
    · simpa [quiet.blocks] using answered
    · simp [restAccepted]
    · refine ⟨waitingHashes state.stream.entries, ?_, ?_⟩
      · simp [restAccepted, waitingHashes, originEntry, entryCreate]
      · intro among
        obtain ⟨entry, member, same⟩ := mem_map.mp among
        exact differs _ some_rest made entry member same
    · rw [length_append] at sized
      have some_bytes := length_pos_iff.mpr some_rest
      change padding.length < state.stream.blockType.bytes
      omega
    · change fileContent (state.stream.entries ++ [state.stream.accumulator ++ padding].map
          (originEntry hashData state.stream.tupleSize)) [] _ = _
      rw [fileContent_quiet quiet, fileContent_accept whole]
      congr 1
      exact filling.content
  · have held := randomBlocksHeld_accept hashData state.stream.tupleSize
      state.stream.entries [state.stream.accumulator ++ padding]
    rw [map_singleton] at held
    simp only [stepsTaken, restAccepted, held, tuplesCached_append, blocksPut_append, quiet.cached,
      quiet.blocks, append_nil, map_nil, filling.unfinished, Bool.toNat_true, Bool.toNat_false]
    omega

end

section
variable (stream : WriteableOffStream)
include stream

theorem recipeBlockData_of_waiting (block : Block) (active : stream.isDeactivated = false)
    (ready : stream.currentRecipe.isSome = true) (entries : stream.entries = first :: rest)
    (fits : EntryFits hashData stream.blockType stream.tupleSize first)
    (waits : first.randomBlocks.length + 1 < randomBlocksFor stream.tupleSize) :
    ∃ created effects, Quiet effects ∧ recipeBlockData hashData stream block =
        { stream with
          hasPulled := true
          createdHashes := created
          entries := { first with randomBlocks := first.randomBlocks ++ [block] } :: rest
          sent := stream.sent ++ effects } := by
  obtain ⟨created, recorded⟩ := recordDelivered_eq { stream with hasPulled := false } block.hash
  obtain ⟨effects, quiet, pulls⟩ := getRandomBlocks_eq
    { stream with
      hasPulled := false
      createdHashes := created
      entries := { first with randomBlocks := first.randomBlocks ++ [block] } :: rest }
    ready
  refine ⟨created, effects, quiet, ?_⟩
  have incomplete : ¬ first.randomCapacity ≤ ((first.randomBlocks ++ [block]).length : Nat) := by
    rw [fits.capacity]
    rw [randomBlocksFor] at waits
    rw [length_append, length_singleton]
    omega
  unfold recipeBlockData
  simp only [entries] at recorded ⊢
  rw [if_neg (by simp [active]), if_neg incomplete, recorded]
  exact pulls

/-- The last block for an entry, whose tuple is sent. -/
theorem recipeBlockData_of_last
    (active : stream.isDeactivated = false) (entries : stream.entries = first :: rest)
    (fits : EntryFits hashData stream.blockType stream.tupleSize first)
    (proper : Proper hashData stream.blockType block)
    (last : first.randomBlocks.length + 1 = randomBlocksFor stream.tupleSize) :
    ∃ created tuple offBlock effects, StoresTuple hashData stream.blockType stream.tupleSize
        { first with randomBlocks := first.randomBlocks ++ [block] } tuple
        offBlock effects ∧
      recipeBlockData hashData stream block = afterTuple
          { stream with
            hasPulled := false
            createdHashes := created
            entries := rest
            sent := stream.sent ++ effects }
          { first with randomBlocks := first.randomBlocks ++ [block] } := by
  obtain ⟨delivered, recorded⟩ := recordDelivered_eq { stream with hasPulled := false } block.hash
  obtain ⟨created, tuple, offBlock, effects, stores, creates⟩ :=
    createTuple_eq hashData
      { stream with hasPulled := false, createdHashes := delivered, entries := rest }
      (fits.deliver hashData proper)
  refine ⟨created, tuple, offBlock, effects, stores, ?_⟩
  have complete : first.randomCapacity ≤ ((first.randomBlocks ++ [block]).length : Nat) := by
    rw [fits.capacity]
    rw [randomBlocksFor] at last
    rw [length_append, length_singleton]
    omega
  unfold recipeBlockData
  simp only [entries] at recorded ⊢
  rw [if_neg (by simp [active]), if_pos complete, recorded]
  exact creates

/-- An entry that is not the last one is followed by the next pull. -/
theorem afterTuple_of_more (entry : TupleEntry)
    (other : isFinal stream entry = false) (active : stream.isDeactivated = false)
    (ready : stream.currentRecipe.isSome = true) (more : stream.entries ≠ []) :
    ∃ effects, Quiet effects ∧ afterTuple stream entry =
        { stream with
          hasPulled := true
          sent := stream.sent ++ effects } := by
  unfold afterTuple
  rw [if_neg (by simp [other]), if_pos (by simp [more, active])]
  exact getRandomBlocks_eq stream ready

/-- The last entry ends the stream. -/
theorem afterTuple_of_end (entry : TupleEntry) (none_left : stream.entries = [])
    (pulled : stream.hasPulled = false) (pending : stream.pendingFinalize = true) :
    ∃ final pending effects, Quiet effects ∧ afterTuple stream entry =
        { stream with
          finalBlock := final
          pendingFinalize := pending
          isDeactivated := true
          completed := true
          sent := stream.sent ++ effects } := by
  unfold afterTuple
  by_cases last : isFinal stream entry = true
  · rw [if_pos last]
    exact ⟨none, stream.pendingFinalize, _, quiet_complete, rfl⟩
  · rw [if_neg last, if_neg (by simp [none_left]), maybeFinalize,
      if_pos (by simp [pending, none_left, pulled])]
    exact ⟨stream.finalBlock, false, _, quiet_complete, rfl⟩

end

/-- A hash before the last one is not taken for it. -/
theorem LastIs.cons (last : LastIs final (first :: rest)) (more : rest ≠ []) :
    LastIs final rest ∧ ∀ block, final = some block → first ≠ block.hash := by
  cases final with
  | none =>
    constructor
    · trivial
    · rintro block ⟨⟩
  | some block =>
    obtain ⟨before, split, others⟩ := last
    cases before with
    | nil =>
      rw [nil_append, List.cons.injEq] at split
      exact absurd split.2 more
    | cons head before =>
      obtain ⟨rfl, rfl⟩ := split
      rw [mem_cons, not_or] at others
      constructor
      · exact ⟨before, rfl, others.2⟩
      · rintro _ ⟨⟩
        exact Ne.symm others.1

theorem isFinal_eq_false (stream : WriteableOffStream) (entry : TupleEntry)
    (other : ∀ block, stream.finalBlock = some block → entry.origin.hash ≠ block.hash) :
    isFinal stream entry = false := by
  unfold isFinal
  cases final : stream.finalBlock with
  | none => rfl
  | some block => simpa using other block final

/-- A stream that went on with some entries, apart from its flags. -/
structure Follows (stream result : WriteableOffStream)
    (entries : List TupleEntry) (effects : List WriterEffect) : Prop where
  type : result.blockType = stream.blockType
  size : result.tupleSize = stream.tupleSize
  recipe : result.currentRecipe = stream.currentRecipe
  accumulator : result.accumulator = stream.accumulator
  hashState : result.hashState = stream.hashState
  entries : result.entries = entries
  sent : result.sent = stream.sent ++ effects

theorem writerPutResult_of_accepted
    (stream : WriteableOffStream) (fresh promoted : Bool) (hash : Hash) (fib : UInt32) :
    ∃ effects, Quiet effects ∧
      writerPutResult stream (if fresh then .new else .exists) promoted hash fib =
        { stream with sent := stream.sent ++ effects } := by
  have nothing : stream = { stream with sent := stream.sent ++ [] } := by rw [append_nil]
  cases fresh with
  | true =>
    change ∃ effects, Quiet effects ∧
      (if stream.hasNetwork ∧ ¬ stream.isEphemeral then _ else _) = _
    split
    · exact ⟨_, ⟨rfl, rfl, rfl⟩, rfl⟩
    · exact ⟨[], .nil, nothing⟩
  | false =>
    change ∃ effects, Quiet effects ∧ (if promoted ∧ stream.hasNetwork then _ else _) = _
    split
    · exact ⟨_, ⟨rfl, rfl, rfl⟩, rfl⟩
    · exact ⟨[], .nil, nothing⟩

section
variable (holds : StoreInvariant hashData type tupleSize chunks state)
include holds

theorem StoreInvariant.deliver_of_waiting (active : state.stream.isDeactivated = false)
    (entries : state.stream.entries = first :: rest) (proper : Proper hashData type block)
    (waits : first.randomBlocks.length + 1 < randomBlocksFor tupleSize) :
    Counted hashData type tupleSize chunks state
      (state.receive hashData (.recipeBlockData block)) := by
  obtain ⟨rfl, rfl, ready, sound, written, answered, phase⟩ := holds
  rw [entries] at sound
  obtain ⟨created, effects, quiet, result⟩ := recipeBlockData_of_waiting
    hashData state.stream block active ready entries (sound.fits first mem_cons_self) waits
  have content : fileContent ({ first with randomBlocks := first.randomBlocks ++ [block] } :: rest)
      state.stream.accumulator (state.stream.sent ++ effects) = state.stream.content := by
    rw [fileContent_quiet quiet, content, entries]
    rfl
  rw [receive_eq hashData state (.recipeBlockData block) result rfl]
  constructor
  · refine ⟨rfl, rfl, ready, (sound.deliver proper waits).quiet quiet, written, ?_, ?_⟩
    · simpa [quiet.blocks] using answered
    · rcases phase with filling | closing | done
      · refine .inl { filling with pulled := ?_, content := ?_ }
        · simp
        · exact content.trans filling.content
      · obtain ⟨padding, small, padded⟩ := closing.padded
        have last := closing.last
        rw [entries] at last
        exact .inr (.inl
          { closing with
            waiting := cons_ne_nil _ _
            pulled := rfl
            last := last
            padded := ⟨padding, small, content.trans padded⟩ })
      · rw [done.stored] at entries
        cases entries
  · simp only [stepsTaken, entries, randomBlocksHeld_cons, tuplesCached_append, blocksPut_append,
      quiet.cached, quiet.blocks, append_nil, map_nil, length_append, length_singleton]
    omega

/-- A step that stores a tuple, in terms of the phase it leads to. -/
theorem StoreInvariant.store (entries : state.stream.entries = first :: rest)
    (last : first.randomBlocks.length + 1 = randomBlocksFor tupleSize)
    (stores : StoresTuple hashData type tupleSize
      { first with randomBlocks := first.randomBlocks ++ [block] } tuple offBlock effects)
    (quiet : Quiet more) (handled : recipeBlockData hashData state.stream block = result)
    (follows : Follows state.stream result rest (effects ++ more))
    (phase : result.content = state.stream.content → ∀ unanswered,
        Filling { state with stream := result, unanswered := unanswered } ∨
        Closing { state with stream := result, unanswered := unanswered } ∨
        Done { state with stream := result, unanswered := unanswered }) :
    Counted hashData type tupleSize chunks state
      (state.receive hashData (.recipeBlockData block)) := by
  have sound := holds.sound
  rw [entries] at sound
  have stored := (sound.store last stores).quiet quiet
  rw [append_assoc] at stored
  rw [receive_eq hashData state (.recipeBlockData block) handled follows.sent]
  constructor
  · refine ⟨follows.type.trans holds.type_eq,
      follows.size.trans holds.size_eq, ?_, ?_, ?_, ?_, phase ?_ _⟩
    · rw [follows.recipe]
      exact holds.ready
    · rw [follows.entries, follows.accumulator, follows.sent]
      exact stored
    · obtain ⟨before, split, hashed⟩ := holds.written
      exact ⟨before, split, follows.hashState.trans hashed⟩
    · have answered := holds.answered
      simp only [follows.sent, blocksPut_append, length_append, length_map]
      omega
    · rw [content, content,
        follows.entries, follows.accumulator, follows.sent, entries,
        ← append_assoc, fileContent_quiet quiet]
      simp [fileContent, stores.cached]
  · have held := sound.randomBlocksHeld_tail
    simp only [stepsTaken, follows.sent, follows.entries, held, entries, randomBlocksHeld_cons,
      tuplesCached_append, blocksPut_append, quiet.cached, quiet.blocks, stores.cached, append_nil,
      length_append, length_map, length_singleton, mul_add, ← last]
    omega

/-- A step that delivers the last block of an entry. -/
theorem StoreInvariant.deliver_of_last (active : state.stream.isDeactivated = false)
    (entries : state.stream.entries = first :: rest) (proper : Proper hashData type block)
    (last : first.randomBlocks.length + 1 = randomBlocksFor tupleSize) :
    Counted hashData type tupleSize chunks state
      (state.receive hashData (.recipeBlockData block)) := by
  have kept := holds
  obtain ⟨rfl, rfl, ready, sound, written, answered, phase⟩ := holds
  rw [entries] at sound
  obtain ⟨created, tuple, offBlock, effects, stores, handled⟩ :=
    recipeBlockData_of_last hashData state.stream active entries
      (sound.fits first mem_cons_self) proper last
  let stored : WriteableOffStream :=
    { state.stream with
      hasPulled := false
      createdHashes := created
      entries := rest
      sent := state.stream.sent ++ effects }
  let entry : TupleEntry := { first with randomBlocks := first.randomBlocks ++ [block] }
  rcases phase with filling | closing | done
  · have other : isFinal stored entry = false := by
      apply isFinal_eq_false
      intro final is_final
      cases filling.final.symm.trans is_final
    by_cases none_left : rest = []
    · have after : afterTuple stored entry = stored := by
        unfold afterTuple maybeFinalize
        rw [if_neg (by simp [other]), if_neg (by simp [stored, none_left]),
          if_neg (by simp [stored, filling.pending])]
      apply kept.store hashData entries last stores .nil (handled.trans after)
      · exact ⟨rfl, rfl, rfl, rfl, rfl, rfl, by simp [stored]⟩
      · intro content unanswered
        refine .inl { filling with pulled := ?_, content := content.trans filling.content }
        simp [stored, none_left]
    · obtain ⟨more, quiet, after⟩ := afterTuple_of_more stored entry other active ready none_left
      apply kept.store hashData entries last stores quiet (handled.trans after)
      · exact ⟨rfl, rfl, rfl, rfl, rfl, rfl, by simp [stored]⟩
      · intro content unanswered
        refine .inl { filling with pulled := ?_, content := content.trans filling.content }
        simp [stored, none_left]
  · obtain ⟨padding, small, padded⟩ := closing.padded
    by_cases none_left : rest = []
    · obtain ⟨final, pending, more, quiet, after⟩ := afterTuple_of_end
        stored entry none_left rfl closing.pending
      apply kept.store hashData entries last stores quiet (handled.trans after)
      · exact ⟨rfl, rfl, rfl, rfl, rfl, rfl, by simp [stored]⟩
      · intro content unanswered
        exact .inr (.inr ⟨closing.finalized, closing.written, rfl,
          none_left, rfl, closing.empty, padding, small, content.trans padded⟩)
    · have lasts := closing.last
      rw [entries] at lasts
      have more_hashes : waitingHashes rest ≠ [] := by simpa [waitingHashes] using none_left
      have later := lasts.cons more_hashes
      have other : isFinal stored entry = false := isFinal_eq_false stored entry later.2
      obtain ⟨more, quiet, after⟩ := afterTuple_of_more stored entry other active ready none_left
      apply kept.store hashData entries last stores quiet (handled.trans after)
      · exact ⟨rfl, rfl, rfl, rfl, rfl, rfl, by simp [stored]⟩
      · intro content unanswered
        exact .inr (.inl
          { closing with
            waiting := none_left
            pulled := rfl
            last := later.1
            padded := ⟨padding, small, content.trans padded⟩ })
  · rw [done.stored] at entries
    cases entries

/-- A step that answers a put. -/
theorem StoreInvariant.accepted {position : Nat} {hash : Hash}
    (waiting : state.unanswered[position]? = some hash) (fresh promoted : Bool) (fib : UInt32) :
    Counted hashData type tupleSize chunks state
      ({ state with unanswered := state.unanswered.eraseIdx position }.receive hashData
        (.cachePutResult (if fresh then .new else .exists) promoted hash fib)) := by
  obtain ⟨effects, quiet, result⟩ := writerPutResult_of_accepted
    state.stream fresh promoted hash fib
  have within := (List.getElem?_eq_some_iff.mp waiting).1
  have shorter := length_eraseIdx_of_lt within
  have answered := holds.answered
  have content : fileContent state.stream.entries state.stream.accumulator
      (state.stream.sent ++ effects) = state.stream.content :=
    fileContent_quiet quiet
  rw [receive_eq hashData
    { state with unanswered := state.unanswered.eraseIdx position }
    (.cachePutResult (if fresh then .new else .exists) promoted hash fib)
    result rfl]
  constructor
  · refine { holds with sound := holds.sound.quiet quiet, answered := ?_, phase := ?_ }
    · simp only [blocksPut_append, quiet.blocks, append_nil, map_nil, shorter]
      omega
    · rcases holds.phase with filling | closing | done
      · exact .inl { filling with content := content.trans filling.content }
      · obtain ⟨padding, small, padded⟩ := closing.padded
        exact .inr (.inl { closing with padded := ⟨padding, small, content.trans padded⟩ })
      · obtain ⟨padding, small, padded⟩ := done.padded
        exact .inr (.inr { done with padded := ⟨padding, small, content.trans padded⟩ })
  · simp only [stepsTaken, tuplesCached_append, blocksPut_append,
      quiet.cached, quiet.blocks, append_nil, map_nil, shorter]
    omega

end

theorem StoreInvariant.step (holds : StoreInvariant hashData type tupleSize chunks state)
    (label : StoreStep) {next : Storing} (differs : LastDiffers hashData state label)
    (stepped : storeStep hashData state label = some next) :
    Counted hashData type tupleSize chunks state next := by
  obtain ⟨base, message, sends, rfl⟩ := storeStep_sends stepped
  cases sends with
  | write remaining =>
    rcases holds.phase with filling | closing | done
    · exact holds.write hashData filling remaining
    · cases closing.written.symm.trans remaining
    · cases done.written.symm.trans remaining
  | finalize frand written unfinished =>
    rcases holds.phase with filling | closing | done
    · by_cases empty : state.stream.accumulator = []
      · exact holds.finalize_of_empty hashData filling written frand empty
      · exact holds.finalize_of_rest hashData filling written frand empty differs
    · cases closing.finalized.symm.trans unfinished
    · cases done.finalized.symm.trans unfinished
  | deliver data pulled size =>
    have proper : Proper hashData type ⟨data, hashData data⟩ :=
      ⟨size.trans (congrArg BlockSize.bytes holds.type_eq), rfl⟩
    obtain ⟨active, waiting⟩ : state.stream.isDeactivated = false ∧ state.stream.entries ≠ [] := by
      rcases holds.phase with filling | closing | done
      · exact ⟨filling.active, filling.pulled.mp pulled⟩
      · exact ⟨closing.active, closing.waiting⟩
      · cases done.pulled.symm.trans pulled
    obtain ⟨first, rest, entries⟩ := exists_cons_of_ne_nil waiting
    have waits := holds.sound.waits first (by simp [entries])
    rcases Nat.lt_or_eq_of_le (Nat.succ_le_of_lt waits) with more | last
    · exact holds.deliver_of_waiting hashData active entries proper more
    · exact holds.deliver_of_last hashData active entries proper last
  | accepted waiting fresh promoted fib => exact holds.accepted hashData waiting fresh promoted fib

end

variable {recipes : List BlockRecipe}

section
variable {hashData : Bytes → Hash} {type : BlockSize} {tupleSize : Nat}
  {chunks : List Bytes} {state : Storing}

theorem StoreInvariant.start (hashData : Bytes → Hash) (type : BlockSize) (tupleSize : Nat)
    (chunks : List Bytes) (some_recipe : recipes ≠ []) (hasNetwork isEphemeral : Bool)
    (putGroup : UInt32) :
    StoreInvariant hashData type tupleSize chunks
      (.start (writeableOffStreamCreate type tupleSize recipes hasNetwork
        isEphemeral putGroup) chunks) := by
  refine ⟨rfl, rfl, ?_, ?_, ⟨[], rfl, rfl⟩, le_refl _, .inl ?_⟩
  · change recipes.head?.isSome = true
    simpa using some_recipe
  · exact ⟨type.bytes_pos, nofun, nofun, nofun, rfl, nofun, rfl, fun _ => nofun⟩
  · exact ⟨rfl, rfl, rfl, rfl, rfl, by simp [Storing.start, writeableOffStreamCreate], rfl⟩

/-- The number of blocks that so many bytes take. -/
def blockCount (type : BlockSize) (length : Nat) : Nat :=
  (length + type.bytes - 1) / type.bytes

theorem length_flatten_of_sized {strings : List Bytes} {size : Nat}
    (sized : ∀ string ∈ strings, string.length = size) :
    strings.flatten.length = strings.length * size := by
  induction strings with
  | nil => simp
  | cons string rest ih =>
    rw [flatten_cons, length_append, length_cons, sized string mem_cons_self,
      ih fun other among => sized other (mem_cons_of_mem _ among),
      Nat.succ_mul, add_comm]

def storeBound (type : BlockSize) (tupleSize : Nat) (chunks : List Bytes) : Nat :=
  let blocks := blockCount type chunks.flatten.length
  chunks.length + 1 + randomBlocksFor tupleSize * blocks + (randomBlocksFor tupleSize + 1) * blocks

/-- The effects of a stream that has stored some bytes. -/
structure StoredFile (hashData : Bytes → Hash) (type : BlockSize)
    (bytes : Bytes) (sent : List WriterEffect) : Prop where
  tuples : (tuplesCached sent).map Prod.fst = tuplesOf sent
  origins : ∃ padding, padding.length < type.bytes ∧
    ((tuplesCached sent).map Prod.snd).flatten = bytes ++ padding
  sized : ∀ pair ∈ tuplesCached sent, pair.2.length = type.bytes
  encodes : ∀ pair ∈ tuplesCached sent, ∃ blocks,
    Encodes hashData type (blocksPut sent) pair.1 pair.2 blocks

section
variable (holds : StoreInvariant hashData type tupleSize chunks state)
include holds

/-- The bytes of a stream are those written and less than a block. -/
theorem StoreInvariant.padded : Padded state.stream := by
  rcases holds.phase with filling | closing | done
  · refine ⟨[], BlockSize.bytes_pos _, ?_⟩
    rw [append_nil]
    exact filling.content
  · exact closing.padded
  · exact done.padded

/-- There are not more tuples and entries than blocks of the file. -/
theorem StoreInvariant.blocks_le :
    (tuplesCached state.stream.sent).length + state.stream.entries.length ≤
      blockCount type chunks.flatten.length := by
  obtain ⟨padding, small, padded⟩ := holds.padded
  obtain ⟨before, split, hashed⟩ := holds.written
  have stored : ((tuplesCached state.stream.sent).map Prod.snd).flatten.length =
        (tuplesCached state.stream.sent).length * type.bytes := by
    rw [length_flatten_of_sized, length_map]
    intro origin among
    obtain ⟨pair, member, rfl⟩ := mem_map.mp among
    exact holds.sound.sized pair member
  have waiting : (state.stream.entries.map fun entry => entry.origin.data).flatten.length =
        state.stream.entries.length * type.bytes := by
    rw [length_flatten_of_sized, length_map]
    intro origin among
    obtain ⟨entry, member, rfl⟩ := mem_map.mp among
    exact (holds.sound.fits entry member).origin.length
  have whole := congrArg List.length padded
  rw [content, fileContent, length_append,
    length_append, stored, waiting, length_append, hashed] at whole
  have total : before.flatten.length ≤ chunks.flatten.length := by
    rw [split, flatten_append, length_append]
    exact Nat.le_add_right _ _
  rw [holds.type_eq] at small
  rw [blockCount, Nat.le_div_iff_mul_le type.bytes_pos, Nat.add_mul]
  omega

theorem StoreInvariant.stepsTaken_le :
    stepsTaken tupleSize chunks state ≤ storeBound type tupleSize chunks := by
  have blocks := holds.blocks_le
  have finalized : state.finalized.toNat ≤ 1 := Bool.toNat_le _
  have delivered : randomBlocksFor tupleSize * (tuplesCached state.stream.sent).length +
        randomBlocksHeld state.stream.entries ≤
      randomBlocksFor tupleSize * blockCount type chunks.flatten.length := by
    have held : randomBlocksHeld state.stream.entries ≤ randomBlocksFor tupleSize *
        state.stream.entries.length := by
      cases entries : state.stream.entries with
      | nil => exact Nat.zero_le _
      | cons first rest =>
        have waits := holds.sound.waits first (by simp [entries])
        exact le_trans (le_of_lt waits) (Nat.le_add_left _ _)
    have scaled := Nat.mul_le_mul_left (randomBlocksFor tupleSize) blocks
    rw [Nat.mul_add] at scaled
    omega
  have puts : (blocksPut state.stream.sent).length ≤ (randomBlocksFor tupleSize + 1) *
        blockCount type chunks.flatten.length := by
    rw [holds.sound.puts]
    exact Nat.mul_le_mul_left _ (by omega)
  rw [stepsTaken, storeBound]
  omega

/-- A stream that can make no step is done, and its puts are answered. -/
theorem StoreInvariant.done_of_stuck (stuck : Stuck (storeStep hashData) state) :
    Done state ∧ state.unanswered = [] := by
  constructor
  · rcases holds.phase with filling | closing | done
    · cases remaining : state.remaining with
      | nil =>
        have finalizes := stuck (.finalize fun _ => 0)
        rw [storeStep, if_pos ⟨remaining, filling.unfinished⟩] at finalizes
        cases finalizes
      | cons chunk rest =>
        have writes := stuck .write
        rw [storeStep, remaining] at writes
        cases writes
    · have delivers := stuck (.deliver (List.replicate state.stream.blockType.bytes 0))
      rw [storeStep, if_pos ⟨closing.pulled, length_replicate⟩] at delivers
      cases delivers
    · exact done
  · cases unanswered : state.unanswered with
    | nil => rfl
    | cons hash rest =>
      have answers := stuck (.accepted 0 true false 0)
      rw [storeStep, unanswered] at answers
      cases answers

theorem StoreInvariant.storedFile (done : Done state) (large : 2 ≤ tupleSize) :
    StoredFile hashData type chunks.flatten state.stream.sent := by
  obtain ⟨padding, small, padded⟩ := done.padded
  obtain ⟨before, split, hashed⟩ := holds.written
  refine ⟨holds.sound.cached, ⟨padding, ?_, ?_⟩, holds.sound.sized, holds.sound.encodes large⟩
  · rw [holds.type_eq] at small
    exact small
  · rw [content, fileContent, done.stored, done.empty, hashed] at padded
    rw [done.written, append_nil] at split
    rw [split]
    simpa using padded

end

/-- A file is stored in a bounded number of steps, if the last block has a hash of its own. -/
theorem storing_ends (some_recipe : recipes ≠ []) (large : 2 ≤ tupleSize)
    (hasNetwork isEphemeral : Bool) (putGroup : UInt32) {steps : List StoreStep} {final : Storing}
    (differs : EachStep (storeStep hashData) (LastDiffers hashData)
      (.start (writeableOffStreamCreate type tupleSize recipes hasNetwork
        isEphemeral putGroup) chunks) steps) (reached : steps.foldlM (storeStep hashData)
      (.start (writeableOffStreamCreate type tupleSize recipes hasNetwork
        isEphemeral putGroup) chunks) = some final) :
    steps.length ≤ storeBound type tupleSize chunks ∧ (Stuck (storeStep hashData) final →
        final.stream.completed = true ∧ final.unanswered = [] ∧
        StoredFile hashData type chunks.flatten final.stream.sent) := by
  have initial := StoreInvariant.start hashData type tupleSize chunks
    some_recipe hasNetwork isEphemeral putGroup
  have keeps : ∀ state label next, StoreInvariant hashData type tupleSize chunks state →
      LastDiffers hashData state label → storeStep hashData state label = some next →
      StoreInvariant hashData type tupleSize chunks next :=
    fun state label next holds met stepped => (holds.step hashData label met stepped).1
  constructor
  · apply le_trans (differs.length_le (fun state => storeBound type tupleSize chunks -
        stepsTaken tupleSize chunks state) keeps ?_ initial reached)
    · exact Nat.sub_le _ _
    · intro state label next holds met stepped
      obtain ⟨kept, counted⟩ := holds.step hashData label met stepped
      have bounded := kept.stepsTaken_le
      omega
  · intro stuck
    have holds := differs.foldlM keeps initial reached
    have ended := holds.done_of_stuck stuck
    exact ⟨ended.1.completed, ended.2, holds.storedFile ended.1 large⟩

end

end Liboffs.OffStreams

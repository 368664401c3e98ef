import Liboffs.Library.Runs
import Liboffs.OffStreams.WriteableOffStream

/-!
# Storing a file

A file is written to a writeable OFF stream in chunks and finalized, while the recipe answers the
pulls and the cache accepts the puts, in any order.

Every run ends.  If the last block, filled up with random bytes, does not have the hash of a block
still waiting, then at the end there is a tuple for every block of the file, in order, whose
blocks add up to it.
-/

namespace Liboffs.OffStreams

open BlockCache Library Library.ByteOrder Library.XorBytes List

/-- The tuples among the effects. -/
def tuplesOf (effects : List WriterEffect) : List Tuple :=
  effects.filterMap fun
    | .notify (.data (.tuple tuple)) => some tuple
    | _ => none

def blocksPut (effects : List WriterEffect) : List Block :=
  effects.filterMap fun
    | .put block _ => some block
    | .putEphemeral block => some block
    | _ => none

def tuplesCached (effects : List WriterEffect) : List (Tuple × Bytes) :=
  effects.filterMap fun
    | .tupleCachePut tuple value => some (tuple, value)
    | _ => none

@[simp]
theorem tuplesOf_append (first : List WriterEffect) :
    tuplesOf (first ++ second) = tuplesOf first ++ tuplesOf second :=
  filterMap_append

@[simp]
theorem blocksPut_append (first second : List WriterEffect) :
    blocksPut (first ++ second) = blocksPut first ++ blocksPut second :=
  filterMap_append

@[simp]
theorem tuplesCached_append (first second : List WriterEffect) :
    tuplesCached (first ++ second) = tuplesCached first ++ tuplesCached second :=
  filterMap_append

/-- Effects that concern neither tuples nor blocks. -/
structure Quiet (effects : List WriterEffect) : Prop where
  tuples : tuplesOf effects = []
  blocks : blocksPut effects = []
  cached : tuplesCached effects = []

theorem Quiet.nil : Quiet [] where
  tuples := rfl
  blocks := rfl
  cached := rfl

theorem Quiet.append (left : Quiet first) (right : Quiet second) : Quiet (first ++ second) where
  tuples := by simp [left.tuples, right.tuples]
  blocks := by simp [left.blocks, right.blocks]
  cached := by simp [left.cached, right.cached]

/-- A stream, the chunks to be written, and the puts not yet answered. -/
structure Storing where
  stream : WriteableOffStream
  remaining : List Bytes
  finalized : Bool
  unanswered : List Hash

/-- What happens to a stream whose file is being stored. -/
inductive StoreStep where
  | write
  | finalize (frand : Nat → UInt8)
  | deliver (data : Bytes)
  | accepted (position : Nat) (fresh promoted : Bool) (fib : UInt32)

/-- A message is handled; the puts it leads to will be answered. -/
def Storing.receive (hashData : Bytes → Hash) (state : Storing)
    (message : WriterMessage) : Storing :=
  let stream := writeableOffStreamDispatch hashData state.stream message
  { state with
    stream := stream
    unanswered := state.unanswered ++ (blocksPut (stream.sent.drop state.stream.sent.length)).map
        Block.hash }

def storeStep (hashData : Bytes → Hash) (state : Storing) : StoreStep → Option Storing
  | .write =>
    match state.remaining with
    | [] => none
    | chunk :: rest => some ({ state with remaining := rest }.receive hashData (.write chunk))
  | .finalize frand =>
    if state.remaining = [] ∧ state.finalized = false then
      some ({ state with finalized := true }.receive hashData (.finalize frand))
    else
      none
  | .deliver data =>
    if state.stream.hasPulled = true ∧
        data.length = state.stream.blockType.bytes then
      some (state.receive hashData (.recipeBlockData ⟨data, hashData data⟩))
    else
      none
  | .accepted position fresh promoted fib =>
    match state.unanswered[position]? with
    | none => none
    | some hash =>
      some ({ state with unanswered := state.unanswered.eraseIdx position }.receive
        hashData (.cachePutResult (if fresh then .new else .exists) promoted hash fib))

/-- What a step sends to the stream, and the state in which it arrives. -/
inductive StoreSends (hashData : Bytes → Hash) (state : Storing) :
    StoreStep → Storing → WriterMessage → Prop
  | write {chunk : Bytes} {rest : List Bytes} (remaining : state.remaining = chunk :: rest) :
    StoreSends hashData state .write { state with remaining := rest } (.write chunk)
  | finalize (frand : Nat → UInt8) (written : state.remaining = [])
      (unfinished : state.finalized = false) :
    StoreSends hashData state (.finalize frand) { state with finalized := true } (.finalize frand)
  | deliver (data : Bytes) (pulled : state.stream.hasPulled = true)
      (size : data.length = state.stream.blockType.bytes) :
    StoreSends hashData state (.deliver data) state (.recipeBlockData ⟨data, hashData data⟩)
  | accepted {position : Nat} {hash : Hash} (waiting : state.unanswered[position]? = some hash)
      (fresh promoted : Bool) (fib : UInt32) :
    StoreSends hashData state (.accepted position fresh promoted fib)
      { state with unanswered := state.unanswered.eraseIdx position }
      (.cachePutResult (if fresh then .new else .exists) promoted hash fib)

theorem storeStep_sends (stepped : storeStep hashData state label = some new) :
    ∃ base message, StoreSends hashData state label base message ∧
      new = base.receive hashData message := by
  cases label <;> rw [storeStep] at stepped <;> split at stepped <;> cases stepped
  · exact ⟨_, _, .write ‹_›, rfl⟩
  · rename_i open_
    exact ⟨_, _, .finalize _ open_.1 open_.2, rfl⟩
  · rename_i open_
    exact ⟨_, _, .deliver _ open_.1 open_.2, rfl⟩
  · exact ⟨_, _, .accepted ‹_› _ _ _, rfl⟩

/-- A stream that is about to store the chunks. -/
def Storing.start (stream : WriteableOffStream) (chunks : List Bytes) : Storing where
  stream := stream
  remaining := chunks
  finalized := false
  unanswered := []

/-- The last block does not have the hash of a block that still waits for random blocks. -/
def LastDiffers (hashData : Bytes → Hash) (state : Storing) : StoreStep → Prop
  | .finalize frand =>
    ∀ block, state.stream.accumulator ≠ [] → blockCreateByType hashData state.stream.accumulator
        state.stream.blockType frand = some block →
      ∀ entry ∈ state.stream.entries, entry.origin.hash ≠ block.hash
  | _ => True

instance (hashData : Bytes → Hash) (state : Storing) :
    ∀ label, Decidable (LastDiffers hashData state label)
  | .write => .isTrue trivial
  | .finalize frand =>
    decidable_of_iff
      (state.stream.accumulator = [] ∨
        ∀ block ∈ blockCreateByType hashData state.stream.accumulator
          state.stream.blockType frand,
          ∀ entry ∈ state.stream.entries, entry.origin.hash ≠ block.hash) (by
        constructor
        · rintro (empty | differs) block some_rest made
          · exact absurd empty some_rest
          · exact differs block made
        · intro differs
          by_cases empty : state.stream.accumulator = []
          · exact .inl empty
          · exact .inr fun block made => differs block empty made)
  | .deliver _ => .isTrue trivial
  | .accepted _ _ _ _ => .isTrue trivial

/-- The number of random blocks that an entry waits for. -/
def randomBlocksFor (tupleSize : Nat) : Nat :=
  max 1 (randomCapacityOf tupleSize).toNat

variable {tupleSize : Nat}

theorem randomBlocksFor_lt (large : 2 ≤ tupleSize) : randomBlocksFor tupleSize < tupleSize := by
  have bounded : randomCapacityOf tupleSize ≤ (tupleSize : Int) - 1 := by
    have reduced := Int.bmod_def ((tupleSize : Int) - 1) (2 ^ 32)
    change ((tupleSize : Int) - 1).bmod (2 ^ 32) ≤ _
    omega
  unfold randomBlocksFor
  omega

/-- The blocks of a tuple, all put in the cache, add up to the origin. -/
structure Encodes (hashData : Bytes → Hash) (type : BlockSize)
    (puts : List Block) (tuple : Tuple) (origin : Bytes) (blocks : List Block) : Prop where
  some_block : blocks ≠ []
  proper : ∀ block ∈ blocks, Proper hashData type block
  stored : ∀ block ∈ blocks, block ∈ puts
  hashes : tuple.hashes = blocks.map Block.hash
  sum : xorAll (blocks.map Block.data) = origin

variable {data : Bytes}

section
variable (hashData : Bytes → Hash) (stream : WriteableOffStream)

/-- The entry of a full block. -/
def originEntry (hashData : Bytes → Hash) (tupleSize : Nat) (data : Bytes) : TupleEntry :=
  entryCreate ⟨data, hashData data⟩ tupleSize

theorem getRandomBlocks_eq (ready : stream.currentRecipe.isSome = true) :
    ∃ effects, Quiet effects ∧ getRandomBlocks stream =
        { stream with
          hasPulled := true
          sent := stream.sent ++ effects } := by
  unfold getRandomBlocks
  by_cases pulled : stream.hasPulled = true
  · refine ⟨[], .nil, ?_⟩
    rw [if_pos (.inl pulled), append_nil, ← pulled]
  · refine ⟨[.pull], ⟨rfl, rfl, rfl⟩, ?_⟩
    rw [if_neg]
    · rfl
    · rintro (has | missing)
      · exact pulled has
      · rw [Option.isNone_iff_eq_none] at missing
        rw [missing] at ready
        cases ready

theorem becomeReadable_eq :
    ∃ effects, Quiet effects ∧ becomeReadable stream =
        { stream with
          isReadable := true
          sent := stream.sent ++ effects } := by
  unfold becomeReadable
  by_cases readable : stream.isReadable = true
  · refine ⟨[], .nil, ?_⟩
    rw [if_pos readable, append_nil, ← readable]
  · refine ⟨[.notify .readable], ⟨rfl, rfl, rfl⟩, ?_⟩
    rw [if_neg readable]
    rfl

/-- A full accumulator becomes an entry. -/
theorem acceptBlock_eq (ready : stream.currentRecipe.isSome = true)
    (full : stream.accumulator.length = stream.blockType.bytes) :
    ∃ effects, Quiet effects ∧ acceptBlock hashData stream =
        { stream with
          accumulator := []
          entries := stream.entries ++ [originEntry hashData stream.tupleSize stream.accumulator]
          isReadable := true
          hasPulled := true
          sent := stream.sent ++ effects } := by
  have whole : stream.accumulator.take stream.blockType.bytes = stream.accumulator := by
    rw [← full, take_length]
  obtain ⟨first, quiet, becomes⟩ := becomeReadable_eq
    { stream with
      entries := stream.entries ++ [originEntry hashData stream.tupleSize stream.accumulator] }
  obtain ⟨second, still, pulls⟩ := getRandomBlocks_eq (becomeReadable
      { stream with
        entries := stream.entries ++ [originEntry hashData stream.tupleSize stream.accumulator] })
    (by rw [becomes]; exact ready)
  refine ⟨first ++ second, quiet.append still, ?_⟩
  unfold acceptBlock
  rw [whole, blockCreateExistingDataByType_of_length full]
  change { getRandomBlocks (becomeReadable
      { stream with
        entries := stream.entries ++
          [originEntry hashData stream.tupleSize stream.accumulator] }) with
    accumulator := [] } = _
  rw [pulls, becomes, ← append_assoc]

/-- Some bytes, after what is left from before, as full blocks and a rest. -/
structure Cut (data : Bytes) (blocks : List Bytes) (rest : Bytes) : Prop where
  whole : stream.accumulator ++ data = blocks.flatten ++ rest
  sized : ∀ block ∈ blocks, block.length = stream.blockType.bytes
  short : rest.length < stream.blockType.bytes

/-- The stream after some bytes have been cut into blocks and a rest. -/
def CutTo (data : Bytes) (result : WriteableOffStream) : Prop :=
  ∃ blocks rest readable pulled effects, Quiet effects ∧ Cut stream data blocks rest ∧
    (pulled = true ↔ stream.hasPulled = true ∨ blocks ≠ []) ∧
    result =
      { stream with
        accumulator := rest
        entries := stream.entries ++ blocks.map (originEntry hashData stream.tupleSize)
        isReadable := readable
        hasPulled := pulled
        sent := stream.sent ++ effects }

theorem CutTo.nothing (short : stream.accumulator.length < stream.blockType.bytes) :
    CutTo hashData stream [] stream := by
  refine ⟨[], stream.accumulator, stream.isReadable, stream.hasPulled, [],
    .nil, ⟨?_, ?_, short⟩, ?_, ?_⟩ <;> simp

/-- A block is cut off, and then what follows it is cut. -/
theorem CutTo.block (quiet : Quiet effects)
    (full : (stream.accumulator ++ data).length = stream.blockType.bytes)
    (later : CutTo hashData { stream with
        accumulator := []
        entries := stream.entries ++
          [originEntry hashData stream.tupleSize (stream.accumulator ++ data)]
        isReadable := true
        hasPulled := true
        sent := stream.sent ++ effects } more result) :
    CutTo hashData stream (data ++ more) result := by
  obtain ⟨blocks, rest, readable, pulled, second, still, cut, pulls, result_eq⟩ := later
  refine ⟨(stream.accumulator ++ data) :: blocks, rest, readable, pulled,
    effects ++ second, quiet.append still, ⟨?_, ?_, cut.short⟩, ?_, ?_⟩
  · have whole : more = blocks.flatten ++ rest := cut.whole
    simp [whole]
  · intro block among
    rcases mem_cons.mp among with rfl | among
    · exact full
    · exact cut.sized block among
  · simp [pulls]
  · simp [result_eq]

theorem writeLoop_cuts (rounds : Nat) (data : Bytes) (ready : stream.currentRecipe.isSome = true)
    (short : stream.accumulator.length < stream.blockType.bytes) (enough : data.length ≤ rounds) :
    CutTo hashData stream data (writeLoop hashData rounds stream data) := by
  induction rounds generalizing stream data with
  | zero =>
    rw [length_eq_zero_iff.mp (Nat.le_zero.mp enough)]
    exact .nothing hashData stream short
  | succ rounds ih =>
    cases data with
    | nil => exact .nothing hashData stream short
    | cons byte bytes =>
      rw [writeLoop]
      generalize byte :: bytes = data at enough ⊢
      by_cases full : stream.blockType.bytes ≤ stream.accumulator.length + data.length
      · have taken : min data.length (stream.blockType.bytes - stream.accumulator.length) =
              stream.blockType.bytes - stream.accumulator.length := by
          omega
        rw [taken]
        generalize space_eq : stream.blockType.bytes - stream.accumulator.length = space
        have filled : (stream.accumulator ++ data.take space).length = stream.blockType.bytes := by
          rw [length_append, length_take]
          omega
        obtain ⟨effects, quiet, accepted⟩ := acceptBlock_eq hashData
          { stream with accumulator := stream.accumulator ++ data.take space }
          ready filled
        rw [if_pos (Nat.le_of_eq filled.symm), accepted]
        have later := ih
          { stream with
            accumulator := []
            entries := stream.entries ++
              [originEntry hashData stream.tupleSize (stream.accumulator ++ data.take space)]
            isReadable := true
            hasPulled := true
            sent := stream.sent ++ effects }
          (data.drop space) ready (BlockSize.bytes_pos _)
          (by rw [length_drop]; omega)
        have cuts := CutTo.block hashData stream quiet filled later
        rw [take_append_drop] at cuts
        exact cuts
      · have taken : min data.length (stream.blockType.bytes -
            stream.accumulator.length) = data.length := by
          omega
        have below : (stream.accumulator ++ data).length < stream.blockType.bytes := by
          rw [length_append]
          omega
        rw [taken, take_length, drop_length, if_neg (not_le.mpr below)]
        obtain ⟨blocks, rest, readable, pulled, effects, quiet, cut, pulls, loop⟩ := ih
            { stream with accumulator := stream.accumulator ++ data } []
            ready below (Nat.zero_le _)
        refine ⟨blocks, rest, readable, pulled, effects, quiet,
          { cut with whole := ?_ }, pulls, loop⟩
        rw [← cut.whole, append_nil]

/-- An entry as the stream makes it, with blocks of the stream's type. -/
structure EntryFits (type : BlockSize) (tupleSize : Nat) (entry : TupleEntry) : Prop where
  origin : Proper hashData type entry.origin
  random : ∀ block ∈ entry.randomBlocks, Proper hashData type block
  capacity : entry.randomCapacity = randomCapacityOf tupleSize

variable {type : BlockSize}

theorem EntryFits.originEntry (tupleSize : Nat) (sized : data.length = type.bytes) :
    EntryFits hashData type tupleSize (originEntry hashData tupleSize data) where
  origin := ⟨sized, rfl⟩
  random := by simp [OffStreams.originEntry, entryCreate]
  capacity := rfl

variable {entry : TupleEntry}

/-- What is sent for a tuple. -/
structure StoresTuple (type : BlockSize) (tupleSize : Nat) (entry : TupleEntry) (tuple : Tuple)
    (offBlock : Block) (effects : List WriterEffect) : Prop where
  tuples : tuplesOf effects = [tuple]
  blocks : blocksPut effects = entry.randomBlocks ++ [offBlock]
  cached : tuplesCached effects = [(tuple, entry.origin.data)]
  encodes : entry.randomBlocks.length < tupleSize →
    Encodes hashData type (entry.randomBlocks ++ [offBlock]) tuple
      entry.origin.data (entry.randomBlocks ++ [offBlock])

section
variable (fits : EntryFits hashData type tupleSize entry)
include fits

theorem EntryFits.deliver (proper : Proper hashData type block) :
    EntryFits hashData type tupleSize
      { entry with randomBlocks := entry.randomBlocks ++ [block] } :=
  { fits with
    random := by
      intro other among
      rcases mem_append.mp among with before | new
      · exact fits.random other before
      · rw [mem_singleton.mp new]
        exact proper }

theorem EntryFits.length_sum :
    ((entry.randomBlocks.map Block.data).foldl bufferXor
      entry.origin.data).length = type.bytes := by
  have added : bufferXor = xorBytes := by
    funext first second
    exact bufferXor_eq
  have within : (xorAll (entry.randomBlocks.map Block.data)).length ≤ type.bytes := by
    apply length_xorAll_le
    intro data among
    obtain ⟨block, member, rfl⟩ := mem_map.mp among
    exact le_of_eq (fits.random block member).length
  rw [added, foldl_xorBytes, length_xorBytes, fits.origin.length]
  exact max_eq_left within

/-- The blocks of a tuple for which there is room add up to the origin. -/
theorem EntryFits.encodes (room : entry.randomBlocks.length < tupleSize) {sum : Bytes}
    (sum_eq : (entry.randomBlocks.map Block.data).foldl bufferXor entry.origin.data = sum) :
    Encodes hashData type (entry.randomBlocks ++ [⟨sum, hashData sum⟩])
      (entryTuple tupleSize entry ⟨sum, hashData sum⟩) entry.origin.data
      (entry.randomBlocks ++ [⟨sum, hashData sum⟩]) where
  some_block := by simp
  proper := by
    intro block among
    rcases mem_append.mp among with random | off
    · exact fits.random block random
    · rw [mem_singleton.mp off]
      refine ⟨?_, rfl⟩
      rw [← sum_eq]
      exact fits.length_sum
  stored := fun block among => among
  hashes := by
    have pushed := hashes_foldl_tuplePush
      ((entry.randomBlocks ++ [(⟨sum, hashData sum⟩ : Block)]).map Block.hash)
      (tupleCreate tupleSize) (by simpa [tupleCreate] using Nat.succ_le_of_lt room)
    rw [map_append, foldl_append] at pushed
    rw [map_append]
    exact pushed
  sum := by
    have added : bufferXor = xorBytes := by
      funext first second
      exact bufferXor_eq
    rw [map_append, ← sum_eq, added]
    apply xorAll_pads
    intro data among
    obtain ⟨block, member, rfl⟩ := mem_map.mp among
    rw [(fits.random block member).length, fits.origin.length]

end

section
variable (blocks : List Block) (group : UInt32)
include blocks group

end

theorem recordCreated_eq (hash : Hash) :
    ∃ created, recordCreated stream hash = { stream with createdHashes := created } := by
  unfold recordCreated
  split
  · exact ⟨_, rfl⟩
  · exact ⟨stream.createdHashes, rfl⟩

theorem recordDelivered_eq (hash : Hash) :
    ∃ created, recordDelivered stream hash = { stream with createdHashes := created } := by
  unfold recordDelivered
  split
  · split
    · exact ⟨stream.createdHashes, rfl⟩
    · exact recordCreated_eq stream hash
  · exact ⟨stream.createdHashes, rfl⟩

/-- The tuple of a complete entry is sent with its blocks. -/
theorem createTuple_eq (fits : EntryFits hashData type stream.tupleSize entry) :
    ∃ created tuple offBlock effects,
      StoresTuple hashData type stream.tupleSize entry tuple offBlock effects ∧
      createTuple hashData stream entry = afterTuple
          { stream with
            createdHashes := created
            sent := stream.sent ++ effects } entry := by
  generalize sum_eq : (entry.randomBlocks.map Block.data).foldl bufferXor entry.origin.data = sum
  have sized : sum.length = type.bytes := by
    rw [← sum_eq]
    exact fits.length_sum
  obtain ⟨created, recorded⟩ := recordCreated_eq stream (hashData sum)
  let tuple := entryTuple stream.tupleSize entry ⟨sum, hashData sum⟩
  refine ⟨created, tuple, ⟨sum, hashData sum⟩, entryPuts stream entry ⟨sum, hashData sum⟩ ++
      [.tupleCachePut tuple entry.origin.data, .notify (.data (.tuple tuple))], ?_, ?_⟩
  · constructor
    · rw [tuplesOf_append, entryPuts, tuplesOf_append, tuplesOf, filterMap_map]
      split <;> simp [tuplesOf]
    · rw [blocksPut_append, entryPuts, blocksPut_append, blocksPut, filterMap_map]
      split <;> simp [blocksPut]
    · rw [tuplesCached_append, entryPuts, tuplesCached_append, tuplesCached, filterMap_map]
      split <;> simp [tuplesCached]
    · intro room
      exact fits.encodes hashData room sum_eq
  · simp only [createTuple, sum_eq, recorded,
      blockCreateExistingDataByType_of_length sized]
    rfl

end

/-- The bytes in the tuples, in the entries and in the accumulator. -/
def fileContent (entries : List TupleEntry) (accumulator : Bytes)
    (sent : List WriterEffect) : Bytes :=
  ((tuplesCached sent).map Prod.snd).flatten ++
    (entries.map fun entry => entry.origin.data).flatten ++ accumulator

def randomBlocksHeld : List TupleEntry → Nat
  | [] => 0
  | first :: _ => first.randomBlocks.length

theorem randomBlocksHeld_cons :
    randomBlocksHeld (first :: rest) = first.randomBlocks.length :=
  rfl

/-- What holds of the entries, the accumulator and the effects of a stream. -/
structure Sound (hashData : Bytes → Hash) (type : BlockSize) (tupleSize : Nat)
    (entries : List TupleEntry) (accumulator : Bytes) (sent : List WriterEffect) : Prop where
  short : accumulator.length < type.bytes
  fits : ∀ entry ∈ entries, EntryFits hashData type tupleSize entry
  waits : ∀ entry ∈ entries, entry.randomBlocks.length < randomBlocksFor tupleSize
  later : ∀ entry ∈ entries.tail, entry.randomBlocks = []
  cached : (tuplesCached sent).map Prod.fst = tuplesOf sent
  sized : ∀ pair ∈ tuplesCached sent, pair.2.length = type.bytes
  puts : (blocksPut sent).length = (randomBlocksFor tupleSize + 1) * (tuplesCached sent).length
  encodes : 2 ≤ tupleSize → ∀ pair ∈ tuplesCached sent, ∃ blocks,
    Encodes hashData type (blocksPut sent) pair.1 pair.2 blocks

section
variable {hashData : Bytes → Hash} {type : BlockSize} {tupleSize : Nat}
  {entries : List TupleEntry} {accumulator : Bytes} {sent effects : List WriterEffect}
  {first : TupleEntry} {rest : List TupleEntry}

theorem Encodes.mono (encodes : Encodes hashData type puts tuple origin blocks)
    (subset : puts ⊆ more) : Encodes hashData type more tuple origin blocks :=
  { encodes with stored := fun block among => subset (encodes.stored block among) }

theorem fileContent_quiet (quiet : Quiet effects) :
    fileContent entries accumulator (sent ++ effects) = fileContent entries accumulator sent := by
  simp [fileContent, quiet.cached]

variable {blocks : List Bytes}

section
variable (sound : Sound hashData type tupleSize entries accumulator sent)
include sound

theorem Sound.quiet (quiet : Quiet effects) :
    Sound hashData type tupleSize entries accumulator (sent ++ effects) := by
  have cached : tuplesCached (sent ++ effects) = tuplesCached sent := by
    rw [tuplesCached_append, quiet.cached, append_nil]
  have blocks : blocksPut (sent ++ effects) = blocksPut sent := by
    rw [blocksPut_append, quiet.blocks, append_nil]
  have tuples : tuplesOf (sent ++ effects) = tuplesOf sent := by
    rw [tuplesOf_append, quiet.tuples, append_nil]
  refine { sound with cached := ?_, sized := ?_, puts := ?_, encodes := ?_ }
  · rw [cached, tuples]
    exact sound.cached
  · rw [cached]
    exact sound.sized
  · rw [cached, blocks]
    exact sound.puts
  · rw [cached, blocks]
    exact sound.encodes

/-- Blocks become entries after the others. -/
theorem Sound.accept {rest : Bytes} (sized : ∀ block ∈ blocks, block.length = type.bytes)
    (short : rest.length < type.bytes) :
    Sound hashData type tupleSize (entries ++ blocks.map (originEntry hashData tupleSize)) rest
      sent := by
  refine { sound with short := short, fits := ?_, waits := ?_, later := ?_ }
  · intro entry among
    rcases mem_append.mp among with before | new
    · exact sound.fits entry before
    · obtain ⟨block, member, rfl⟩ := mem_map.mp new
      exact .originEntry hashData tupleSize (sized block member)
  · intro entry among
    rcases mem_append.mp among with before | new
    · exact sound.waits entry before
    · obtain ⟨block, member, rfl⟩ := mem_map.mp new
      exact lt_of_lt_of_le Nat.zero_lt_one (le_max_left _ _)
  · intro entry among
    have member : entry ∈ entries.tail ∨ entry ∈ blocks.map (originEntry hashData tupleSize) := by
      cases entries with
      | nil => exact .inr (mem_of_mem_tail among)
      | cons first others => exact mem_append.mp among
    rcases member with before | new
    · exact sound.later entry before
    · obtain ⟨block, _, rfl⟩ := mem_map.mp new
      rfl

end

theorem fileContent_accept {rest : Bytes} (whole : accumulator ++ data = blocks.flatten ++ rest) :
    fileContent (entries ++ blocks.map (originEntry hashData tupleSize)) rest
      sent = fileContent entries accumulator sent ++ data := by
  have origins : (blocks.map (originEntry hashData tupleSize)).map
      (fun entry => entry.origin.data) = blocks := by
    rw [map_map]
    exact map_id blocks
  simp [fileContent, origins, whole]

theorem randomBlocksHeld_accept
    (hashData : Bytes → Hash) (tupleSize : Nat) (entries : List TupleEntry) (blocks : List Bytes) :
    randomBlocksHeld (entries ++ blocks.map (originEntry hashData tupleSize)) =
        randomBlocksHeld entries := by
  cases entries with
  | nil => cases blocks <;> rfl
  | cons first others => rfl

variable (sound : Sound hashData type tupleSize (first :: rest) accumulator sent)
include sound

/-- A random block for the first entry, which still waits for others. -/
theorem Sound.deliver (proper : Proper hashData type block)
    (waits : first.randomBlocks.length + 1 < randomBlocksFor tupleSize) :
    Sound hashData type tupleSize
      ({ first with randomBlocks := first.randomBlocks ++ [block] } :: rest)
      accumulator sent := by
  refine { sound with fits := ?_, waits := ?_ }
  · intro entry among
    rcases mem_cons.mp among with rfl | among
    · exact (sound.fits first mem_cons_self).deliver hashData proper
    · exact sound.fits entry (mem_cons_of_mem _ among)
  · intro entry among
    rcases mem_cons.mp among with rfl | among
    · simpa using waits
    · exact sound.waits entry (mem_cons_of_mem _ among)

theorem Sound.store (last : first.randomBlocks.length + 1 = randomBlocksFor tupleSize)
    (stores : StoresTuple hashData type tupleSize
      { first with randomBlocks := first.randomBlocks ++ [block] } tuple offBlock effects) :
    Sound hashData type tupleSize rest accumulator (sent ++ effects) := by
  refine ⟨sound.short, ?_, ?_, ?_, ?_, ?_, ?_, ?_⟩
  · intro entry among
    exact sound.fits entry (mem_cons_of_mem _ among)
  · intro entry among
    exact sound.waits entry (mem_cons_of_mem _ among)
  · intro entry among
    exact sound.later entry (mem_of_mem_tail among)
  · simp [stores.cached, stores.tuples, sound.cached]
  · intro pair among
    rw [tuplesCached_append, stores.cached] at among
    rcases mem_append.mp among with before | new
    · exact sound.sized pair before
    · rw [mem_singleton.mp new]
      exact (sound.fits first mem_cons_self).origin.length
  · simp only [blocksPut_append, tuplesCached_append, stores.blocks,
      stores.cached, length_append, length_singleton, sound.puts, last, mul_add, mul_one]
  · intro large pair among
    rw [tuplesCached_append, stores.cached] at among
    rcases mem_append.mp among with before | new
    · obtain ⟨blocks, encodes⟩ := sound.encodes large pair before
      refine ⟨blocks, encodes.mono ?_⟩
      rw [blocksPut_append]
      exact subset_append_left _ _
    · rw [mem_singleton.mp new]
      have room := randomBlocksFor_lt large
      refine ⟨_, (stores.encodes ?_).mono ?_⟩
      · simpa [last] using room
      · rw [blocksPut_append, stores.blocks]
        exact subset_append_right _ _

theorem Sound.randomBlocksHeld_tail : randomBlocksHeld rest = 0 := by
  cases rest with
  | nil => rfl
  | cons second others =>
    have none_yet := sound.later second mem_cons_self
    rw [randomBlocksHeld, none_yet]
    rfl

end

end Liboffs.OffStreams

import Liboffs.OffStreams.Tuple

/-!
# The writeable OFF stream

The stream cuts what is written to it into blocks, pulls random blocks from a recipe, and turns
each block into a tuple: the hashes of the random blocks and of the sum with all of them.

It is a record of the program's fields together with its effects.  Reference counts, subscriptions
and the queue of events are not modelled: an event counts as sent when it is notified.
-/

namespace Liboffs.OffStreams

open BlockCache Library Library.ByteOrder

/-- `off_stream_tuple_entry_t`. -/
structure TupleEntry where
  origin : Block
  randomBlocks : List Block
  randomCapacity : Int

/-- The number of random blocks for a tuple, which is kept in an `int`. -/
def randomCapacityOf (tupleSize : Nat) : Int :=
  ((tupleSize : Int) - 1).bmod (2 ^ 32)

/-- `_entry_create`. -/
def entryCreate (origin : Block) (tupleSize : Nat) : TupleEntry where
  origin := origin
  randomBlocks := []
  randomCapacity := randomCapacityOf tupleSize

/-- `block_recipe_t`, as far as the stream looks at it. -/
structure BlockRecipe where
  isRecycler : Bool

/-- What the events of the stream carry. -/
inductive WriterData where
  | tuple (tuple : Tuple)
  | fileHash (hash : Hash)
deriving DecidableEq

/-- What the stream sends to others. -/
inductive WriterEffect where
  | notify (event : StreamEvent WriterData)
  | pull
  | put (block : Block) (group : UInt32)
  | putEphemeral (block : Block)
  | tupleCachePut (tuple : Tuple) (value : Bytes)
  | putGroupEnd (group : UInt32) (abort : Bool)
  | ephemeralRelease (hash : Hash)
  | releaseAcquired (recipe : Nat)
  | rankAdvertise (hash : Hash) (fib : UInt32)
  | storeBlock (hash : Hash) (fib : UInt32)
deriving DecidableEq

/-- `writeable_off_stream_t` with what it has sent, the oldest first. -/
structure WriteableOffStream where
  hasNetwork : Bool
  blockType : BlockSize
  tupleSize : Nat
  accumulator : Bytes
  entries : List TupleEntry
  finalBlock : Option Block
  hashState : Bytes
  isReadable : Bool
  recipes : List BlockRecipe
  currentRecipeIndex : Nat
  currentRecipe : Option BlockRecipe
  hasPulled : Bool
  pendingFinalize : Bool
  isEphemeral : Bool
  completed : Bool
  putGroup : UInt32
  createdHashes : List Hash
  isDeactivated : Bool
  sent : List WriterEffect

/-- The cache's answer to a put. -/
inductive CachePut where
  | new
  | exists
  | error
  | full
deriving DecidableEq

inductive WriterMessage where
  | write (data : Bytes)
  | finalize (frand : Nat → UInt8)
  | recipeBlockData (block : Block)
  | recipeRotate
  | cachePutResult (result : CachePut) (promoted : Bool) (hash : Hash)
      (fib : UInt32)
  | closeStream

/-- `writeable_off_stream_create` and `writeable_off_stream_set_ephemeral`. -/
def writeableOffStreamCreate (blockType : BlockSize) (tupleSize : Nat) (recipes : List BlockRecipe)
    (hasNetwork isEphemeral : Bool) (putGroup : UInt32) : WriteableOffStream where
  hasNetwork := hasNetwork
  blockType := blockType
  tupleSize := tupleSize
  accumulator := []
  entries := []
  finalBlock := none
  hashState := []
  isReadable := false
  recipes := recipes
  currentRecipeIndex := 0
  currentRecipe := recipes.head?
  hasPulled := false
  pendingFinalize := false
  isEphemeral := isEphemeral
  completed := false
  putGroup := putGroup
  createdHashes := []
  isDeactivated := false
  sent := []

namespace WriteableOffStream

/-- Send effects, in order. -/
def send (stream : WriteableOffStream) (effects : List WriterEffect) : WriteableOffStream :=
  { stream with sent := stream.sent ++ effects }

end WriteableOffStream

/-- `stream_deactivate`. -/
def writerDeactivate (stream : WriteableOffStream) (message : String) : WriteableOffStream :=
  if stream.isDeactivated then
    stream
  else
    { stream with isDeactivated := true }.send [.notify (.error message), .notify .close]

/-- `_writeable_put_group_end`. -/
def writeablePutGroupEnd (stream : WriteableOffStream) (abort : Bool) : WriteableOffStream :=
  if stream.putGroup = 0 then
    stream
  else
    { stream with putGroup := 0 }.send [.putGroupEnd stream.putGroup abort]

/-- `_release_ephemeral_claims`. -/
def releaseEphemeralClaims (stream : WriteableOffStream) : WriteableOffStream :=
  if stream.isEphemeral then
    { stream with createdHashes := [] }.send
      (stream.createdHashes.map WriterEffect.ephemeralRelease ++
        (stream.recipes.findIdxs BlockRecipe.isRecycler).map WriterEffect.releaseAcquired)
  else
    stream

/-- The events of a stream that has stored its file. -/
def writerComplete (stream : WriteableOffStream) : WriteableOffStream :=
  { stream with isDeactivated := true, completed := true }.send
    [.notify .finished, .notify .complete, .notify .close]

/-- `_maybe_finalize`. -/
def maybeFinalize (stream : WriteableOffStream) : WriteableOffStream :=
  if stream.pendingFinalize ∧ stream.entries.isEmpty ∧
      ¬ stream.hasPulled then
    writerComplete { stream with pendingFinalize := false }
  else
    stream

/-- `_get_random_blocks`. -/
def getRandomBlocks (stream : WriteableOffStream) : WriteableOffStream :=
  if stream.hasPulled ∨ stream.currentRecipe.isNone then
    stream
  else
    { stream with hasPulled := true }.send [.pull]

/-- Record a block that the put has made, for the clean-up of a failure. -/
def recordCreated (stream : WriteableOffStream) (hash : Hash) : WriteableOffStream :=
  if stream.isEphemeral then
    { stream with createdHashes := stream.createdHashes ++ [hash] }
  else
    stream

/-- Record a block of a recipe; a recycler keeps its own record. -/
def recordDelivered (stream : WriteableOffStream) (hash : Hash) : WriteableOffStream :=
  match stream.currentRecipe with
  | some recipe => if recipe.isRecycler then stream else recordCreated stream hash
  | none => stream

section
variable (hashData : Bytes → Hash)

/-- The tuple of an entry whose sum is the given block. -/
def entryTuple (tupleSize : Nat) (entry : TupleEntry) (offBlock : Block) : Tuple :=
  tuplePush ((entry.randomBlocks.map Block.hash).foldl tuplePush (tupleCreate tupleSize))
    offBlock.hash

/-- The puts of the blocks of a tuple. -/
def entryPuts (stream : WriteableOffStream) (entry : TupleEntry)
    (offBlock : Block) : List WriterEffect :=
  entry.randomBlocks.map (.put · stream.putGroup) ++ [if stream.isEphemeral then
      .putEphemeral offBlock
    else
      .put offBlock stream.putGroup]

/-- Whether the entry's origin has the hash of the last block. -/
def isFinal (stream : WriteableOffStream) (entry : TupleEntry) : Bool :=
  match stream.finalBlock with
  | some block => entry.origin.hash = block.hash
  | none => false

/-- What follows a tuple: the end, the next pull, or nothing yet. -/
def afterTuple (stream : WriteableOffStream) (entry : TupleEntry) : WriteableOffStream :=
  if isFinal stream entry then
    writerComplete { stream with finalBlock := none }
  else if ¬ stream.entries.isEmpty ∧ ¬ stream.isDeactivated then
    getRandomBlocks stream
  else
    maybeFinalize stream

/-- `_create_tuple`. -/
def createTuple (stream : WriteableOffStream) (entry : TupleEntry) : WriteableOffStream :=
  let offData := (entry.randomBlocks.map Block.data).foldl bufferXor entry.origin.data
  match blockCreateExistingDataByType hashData offData with
  | none => stream
  | some offBlock =>
    let recorded := recordCreated stream offBlock.hash
    let tuple := entryTuple stream.tupleSize entry offBlock
    afterTuple (recorded.send (entryPuts recorded entry offBlock ++
        [.tupleCachePut tuple entry.origin.data, .notify (.data (.tuple tuple))]))
      entry

/-- The event of the first block. -/
def becomeReadable (stream : WriteableOffStream) : WriteableOffStream :=
  if stream.isReadable then
    stream
  else
    { stream with isReadable := true }.send [.notify .readable]

/-- Make an entry of a full accumulator. -/
def acceptBlock (stream : WriteableOffStream) : WriteableOffStream :=
  match blockCreateExistingDataByType hashData (stream.accumulator.take stream.blockType.bytes) with
  | none => { stream with accumulator := [] }
  | some origin =>
    { getRandomBlocks (becomeReadable
        { stream with
          entries := stream.entries ++ [entryCreate origin stream.tupleSize] }) with
      accumulator := [] }

/--
The loop of `WRITEABLE_WRITE`; a round takes a byte at least, and the first argument bounds the
rounds.
-/
def writeLoop : Nat → WriteableOffStream → Bytes → WriteableOffStream
  | 0, stream, _ => stream
  | _, stream, [] => stream
  | rounds + 1, stream, byte :: rest =>
    let data := byte :: rest
    let toAppend := min data.length (stream.blockType.bytes - stream.accumulator.length)
    let filled := { stream with accumulator := stream.accumulator ++ data.take toAppend }
    writeLoop rounds (if stream.blockType.bytes ≤ filled.accumulator.length then
        acceptBlock hashData filled
      else
        filled)
      (data.drop toAppend)

/-- `WRITEABLE_WRITE`. -/
def writeableWrite (stream : WriteableOffStream) (data : Bytes) : WriteableOffStream :=
  if stream.isDeactivated then
    stream
  else
    writeLoop hashData data.length { stream with hashState := stream.hashState ++ data } data

/-- Make the last entry of what is left in the accumulator. -/
def acceptRest (stream : WriteableOffStream) (frand : Nat → UInt8) : WriteableOffStream :=
  if stream.accumulator.isEmpty then
    stream
  else
    match blockCreateByType hashData stream.accumulator stream.blockType frand with
    | none => { stream with accumulator := [] }
    | some origin =>
      { getRandomBlocks
          { stream with
            finalBlock := some origin
            entries := stream.entries ++ [entryCreate origin stream.tupleSize] } with
        accumulator := [] }

/-- `WRITEABLE_FINALIZE`. -/
def writeableFinalize (stream : WriteableOffStream) (frand : Nat → UInt8) : WriteableOffStream :=
  if stream.isDeactivated then
    stream
  else
    let rest := acceptRest hashData
      (stream.send [.notify (.data (.fileHash (hashData stream.hashState)))]) frand
    if rest.entries.isEmpty ∧ ¬ rest.hasPulled then
      writerComplete rest
    else
      { rest with pendingFinalize := true }

/-- `RECIPE_BLOCK_DATA`. -/
def recipeBlockData (stream : WriteableOffStream) (block : Block) : WriteableOffStream :=
  let answered := { stream with hasPulled := false }
  match stream.entries with
  | [] => recordDelivered answered block.hash
  | first :: rest =>
    let recorded := recordDelivered answered block.hash
    if stream.isDeactivated then
      recorded
    else
      let entry := { first with randomBlocks := first.randomBlocks ++ [block] }
      if entry.randomCapacity ≤ entry.randomBlocks.length then
        createTuple hashData { recorded with entries := rest } entry
      else
        getRandomBlocks { recorded with entries := entry :: rest }

/-- `RECIPE_ROTATE`. -/
def recipeRotate (stream : WriteableOffStream) : WriteableOffStream :=
  let index := stream.currentRecipeIndex + 1
  let rotated := { stream with currentRecipeIndex := index }
  match stream.recipes[index]? with
  | none =>
    writeablePutGroupEnd
      { writerDeactivate rotated "Write error" with isDeactivated := true }
      true
  | some recipe =>
    let registered := { rotated with currentRecipe := some recipe }
    if registered.hasPulled then
      getRandomBlocks registered
    else
      registered

/-- The text of the error for a put that the cache did not take. -/
def putFailure : CachePut → Option String
  | .full => some "cache full during put: configure larger max_capacity_bytes"
  | .error => some "cache write error during put"
  | .new => none
  | .exists => none

/-- `CACHE_PUT_RESULT`. -/
def writerPutResult (stream : WriteableOffStream) (result : CachePut)
    (promoted : Bool) (hash : Hash) (fib : UInt32) : WriteableOffStream :=
  match putFailure result with
  | some message =>
    if stream.isDeactivated then
      stream
    else
      (writeablePutGroupEnd (releaseEphemeralClaims { stream with isDeactivated := true })
        true).send [.notify (.error message)]
  | none =>
    if result = .exists then
      if promoted ∧ stream.hasNetwork then
        stream.send [.rankAdvertise hash fib]
      else
        stream
    else if stream.hasNetwork ∧ ¬ stream.isEphemeral then
      stream.send [.storeBlock hash fib]
    else
      stream

/-- `writeable_off_stream_dispatch`. -/
def writeableOffStreamDispatch (stream : WriteableOffStream) : WriterMessage → WriteableOffStream
  | .write data => writeableWrite hashData stream data
  | .finalize frand => writeableFinalize hashData stream frand
  | .recipeBlockData block => recipeBlockData hashData stream block
  | .recipeRotate => recipeRotate stream
  | .cachePutResult result promoted hash fib => writerPutResult stream result promoted hash fib
  | .closeStream => { stream.send [.notify .close] with isDeactivated := true }

end

end Liboffs.OffStreams

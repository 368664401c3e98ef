import Liboffs.OffStreams.Tuple

/-!
# The readable OFF stream

The stream is given the tuples of a file one after the other.  For each it
asks the tuple cache and then, block by block, the block cache; the blocks
are added up in the order in which they arrive, and the sum is rendered up to
the last byte of the file.  Tuples that arrive meanwhile wait in a queue.

The dispatcher returns nothing where the program would use a tuple that is
not there.
-/

namespace Liboffs.OffStreams

open BlockCache Library Library.ByteOrder

/-- `off_stream_state_e`. -/
inductive OffStreamState where
  | fetchingBlocks
  | awaitingNetwork
deriving DecidableEq

/-- What the stream sends to others. -/
inductive ReaderEffect where
  | notify (event : StreamEvent Bytes)
  | blockCacheGet (hash : Hash)
  | tupleCacheGet (tuple : Tuple)
  | tupleCachePut (tuple : Tuple) (value : Bytes)
  | findBlock (hash : Hash)

/-- `ori_t`, as far as the stream looks at it. -/
structure Ori where
  blockType : BlockSize
  fileOffset : Nat
  finalByte : Nat

/-- `readable_off_stream_t` with what it has sent, the oldest first. -/
structure ReadableOffStream where
  hasTupleCache : Bool
  hasNetwork : Bool
  finalByte : Nat
  sentBytes : Nat
  offsetRemainder : Nat
  offsetApplied : Bool
  loadMode : Bool
  closed : Bool
  tuplesLoaded : Nat
  tuplesSkipped : Nat
  state : OffStreamState
  pendingTuple : Option Tuple
  xorAccumulator : Option Bytes
  blocksExpected : Nat
  blocksReceived : Nat
  pendingFetches : List Hash
  staleFetches : List Hash
  tupleQueue : List Tuple
  isDeactivated : Bool
  sent : List ReaderEffect

inductive ReaderMessage where
  | write (tuple : Tuple)
  | tupleCacheGetResult (value : Option Bytes)
  | cacheGetResult (hash : Hash) (block : Option Block)
  | findBlockResult (hash : Hash) (found : Bool) (block : Option Block)
  | closeStream

/-- `readable_off_stream_create_ex`. -/
def readableOffStreamCreateEx (ori : Ori)
    (hasTupleCache hasNetwork loadMode : Bool) : ReadableOffStream where
  hasTupleCache := hasTupleCache
  hasNetwork := hasNetwork
  finalByte := ori.finalByte
  sentBytes := ori.fileOffset
  offsetRemainder := ori.fileOffset % ori.blockType.bytes
  offsetApplied := false
  loadMode := loadMode
  closed := false
  tuplesLoaded := 0
  tuplesSkipped := 0
  state := .fetchingBlocks
  pendingTuple := none
  xorAccumulator := none
  blocksExpected := 0
  blocksReceived := 0
  pendingFetches := []
  staleFetches := []
  tupleQueue := []
  isDeactivated := false
  sent := []

namespace ReadableOffStream

/-- Send effects, in order. -/
def send (stream : ReadableOffStream) (effects : List ReaderEffect) : ReadableOffStream :=
  { stream with sent := stream.sent ++ effects }

end ReadableOffStream

/-- Where the bytes to render start in a block. -/
def renderStart (stream : ReadableOffStream) : Nat :=
  if ¬ stream.offsetApplied ∧ 0 < stream.offsetRemainder then
    stream.offsetRemainder
  else
    0

/-- How many bytes of a block are rendered. -/
def renderLength (stream : ReadableOffStream) (data : Bytes) : Nat :=
  let available := data.length - renderStart stream
  if stream.finalByte < stream.sentBytes + available then
    stream.finalByte - stream.sentBytes
  else
    available

/-- The events of a stream that has rendered its last byte. -/
def closeAtEnd (stream : ReadableOffStream) : ReadableOffStream :=
  if stream.finalByte ≤ stream.sentBytes then
    { stream with closed := true }.send [.notify .finished, .notify .complete, .notify .close]
  else
    stream

/-- `_render_origin_data`; blocks are longer than the remainder of the offset. -/
def renderOriginData (stream : ReadableOffStream) (data : Bytes) : ReadableOffStream :=
  let start := renderStart stream
  let length := renderLength stream data
  let rendered :=
    match bufferSlice data start (start + length) with
    | some slice => stream.send [.notify (.data slice)]
    | none => stream
  closeAtEnd
    { rendered with
      offsetApplied := stream.offsetApplied || decide (0 < stream.offsetRemainder)
      sentBytes := stream.sentBytes + length }

/-- `_notify_load_tuple`. -/
def notifyLoadTuple (stream : ReadableOffStream) : ReadableOffStream :=
  if stream.loadMode then
    stream.send [.notify (.loadTuple stream.tuplesLoaded stream.tuplesSkipped)]
  else
    stream

/-- `_tally_tuple_loaded`. -/
def tallyTupleLoaded (stream : ReadableOffStream) : ReadableOffStream :=
  notifyLoadTuple { stream with tuplesLoaded := stream.tuplesLoaded + 1 }

/-- `_start_block_fetches`. -/
def startBlockFetches (stream : ReadableOffStream) (tuple : Tuple) : ReadableOffStream :=
  { stream with
    blocksExpected := tuple.hashes.length
    blocksReceived := 0
    xorAccumulator := none
    pendingFetches := tuple.hashes.reverse }.send (tuple.hashes.map .blockCacheGet)

/-- `_start_tuple_cache_lookup`. -/
def startTupleCacheLookup (stream : ReadableOffStream) (tuple : Tuple) : ReadableOffStream :=
  let pending := { stream with pendingTuple := some tuple }
  if stream.hasTupleCache then
    pending.send [.tupleCacheGet tuple]
  else
    startBlockFetches pending tuple

/-- `_drain_tuple_queue`. -/
def drainTupleQueue (stream : ReadableOffStream) : ReadableOffStream :=
  if stream.isDeactivated ∨ stream.pendingTuple.isSome then
    stream
  else
    match stream.tupleQueue with
    | [] => stream
    | tuple :: rest => startTupleCacheLookup { stream with tupleQueue := rest } tuple

/-- `_finish_decode_and_render`. -/
def finishDecodeAndRender (stream : ReadableOffStream) : Option ReadableOffStream :=
  match stream.xorAccumulator with
  | none => some { stream with pendingTuple := none }
  | some data => do
      let cached ←
        if stream.hasTupleCache then
          stream.pendingTuple.map fun tuple => stream.send [.tupleCachePut tuple data]
        else
          some stream
      some (drainTupleQueue
        { renderOriginData (tallyTupleLoaded cached) data with
          xorAccumulator := none
          pendingTuple := none
          blocksExpected := 0
          blocksReceived := 0
          pendingFetches := [] })

/-- `_skip_pending_tuple`. -/
def skipPendingTuple (stream : ReadableOffStream) : ReadableOffStream :=
  drainTupleQueue (notifyLoadTuple
    { stream with
      tuplesSkipped := stream.tuplesSkipped + 1
      staleFetches := stream.pendingFetches.reverse ++ stream.staleFetches
      pendingFetches := []
      xorAccumulator := none
      pendingTuple := none
      blocksExpected := 0
      blocksReceived := 0
      state := .fetchingBlocks })

/-- `_prune_answered_fetch`. -/
def pruneAnsweredFetch (stream : ReadableOffStream) (hash : Hash) : ReadableOffStream :=
  { stream with pendingFetches := stream.pendingFetches.erase hash }

/-- Add a block to the sum of the tuple, and render a sum that is complete. -/
def accumulateBlock (stream : ReadableOffStream) (hash : Hash)
    (block : Block) : Option ReadableOffStream :=
  let pruned := pruneAnsweredFetch stream hash
  let received :=
    { pruned with
      xorAccumulator :=
        match stream.xorAccumulator with
        | none => some block.data
        | some sum => some (bufferXor sum block.data)
      blocksReceived := stream.blocksReceived + 1 }
  if received.blocksExpected ≤ received.blocksReceived then
    finishDecodeAndRender received
  else
    some received

/-- `stream_deactivate`, after the tuple in flight has been given up. -/
def abandonTuple (stream : ReadableOffStream) (message : String) : ReadableOffStream :=
  let abandoned := { stream with xorAccumulator := none, pendingTuple := none }
  if stream.isDeactivated then
    abandoned
  else
    { abandoned with isDeactivated := true }.send [.notify (.error message), .notify .close]

/-- `OFF_STREAM_WRITE`. -/
def offStreamWrite (stream : ReadableOffStream) (tuple : Tuple) : ReadableOffStream :=
  if stream.isDeactivated then
    stream
  else if stream.pendingTuple.isSome then
    { stream with tupleQueue := stream.tupleQueue ++ [tuple] }
  else
    startTupleCacheLookup stream tuple

/-- `TUPLE_CACHE_GET_RESULT`. -/
def readerTupleCacheGetResult (stream : ReadableOffStream) : Option Bytes → Option ReadableOffStream
  | some data =>
    if stream.isDeactivated then
      some stream
    else
      some (drainTupleQueue
        { renderOriginData (tallyTupleLoaded stream) data with pendingTuple := none })
  | none =>
    if stream.isDeactivated then
      some stream
    else
      stream.pendingTuple.map (startBlockFetches stream)

/-- `CACHE_GET_RESULT`. -/
def readerCacheGetResult (stream : ReadableOffStream) (hash : Hash) :
    Option Block → Option ReadableOffStream
  | some block =>
    if stream.isDeactivated then
      some stream
    else if hash ∈ stream.staleFetches then
      some { stream with staleFetches := stream.staleFetches.erase hash }
    else
      accumulateBlock stream hash block
  | none =>
    if stream.isDeactivated then
      some stream
    else if hash ∈ stream.staleFetches then
      some { stream with staleFetches := stream.staleFetches.erase hash }
    else if stream.hasNetwork then
      some ({ stream with state := .awaitingNetwork }.send [.findBlock hash])
    else if stream.loadMode then
      some (skipPendingTuple (pruneAnsweredFetch stream hash))
    else
      some (abandonTuple stream "Block not found in cache")

/-- `NETWORK_FIND_BLOCK_RESULT`. -/
def readerFindBlockResult (stream : ReadableOffStream) (hash : Hash)
    (found : Bool) (block : Option Block) : Option ReadableOffStream :=
  if hash ∈ stream.staleFetches then
    some { stream with staleFetches := stream.staleFetches.erase hash }
  else if found then
    match block with
    | some block => accumulateBlock stream hash block
    | none => some ({ stream with state := .fetchingBlocks }.send [.blockCacheGet hash])
  else if stream.loadMode then
    some (skipPendingTuple (pruneAnsweredFetch stream hash))
  else
    some (abandonTuple stream "Block not found on network")

/-- `_close_stream`. -/
def readerCloseStream (stream : ReadableOffStream) : ReadableOffStream :=
  { stream with
    pendingTuple := none
    xorAccumulator := none
    tupleQueue := []
    pendingFetches := []
    staleFetches := []
    closed := true
    isDeactivated := true }.send [.notify .close]

/-- `readable_off_stream_dispatch`. -/
def readableOffStreamDispatch (stream : ReadableOffStream) :
    ReaderMessage → Option ReadableOffStream
  | .write tuple => some (offStreamWrite stream tuple)
  | .tupleCacheGetResult value => readerTupleCacheGetResult stream value
  | .cacheGetResult hash block => readerCacheGetResult stream hash block
  | .findBlockResult hash found block => readerFindBlockResult stream hash found block
  | .closeStream =>
    if stream.isDeactivated then
      some stream
    else
      some (readerCloseStream stream)

end Liboffs.OffStreams

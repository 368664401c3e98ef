import Liboffs.OffStreams.ReadableOffStream

/-!
# The readable descriptor

The stream walks the chain of the blocks of a descriptor and sends the tuples of the file.  It
takes hashes from the front of a block; while a tuple is incomplete, the last hash names the next
block.

Tuples before the offset are passed over.  Hashes have the length of the pad, and the functions
return nothing where the program would not end or would use a missing buffer.
-/

namespace Liboffs.OffStreams

open Library Library.ByteOrder

/-- `descriptor_state_e`. -/
inductive DescriptorState where
  | fetchingBlock
  | awaitingNetwork
deriving DecidableEq

/-- What the stream sends to others. -/
inductive DescriptorReaderEffect where
  | notify (event : StreamEvent (List Bytes))
  | blockCacheGet (hash : Bytes)
  | findBlock (hash : Bytes)

/-- `ori_t`, as far as the descriptor looks at it. -/
structure DescriptorOri extends Ori where
  tupleSize : Nat
  descriptorOffset : Nat
  descriptorHash : Option Bytes

/-- `readable_descriptor_t` with what it has sent, the oldest first. -/
structure ReadableDescriptor where
  hasNetwork : Bool
  ori : DescriptorOri
  tupleCount : Nat
  cutPoint : Nat
  offsetTuple : Nat
  descriptorPad : Nat
  tupleCounter : Nat
  currentDescriptor : Option Bytes
  currentTuple : Option (List Bytes)
  offsetRemainder : Option Bytes
  nextDescriptorHash : Option Bytes
  expectedHash : Option Bytes
  state : DescriptorState
  isDeactivated : Bool
  sent : List DescriptorReaderEffect

inductive DescriptorReaderMessage where
  | push
  | cacheGetResult (hash : Bytes) (block : Option Bytes)
  | findBlockResult (hash : Bytes) (found : Bool) (block : Option Bytes)
  | closeStream

/-- `readable_descriptor_create`. -/
def readableDescriptorCreate (ori : DescriptorOri) (descriptorPad : Nat)
    (hasNetwork : Bool) : ReadableDescriptor where
  hasNetwork := hasNetwork
  ori := ori
  tupleCount := ori.finalByte / ori.blockType.bytes +
    if 0 < ori.finalByte % ori.blockType.bytes then 1 else 0
  cutPoint := ori.blockType.bytes / descriptorPad * descriptorPad
  offsetTuple := ori.fileOffset / ori.blockType.bytes
  descriptorPad := descriptorPad
  tupleCounter := 0
  currentDescriptor := none
  currentTuple := none
  offsetRemainder := none
  nextDescriptorHash := none
  expectedHash := none
  state := .fetchingBlock
  isDeactivated := false
  sent := []

namespace ReadableDescriptor

/-- Send effects, in order. -/
def send (desc : ReadableDescriptor) (effects : List DescriptorReaderEffect) : ReadableDescriptor :=
  { desc with sent := desc.sent ++ effects }

/-- The hashes of the tuple that is being filled. -/
def tuple (desc : ReadableDescriptor) : List Bytes :=
  desc.currentTuple.getD []

end ReadableDescriptor

/-- The difference of two numbers of type `size_t`. -/
def sizeSub (left right : Nat) : Nat :=
  (left + 2 ^ 64 - right) % 2 ^ 64

def bufferRest (buffer : Bytes) (position : Nat) : Option Bytes :=
  if position < buffer.length then
    bufferSlice buffer position buffer.length
  else
    none

/--
`_move_to_offset`: whole tuples before the offset are passed over, and hashes of a tuple that goes
on are kept.
-/
def moveToOffset (desc : ReadableDescriptor) (descriptor : Bytes) :
    ReadableDescriptor × Option Bytes × Option Bytes :=
  let combined := 0 < (desc.offsetRemainder.getD []).length
  let buffer :=
    if combined then desc.offsetRemainder.getD [] ++ descriptor
    else descriptor
  let desc := if combined then { desc with offsetRemainder := none } else desc
  let entrySize := desc.descriptorPad * desc.ori.tupleSize
  if 0 < desc.offsetTuple ∧ desc.tupleCounter < desc.offsetTuple then
    let link := sizeSub buffer.length desc.descriptorPad
    if link / entrySize + desc.tupleCounter < desc.offsetTuple then
      ({ desc with
          tupleCounter := desc.tupleCounter + link / entrySize
          offsetRemainder := bufferSlice buffer (link - link % entrySize) link },
        bufferSlice buffer link buffer.length, none)
    else
      let cut := (desc.offsetTuple - desc.tupleCounter) * desc.ori.tupleSize * desc.descriptorPad
      ({ desc with tupleCounter := desc.tupleCounter + cut / entrySize },
        bufferSlice buffer cut (cut + desc.descriptorPad),
        bufferRest buffer (cut + desc.descriptorPad))
  else
    (desc, bufferSlice buffer 0 desc.descriptorPad, bufferRest buffer desc.descriptorPad)

/-- How the inner loop of `_process_descriptor` is left. -/
inductive TupleFill where
  | full (desc : ReadableDescriptor) (current : Option Bytes)
  | more (desc : ReadableDescriptor)
  | stopped (desc : ReadableDescriptor)

def fillLoop : Nat → ReadableDescriptor → Option Bytes → Option Bytes → Option TupleFill
  | 0, _, _, _ => none
  | rounds + 1, desc, key, current =>
    if desc.tuple.length < desc.ori.tupleSize then
      if (current.getD []).isEmpty then
        match key with
        | some key => some (.more { desc with nextDescriptorHash := some key })
        | none => some (.stopped { desc with currentDescriptor := none })
      else
        match key with
        | none => none
        | some key =>
          let pushed := { desc with currentTuple := some (desc.tuple ++ [key]) }
          if pushed.tuple.length = desc.ori.tupleSize then
            some (.full pushed current)
          else
            let moved := moveToOffset pushed (current.getD [])
            fillLoop rounds moved.1 moved.2.1 moved.2.2
    else
      some (.full desc current)

/-- A full tuple is sent. -/
def notifyTuple (desc : ReadableDescriptor) : ReadableDescriptor :=
  { desc with
    currentTuple := none
    tupleCounter := desc.tupleCounter + 1 }.send [.notify (.data desc.tuple)]

/-- Behind the last tuple the stream closes. -/
def completeTuples (desc : ReadableDescriptor) : ReadableDescriptor :=
  { desc with isDeactivated := true }.send [.notify .complete, .notify .close]

/-- What the loop of `_process_descriptor` does when the inner loop is left. -/
def afterFill (again : ReadableDescriptor → Option Bytes → Option (ReadableDescriptor × Bool)) :
    Option TupleFill → Option (ReadableDescriptor × Bool)
  | none => none
  | some (.more desc) => some (desc, true)
  | some (.stopped desc) => some (desc, false)
  | some (.full desc current) =>
    if desc.tuple.length = desc.ori.tupleSize then
      let notified := notifyTuple desc
      if notified.tupleCount ≤ notified.tupleCounter then
        some (completeTuples notified, false)
      else
        again notified current
    else
      again desc current

/--
The loop of `_process_descriptor`, with whether another block is needed; a round takes a hash out
of the buffer.
-/
def processLoop : Nat → ReadableDescriptor → Option Bytes → Option (ReadableDescriptor × Bool)
  | 0, _, _ => none
  | rounds + 1, desc, current =>
    if (current.getD []).isEmpty ∨ desc.isDeactivated then
      some (desc, false)
    else
      let moved := moveToOffset { desc with currentTuple := some desc.tuple } (current.getD [])
      afterFill (processLoop rounds) (fillLoop (rounds + 1) moved.1 moved.2.1 moved.2.2)

/-- The bytes of a block that `_process_descriptor` looks at. -/
def descriptorPart (desc : ReadableDescriptor) (blockData : Bytes) : Option Bytes :=
  match desc.currentDescriptor with
  | some current => some current
  | none =>
    if 0 < desc.ori.descriptorOffset ∧ desc.ori.descriptorHash.isSome then do
      let current ← bufferSlice blockData 0 desc.cutPoint
      bufferSlice current desc.ori.descriptorOffset current.length
    else
      bufferSlice blockData 0 desc.cutPoint

/-- `_process_descriptor`. -/
def processDescriptor (desc : ReadableDescriptor) (blockData : Bytes) :
    Option (ReadableDescriptor × Bool) :=
  let current := descriptorPart desc blockData
  processLoop ((current.getD []).length + (desc.offsetRemainder.getD []).length + 1)
    { desc with currentDescriptor := none } current

/-- `_fetch_descriptor_block`. -/
def fetchDescriptorBlock (desc : ReadableDescriptor) (hash : Bytes) : ReadableDescriptor :=
  { desc with expectedHash := some hash }.send [.blockCacheGet hash]

/-- `stream_deactivate`. -/
def descriptorReaderDeactivate (desc : ReadableDescriptor)
    (message : String) : ReadableDescriptor :=
  if desc.isDeactivated then
    desc
  else
    { desc with isDeactivated := true }.send [.notify (.error message), .notify .close]

/-- `READABLE_PUSH`.  The error that is sent has no message. -/
def descriptorPush (desc : ReadableDescriptor) : ReadableDescriptor :=
  if desc.isDeactivated ∨ desc.currentDescriptor.isSome then
    desc
  else
    match desc.nextDescriptorHash.orElse fun _ => desc.ori.descriptorHash with
    | none => { desc with isDeactivated := true }.send [.notify (.error "")]
    | some hash => fetchDescriptorBlock { desc with nextDescriptorHash := none } hash

/-- A block of the chain, from the cache or from the network. -/
def descriptorBlock (desc : ReadableDescriptor) (data : Bytes) : Option ReadableDescriptor := do
  let (processed, needMore) ← processDescriptor desc data
  match processed.nextDescriptorHash with
  | some hash =>
    if needMore ∧ ¬ processed.isDeactivated then
      return fetchDescriptorBlock { processed with nextDescriptorHash := none } hash
    else
      return processed
  | none => return processed

/-- `CACHE_GET_RESULT`. -/
def descriptorGetResult (desc : ReadableDescriptor) (hash : Bytes)
    (block : Option Bytes) : Option ReadableDescriptor :=
  if desc.isDeactivated then
    some desc
  else if desc.expectedHash.isSome ∧ desc.expectedHash ≠ some hash then
    some desc
  else
    let desc := { desc with expectedHash := none }
    match block with
    | some data => descriptorBlock desc data
    | none =>
      if desc.hasNetwork then
        some ({ desc with state := .awaitingNetwork }.send [.findBlock hash])
      else
        some (descriptorReaderDeactivate desc "Descriptor block not found")

/-- `NETWORK_FIND_BLOCK_RESULT`. -/
def descriptorFindResult (desc : ReadableDescriptor) (hash : Bytes)
    (found : Bool) (block : Option Bytes) : Option ReadableDescriptor :=
  if found then
    match block with
    | some data => descriptorBlock desc data
    | none => some ({ desc with state := .fetchingBlock }.send [.blockCacheGet hash])
  else
    some { descriptorReaderDeactivate desc
      "Descriptor block not found on network" with isDeactivated := true }

/-- `readable_descriptor_dispatch`. -/
def readableDescriptorDispatch (desc : ReadableDescriptor) :
    DescriptorReaderMessage → Option ReadableDescriptor
  | .push => some (descriptorPush desc)
  | .cacheGetResult hash block => descriptorGetResult desc hash block
  | .findBlockResult hash found block => descriptorFindResult desc hash found block
  | .closeStream => some { desc.send [.notify .close] with isDeactivated := true }

end Liboffs.OffStreams

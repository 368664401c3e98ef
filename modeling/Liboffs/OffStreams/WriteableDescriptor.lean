import Liboffs.OffStreams.WriteableOffStream

/-!
# The writeable descriptor

The descriptor of a file is the list of its tuples.  The writeable descriptor
collects the hashes of the tuples and, when it is closed, cuts them into
chunks and puts these in the cache as a chain of blocks: behind the hashes
each block has the hash of the next one, so that the chain is built from its
end.

Like the OFF stream it is an actor, and what it sends is kept in order in its
state.
-/

namespace Liboffs.OffStreams

open BlockCache Library Library.ByteOrder List

/-- What the descriptor sends to others. -/
inductive DescriptorEffect where
  | notify (event : StreamEvent Hash)
  | put (block : Block) (group : UInt32)
  | putEphemeral (block : Block)

/-- `writeable_descriptor_t` with what it has sent, the oldest first. -/
structure WriteableDescriptor where
  hasNetwork : Bool
  blockType : BlockSize
  tupleSize : Nat
  descriptorPad : Nat
  cutPoint : Nat
  descriptor : Bytes
  sentDescriptor : Bool
  isEphemeral : Bool
  putGroup : UInt32
  isDeactivated : Bool
  sent : List DescriptorEffect

open WriteableDescriptor

/-- `writeable_descriptor_create` and `writeable_descriptor_set_ephemeral`. -/
def writeableDescriptorCreate (blockType : BlockSize) (descriptorPad tupleSize : Nat)
    (hasNetwork isEphemeral : Bool) (putGroup : UInt32) : WriteableDescriptor where
  hasNetwork := hasNetwork
  blockType := blockType
  tupleSize := tupleSize
  descriptorPad := descriptorPad
  cutPoint := blockType.bytes / descriptorPad * descriptorPad
  descriptor := []
  sentDescriptor := false
  isEphemeral := isEphemeral
  putGroup := putGroup
  isDeactivated := false
  sent := []

namespace WriteableDescriptor

/-- Send effects, in order. -/
def send (stream : WriteableDescriptor) (effects : List DescriptorEffect) : WriteableDescriptor :=
  { stream with sent := stream.sent ++ effects }

/-- The room for hashes in a block that has a next one, as a `size_t`. -/
def chunkSize (stream : WriteableDescriptor) : Nat :=
  (stream.cutPoint + 2 ^ 64 - stream.descriptorPad) % 2 ^ 64

end WriteableDescriptor

/-- `stream_deactivate`. -/
def descriptorDeactivate (stream : WriteableDescriptor) (message : String) : WriteableDescriptor :=
  if stream.isDeactivated then
    stream
  else
    { stream with isDeactivated := true }.send [.notify (.error message), .notify .close]

/-- `WRITEABLE_DESCRIPTOR_WRITE`. -/
def descriptorWrite (stream : WriteableDescriptor) (tuple : Tuple) : WriteableDescriptor :=
  if stream.isDeactivated then
    stream
  else if tuple.hashes.length ≠ stream.tupleSize then
    stream
  else if ∃ hash ∈ tuple.hashes,
      hash.bytes.length ≠ stream.descriptorPad then
    stream
  else
    { stream with descriptor := stream.descriptor ++ tuple.hashes.flatMap Hash.bytes }

/--
The loop that cuts the descriptor into chunks; without room for a hash in a chunk it does not end.
-/
def chunkLoop (blockSize cutPoint chunkSize : Nat) : Nat → Bytes → Option (List Bytes)
  | 0, _ => none
  | rounds + 1, remaining =>
    if cutPoint < remaining.length then do
      let chunk ← bufferSlice remaining 0 chunkSize
      let chunks ← chunkLoop blockSize cutPoint chunkSize rounds (remaining.drop chunkSize)
      return chunk :: chunks
    else if remaining.isEmpty then
      some []
    else
      some [remaining ++ List.replicate (blockSize - remaining.length) 0]

def descriptorChunks (stream : WriteableDescriptor) : Option (List Bytes) :=
  chunkLoop stream.blockType.bytes stream.cutPoint stream.chunkSize
    (stream.descriptor.length + 1) stream.descriptor

def descriptorPut (stream : WriteableDescriptor) (block : Block) : WriteableDescriptor :=
  stream.send [if stream.isEphemeral then
      .putEphemeral block
    else
      .put block stream.putGroup]

/-- The events of a descriptor that has been put. -/
def descriptorComplete (stream : WriteableDescriptor) : Option Hash → WriteableDescriptor
  | none =>
    { stream with isDeactivated := true }.send
      [.notify .finished, .notify .complete, .notify .close]
  | some hash =>
    { stream with isDeactivated := true, sentDescriptor := true }.send
      [.notify (.data hash), .notify .finished, .notify .complete, .notify .close]

/-- The bytes of the hash of the next block, if there is one. -/
def priorBytes : Option Hash → Bytes
  | none => []
  | some hash => hash.bytes

section
variable (hashData : Bytes → Hash)

/-- The loop over the chunks, from the last to the first. -/
def chainLoop : List Bytes → Option Hash → WriteableDescriptor → WriteableDescriptor
  | [], prior, stream => descriptorComplete stream prior
  | chunk :: earlier, prior, stream =>
    match blockCreateExistingDataByType hashData (chunk ++ priorBytes prior) with
    | none => descriptorDeactivate stream "Write descriptor error"
    | some block => chainLoop earlier (some block.hash) (descriptorPut stream block)

/-- `_build_descriptor_blocks`. -/
def buildDescriptorBlocks (stream : WriteableDescriptor) : Option WriteableDescriptor := do
  let chunks ← descriptorChunks stream
  return chainLoop hashData chunks.reverse none stream

/-- `CLOSE_STREAM`. -/
def descriptorClose (stream : WriteableDescriptor) : Option WriteableDescriptor :=
  if stream.isDeactivated then
    some stream
  else if stream.sentDescriptor then
    some { stream.send [.notify .close] with isDeactivated := true }
  else
    buildDescriptorBlocks hashData stream

end

/-- The blocks of a chain with the given chunks, the first one first. -/
def chainOf (hashData : Bytes → Hash) : List Bytes → List Block
  | [] => []
  | chunk :: later =>
    let blocks := chainOf hashData later
    let data := chunk ++ priorBytes (blocks.head?.map Block.hash)
    ⟨data, hashData data⟩ :: blocks

def chainHash (hashData : Bytes → Hash) (chunks : List Bytes) : Option Hash :=
  (chainOf hashData chunks).head?.map Block.hash

theorem length_chainOf (hashData : Bytes → Hash) (chunks : List Bytes) :
    (chainOf hashData chunks).length = chunks.length := by
  induction chunks with
  | nil => rfl
  | cons chunk later ih => simp [chainOf, ih]

/-- Chunks that make blocks of a type: all full but the last, which is whole. -/
def ChunksFit (type : BlockSize) : List Bytes → Prop
  | [] => True
  | [last] => last.length = type.bytes
  | chunk :: later => chunk.length + 32 = type.bytes ∧ ChunksFit type later

variable {type : BlockSize} {stream : WriteableDescriptor}

theorem ChunksFit.proper (hashData : Bytes → Hash) (fits : ChunksFit type chunks)
    (among : block ∈ chainOf hashData chunks) : Proper hashData type block := by
  induction chunks with
  | nil => cases among
  | cons chunk later ih =>
    rcases mem_cons.mp among with rfl | behind
    · refine ⟨?_, rfl⟩
      cases later with
      | nil =>
        have whole : chunk.length = type.bytes := fits
        simpa [chainOf, priorBytes] using whole
      | cons next rest =>
        simp only [chainOf, List.head?_cons, Option.map_some, priorBytes, length_append]
        rw [Hash.size]
        exact fits.1
    · apply ih _ behind
      cases later with
      | nil => trivial
      | cons next rest => exact fits.2

/-- The puts of some blocks. -/
def descriptorPuts (stream : WriteableDescriptor) (blocks : List Block) : List DescriptorEffect :=
  blocks.map fun block =>
    if stream.isEphemeral then
      .putEphemeral block
    else
      .put block stream.putGroup

section
variable (hashData : Bytes → Hash)

/-- The loop puts the blocks of the chain, the last one first, behind those already put. -/
theorem chainLoop_eq (earlier later : List Bytes) (stream : WriteableDescriptor)
    (fits : ∀ block ∈ chainOf hashData (earlier.reverse ++ later), block.data.length = type.bytes) :
    chainLoop hashData earlier (chainHash hashData later) (stream.send (descriptorPuts stream
          (chainOf hashData later).reverse)) =
      descriptorComplete (stream.send (descriptorPuts stream
          (chainOf hashData (earlier.reverse ++ later)).reverse))
        (chainHash hashData (earlier.reverse ++ later)) := by
  induction earlier generalizing later with
  | nil => rfl
  | cons chunk earlier ih =>
    have split : (chunk :: earlier).reverse ++ later = earlier.reverse ++ (chunk :: later) := by
      simp
    rw [split] at fits ⊢
    have member : ∀ (front : List Bytes), (chainOf hashData (chunk :: later)).head? ∈
          (chainOf hashData (front ++ chunk :: later)).map some := by
      intro front
      induction front with
      | nil => simp [chainOf]
      | cons first rest ih => exact mem_cons_of_mem _ ih
    have sized : (chunk ++ priorBytes (chainHash hashData later)).length = type.bytes := by
      obtain ⟨block, among, same⟩ := mem_map.mp (member earlier.reverse)
      have equal := Option.some.inj same
      have length := fits block among
      rw [equal] at length
      exact length
    rw [chainLoop, blockCreateExistingDataByType_of_length sized, ← ih (chunk :: later) fits]
    simp [descriptorPut, send, descriptorPuts, chainOf, chainHash]

/-- A descriptor whose chunks make blocks is put as a chain. -/
theorem buildDescriptorBlocks_eq (cut : descriptorChunks stream = some chunks)
    (fits : ChunksFit type chunks) :
    buildDescriptorBlocks hashData stream = some (descriptorComplete
        (stream.send (descriptorPuts stream (chainOf hashData chunks).reverse))
        (chainHash hashData chunks)) := by
  have loop := chainLoop_eq hashData chunks.reverse [] stream (by
      intro block among
      rw [reverse_reverse, append_nil] at among
      exact (fits.proper hashData among).length)
  rw [reverse_reverse, append_nil] at loop
  have same : stream.send (descriptorPuts stream (chainOf hashData []).reverse) = stream := by
    simp [send, descriptorPuts, chainOf]
  rw [same] at loop
  rw [buildDescriptorBlocks, cut]
  exact congrArg some loop

end

end Liboffs.OffStreams

import Liboffs.OffStreams.StoredTuples
import Liboffs.OffStreams.ReadTuples

/-!
# Storing a file and reading it back

The tuples of a stored file, read over a store with the blocks which were put, give the bytes of
the file, whatever the chunks, the random blocks and the order of the answers.

This needs a tuple size of two, because a tuple of one has no room for the hash of the sum, and a
last block that differs from those that wait, because the stream takes a block with its hash for
the last one.
-/

namespace Liboffs.OffStreams

open BlockCache Library Library.ByteOrder Library.Runs List

/-- The tuple sizes of `config_t`. -/
structure TupleSizes where
  minTupleSize : Nat
  maxTupleSize : Nat

/-- The checks that `config_validate` makes on the tuple sizes. -/
def configValidate (sizes : TupleSizes) : Bool :=
  ¬ sizes.maxTupleSize < sizes.minTupleSize ∧ ¬ sizes.minTupleSize = 0

/-- A store that has every block that was put. -/
def HoldsBlocks (store : Hash → Option Bytes) (sent : List WriterEffect) : Prop :=
  ∀ block ∈ blocksPut sent, store block.hash = some block.data

section
variable {hashData : Bytes → Hash} {type : BlockSize} {store : Hash → Option Bytes} {bytes : Bytes}

/-- Over the store, the blocks of a tuple add up to its origin. -/
theorem Encodes.tupleContent_eq
    (encodes : Encodes hashData type (blocksPut sent) tuple origin blocks)
    (holds : HoldsBlocks store sent) : tupleContent store tuple = origin := by
  have data : blocks.map (dataOf store ∘ Block.hash) = blocks.map Block.data := by
    apply map_congr_left
    intro block among
    simp [dataOf, holds block (encodes.stored block among)]
  rw [tupleContent, encodes.hashes, map_map, data]
  exact encodes.sum

section
variable (stored : StoredFile hashData type bytes sent)
include stored

section
variable (holds : HoldsBlocks store sent)
include holds

theorem StoredFile.tupleContent_eq (among : pair ∈ tuplesCached sent) :
    tupleContent store pair.1 = pair.2 := by
  obtain ⟨blocks, encodes⟩ := stored.encodes pair among
  exact encodes.tupleContent_eq holds

/-- The tuples add up to the blocks of the file, one for one. -/
theorem StoredFile.origins_eq :
    (tuplesOf sent).map (tupleContent store) = (tuplesCached sent).map Prod.snd := by
  rw [← stored.tuples, map_map]
  apply map_congr_left
  intro pair among
  exact stored.tupleContent_eq holds among

theorem StoredFile.readable : Readable store (tuplesCached sent) (tuplesOf sent) := by
  have source : ∀ tuple ∈ tuplesOf sent, ∃ origin blocks,
      Encodes hashData type (blocksPut sent) tuple origin blocks := by
    intro tuple among
    rw [← stored.tuples] at among
    obtain ⟨pair, member, rfl⟩ := mem_map.mp among
    exact ⟨pair.2, stored.encodes pair member⟩
  refine ⟨?_, ?_, ?_⟩
  · intro tuple among
    obtain ⟨origin, blocks, encodes⟩ := source tuple among
    rw [encodes.hashes]
    simpa using encodes.some_block
  · intro tuple among hash named
    obtain ⟨origin, blocks, encodes⟩ := source tuple among
    rw [encodes.hashes] at named
    obtain ⟨block, member, rfl⟩ := mem_map.mp named
    rw [holds block (encodes.stored block member)]
    rfl
  · intro pair among tuple _ same
    rw [← stored.tupleContent_eq holds among, tupleContent, tupleContent, same]

/-- Reading a stored file gives its bytes. -/
theorem StoredFile.read : (contentOf store (tuplesOf sent)).take bytes.length = bytes := by
  obtain ⟨padding, _, whole⟩ := stored.origins
  rw [contentOf, stored.origins_eq holds, whole]
  simp

end

end

end

/--
Storing a file and reading it back is the identity, if the last block differs from those that
wait.
-/
theorem stored_files_are_read_back (hashData : Bytes → Hash) (type : BlockSize) {tupleSize : Nat}
    (large : 2 ≤ tupleSize) (chunks : List Bytes) {recipes : List BlockRecipe}
    (some_recipe : recipes ≠ []) (hasNetwork isEphemeral : Bool) (putGroup : UInt32)
    {steps : List StoreStep} {final : Storing}
    (differs : EachStep (storeStep hashData) (LastDiffers hashData)
      (.start (writeableOffStreamCreate type tupleSize recipes hasNetwork
        isEphemeral putGroup) chunks) steps) (runs : steps.foldlM (storeStep hashData)
      (.start (writeableOffStreamCreate type tupleSize recipes hasNetwork
        isEphemeral putGroup) chunks) = some final) :
    steps.length ≤ storeBound type tupleSize chunks ∧ (Stuck (storeStep hashData) final →
        ∃ origins : List Bytes, (∀ origin ∈ origins, origin.length = type.bytes) ∧
          (∃ padding, padding.length < type.bytes ∧ origins.flatten = chunks.flatten ++ padding) ∧
          ∀ store, HoldsBlocks store final.stream.sent →
            (tuplesOf final.stream.sent).map (tupleContent store) = origins ∧
            ∀ (hasTupleCache readsNetwork loadMode : Bool)
              (readSteps : List ReadStep) (reached : Reading), readSteps.foldlM
                  (readStep store (tuplesCached final.stream.sent))
                  (.start (readableOffStreamCreateEx ⟨type, 0, chunks.flatten.length⟩ hasTupleCache
                    readsNetwork loadMode) (tuplesOf final.stream.sent)) =
                some reached →
              readSteps.length ≤ ((tuplesOf final.stream.sent).map
                fun tuple => tupleCost tuple + 1).sum ∧
              (Stuck (readStep store (tuplesCached final.stream.sent)) reached →
                renderedBytes reached.stream.sent = chunks.flatten)) := by
  obtain ⟨bounded, ends⟩ := storing_ends some_recipe large hasNetwork
    isEphemeral putGroup differs runs
  refine ⟨bounded, fun stuck => ?_⟩
  obtain ⟨_, _, stored⟩ := ends stuck
  refine ⟨(tuplesCached final.stream.sent).map Prod.snd, ?_, stored.origins, ?_⟩
  · intro origin among
    obtain ⟨pair, member, rfl⟩ := mem_map.mp among
    exact stored.sized pair member
  · intro store holds
    refine ⟨stored.origins_eq holds, ?_⟩
    intro hasTupleCache readsNetwork loadMode readSteps reached reading
    have reads := reading_ends (stored.readable holds) type hasTupleCache
      readsNetwork loadMode reading
    refine ⟨reads.1, fun ended => ?_⟩
    rw [reads.2 ended]
    exact stored.read holds

/-- A digest for small examples: the first byte. -/
def leadingByteHash (bytes : Bytes) : Hash where
  bytes := bytes.headD 0 :: List.replicate 31 0
  size := by simp

/-- A file that is about to be stored in small blocks. -/
def smallFile (tupleSize : Nat) (chunks : List Bytes) : Storing :=
  .start (writeableOffStreamCreate .nano tupleSize [⟨false⟩] false false 1) chunks

/-- A file is written in one chunk and gets one random block of zeros. -/
def storeInOneBlock : List StoreStep :=
  [.write, .finalize fun _ => 0, .deliver (List.replicate 136 0),
    .accepted 0 true false 0, .accepted 0 true false 0]

/-- One byte is stored in tuples of two. -/
theorem one_byte_is_stored :
    ∃ final, storeInOneBlock.foldlM (storeStep leadingByteHash) (smallFile 2 [[1]]) = some final ∧
      storeInOneBlock.length ≤ storeBound .nano 2 [[1]] := by
  have ran : (storeInOneBlock.foldlM (storeStep leadingByteHash)
      (smallFile 2 [[1]])).isSome = true := by
    decide +kernel
  obtain ⟨final, runs⟩ := Option.isSome_iff_exists.mp ran
  have differs : EachStep (storeStep leadingByteHash)
      (LastDiffers leadingByteHash) (smallFile 2 [[1]])
      storeInOneBlock := by
    decide +kernel
  exact ⟨final, runs, (stored_files_are_read_back leadingByteHash .nano
    (by decide) [[1]] (by simp) false false 1 differs runs).1⟩

/-- The bytes that are read back without a tuple cache, if all goes well. -/
def readBack (length : Nat) (readSteps : List ReadStep) (final : Storing) : Option Bytes :=
  let blocks := blocksPut final.stream.sent
  let store := fun hash => (blocks.find? fun block => block.hash = hash).map Block.data
  (readSteps.foldlM (readStep store [])
    (.start (readableOffStreamCreateEx ⟨.nano, 0, length⟩ false false false)
      (tuplesOf final.stream.sent))).bind fun reached =>
    if final.stream.completed ∧ reached.remaining = [] ∧
        reached.gets = [] then
      some (renderedBytes reached.stream.sent)
    else
      none

/-- With the tuple size one the random block is read back, and equal last blocks lose one. -/
theorem files_are_not_read_back :
    configValidate ⟨1, 1⟩ = true ∧ ((storeInOneBlock.foldlM (storeStep leadingByteHash)
        (smallFile 1 [[1]])).bind (readBack 1 [.feed, .blockReply 0])) = some [0] ∧
      (storeInOneBlock.foldlM (storeStep leadingByteHash) (smallFile 2 [List.replicate 271 0])).bind
          (readBack 271 [.feed, .blockReply 0, .blockReply 0]) = some (List.replicate 136 0) := by
  decide +kernel

end Liboffs.OffStreams

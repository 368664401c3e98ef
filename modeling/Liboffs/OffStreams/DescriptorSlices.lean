import Liboffs.OffStreams.DescriptorChain

/-!
# The hashes of a descriptor block

Besides the readable descriptor two other components walk the chain of a
descriptor: the representation actor and the recycler.  Both look at a block
in the same way.  The places before the last one hold hashes, those of zeros
are skipped, and the last bytes of the block are the hash of the next block,
unless they are zeros.
-/

namespace Liboffs.OffStreams

open BlockCache Library Library.ByteOrder List

/-- `_is_zero_buffer` and `_rep_is_zero_hash`. -/
def isZeroBuffer (buffer : Bytes) : Bool :=
  buffer.all (· == 0)

/-- Where the hashes of a block end. -/
def dataEnd (descriptorPad cutPoint : Nat) (blockData : Bytes) : Nat :=
  if cutPoint < blockData.length then
    sizeSub cutPoint descriptorPad
  else
    sizeSub blockData.length descriptorPad

/-- The loop over the hashes of a block; the end of the hashes bounds the rounds. -/
def sliceLoop {State : Type} (descriptorPad stop : Nat) (blockData : Bytes)
    (body : State → Nat → Bytes → State) : Nat → Nat → State → State
  | 0, _, state => state
  | rounds + 1, offset, state =>
    if offset + descriptorPad ≤ stop then
      sliceLoop descriptorPad stop blockData body rounds (offset + descriptorPad)
        (match bufferSlice blockData offset (offset + descriptorPad) with
        | none => state
        | some hash => if isZeroBuffer hash then state else body state offset hash)
    else
      state

/-- The hash of the next block, if the last bytes are not zeros. -/
def nextPointer (descriptorPad stop : Nat) (blockData : Bytes) : Option Bytes :=
  let start := sizeSub blockData.length descriptorPad
  if stop ≤ start then
    (bufferSlice blockData start blockData.length).filter fun next => ¬ isZeroBuffer next
  else
    none

/-- What is done with hashes that follow each other from an offset on. -/
def foldSlices {State : Type} (body : State → Nat → Bytes → State) :
    Nat → List Bytes → State → State
  | _, [], state => state
  | offset, key :: keys, state =>
    foldSlices body (offset + 32) keys (if isZeroBuffer key then state else body state offset key)

variable {keys : List Bytes}

/-- The loop takes the hashes from the front of a block. -/
theorem sliceLoop_eq (body : State → Nat → Bytes → State) (before behind : Bytes)
    (sized : Keys keys) (enough : keys.length < rounds) (state : State) :
    sliceLoop 32 (before.length + keys.flatten.length)
        (before ++ keys.flatten ++ behind) body rounds before.length state =
      foldSlices body before.length keys state := by
  induction keys generalizing before rounds state with
  | nil =>
    cases rounds with
    | zero => cases enough
    | succ rounds =>
      rw [sliceLoop, if_neg (by simp)]
      rfl
  | cons key keys ih =>
    cases rounds with
    | zero => cases enough
    | succ rounds =>
      have slice : bufferSlice (before ++ (key :: keys).flatten ++ behind) before.length
          (before.length + 32) = some key := by
        rw [bufferSlice, if_pos]
        · simp [← sized.head]
        · simp only [length_append, flatten_cons, sized.head]
          omega
      have place : before.length + 32 ≤ before.length + (key :: keys).flatten.length := by
        rw [flatten_cons, length_append, sized.head]
        omega
      have further := ih (before ++ key) sized.tail (Nat.lt_of_succ_lt_succ enough)
        (if isZeroBuffer key then state else
          body state before.length key)
      rw [length_append, sized.head] at further
      rw [sliceLoop, if_pos place, slice, foldSlices, ← further]
      congr 1
      · rw [flatten_cons, length_append, sized.head]
        omega
      · simp

/-- The hashes at the places of a block before the last one. -/
structure Places (type : BlockSize) (data : Bytes) (keys : List Bytes) : Prop where
  sized : data.length = type.bytes
  hashes : Keys keys
  count : keys.length + 1 = hashesPerBlock type
  front : ∃ behind, data = keys.flatten ++ behind

/-- The hash of the block behind a block of a type. -/
def blockLink (type : BlockSize) (data : Bytes) : Option Bytes :=
  nextPointer 32 (hashesPerBlock type * 32 - 32) data

namespace Places

theorem dataEnd_eq (places : Places type data keys) :
    dataEnd 32 (type.bytes / 32 * 32) data = hashesPerBlock type * 32 - 32 := by
  rw [dataEnd, places.sized]
  cases type <;> rfl

/-- The loop goes through the places. -/
theorem sliceLoop_eq (places : Places type data keys) (body : State → Nat → Bytes → State)
    (state : State) :
    sliceLoop 32 (hashesPerBlock type * 32 - 32) data body
        (hashesPerBlock type * 32 - 32 + 1) 0 state = foldSlices body 0 keys state := by
  obtain ⟨behind, split⟩ := places.front
  have count := places.count
  have length := places.hashes.length_flatten
  have stop : hashesPerBlock type * 32 - 32 = keys.flatten.length := by omega
  have enough : keys.length < keys.flatten.length + 1 := by omega
  have loop := OffStreams.sliceLoop_eq body [] behind places.hashes enough state
  rw [length_nil, zero_add, nil_append, ← split] at loop
  rw [stop]
  exact loop

end Places

/-- The last bytes of a block are those of the next hash. -/
theorem blockLink_append (length : last.length = 32) (sized : (front ++ last).length = type.bytes) :
    blockLink type (front ++ last) = if isZeroBuffer last then none else some last := by
  have start : sizeSub (front ++ last).length 32 = front.length := by
    have bound : front.length < 2 ^ 64 := by
      rw [length_append] at sized
      have := sized
      cases type <;> simp only [BlockSize.bytes] at this <;> omega
    rw [sizeSub, length_append, length]
    omega
  have places : hashesPerBlock type * 32 - 32 ≤ front.length := by
    have room := hashesPerBlock_mul_le type
    rw [length_append] at sized
    omega
  rw [blockLink, nextPointer]
  simp only [start]
  rw [if_pos places, bufferSlice, if_pos (by simp)]
  simp only [drop_left, length_append, Nat.add_sub_cancel_left, take_length, Option.filter]
  cases isZeroBuffer last <;> rfl

end Liboffs.OffStreams

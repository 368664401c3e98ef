import Liboffs.BlockCache.Cache
import Liboffs.Library.XorBytes

/-!
# Buffers, blocks and tuples of a stream

A file is stored as tuples of hashes.  The blocks that a tuple names add up,
under exclusive or, to one block of the file.  This module has the buffers,
the construction of blocks and the tuples that both directions use.
-/

namespace Liboffs.OffStreams

open BlockCache Library Library.ByteOrder Library.XorBytes List

/-- `buffer_xor`: the bytes beyond the shorter buffer are copied. -/
def bufferXor (first second : Bytes) : Bytes :=
  let largest := if second.length < first.length then first else second
  List.zipWith (· ^^^ ·) first second ++ largest.drop (min first.length second.length)

/-- The operation on buffers is the addition of byte strings. -/
theorem bufferXor_eq : bufferXor first second = xorBytes first second := by
  induction first generalizing second with
  | nil => simp [bufferXor]
  | cons byte first ih =>
    cases second with
    | nil => simp [bufferXor]
    | cons other second =>
      rw [xorBytes_cons, ← ih]
      simp only [bufferXor, length_cons, zipWith_cons_cons,
        cons_append, Nat.succ_min_succ, Nat.add_lt_add_iff_right]
      split <;> rfl

/-- `buffer_slice`. -/
def bufferSlice (buffer : Bytes) (start stop : Nat) : Option Bytes :=
  if start ≤ stop ∧ stop ≤ buffer.length then
    some ((buffer.drop start).take (stop - start))
  else
    none

section
variable (hashData : Bytes → Hash)

/-- `block_create_existing_data_by_type`: the type is not looked at. -/
def blockCreateExistingDataByType (data : Bytes) : Option Block :=
  blockCreateExistingDataHash data (hashData data)

/-- `block_create_by_type`; a short buffer is filled up with random bytes. -/
def blockCreateByType (data : Bytes) (type : BlockSize) (frand : Nat → UInt8) : Option Block :=
  if type.bytes < data.length then
    none
  else
    let final := data ++ (List.range (type.bytes - data.length)).map frand
    some ⟨final, hashData final⟩

end

/-- A block as it is made for a type: of its size, under its own digest. -/
structure Proper (hashData : Bytes → Hash) (type : BlockSize) (block : Block) : Prop where
  length : block.data.length = type.bytes
  hash : block.hash = hashData block.data

variable {data : Bytes} {type : BlockSize}

theorem blockCreateExistingDataByType_of_length (sized : data.length = type.bytes) :
    blockCreateExistingDataByType hashData data = some ⟨data, hashData data⟩ := by
  unfold blockCreateExistingDataByType blockCreateExistingDataHash
  cases type <;> simp [sized]

theorem blockCreateByType_of_le (hashData : Bytes → Hash) (frand : Nat → UInt8)
    (fits : data.length ≤ type.bytes) :
    ∃ block, blockCreateByType hashData data type frand = some block ∧
      Proper hashData type block ∧ data <+: block.data := by
  refine ⟨_, if_neg (not_lt.mpr fits), ⟨?_, rfl⟩, ?_⟩
  · simp [Nat.add_sub_cancel' fits]
  · exact prefix_append _ _

/-- `tuple_t`: there are never more hashes than the capacity. -/
structure Tuple where
  capacity : Nat
  hashes : List Hash
  within : hashes.length ≤ capacity
deriving DecidableEq

/-- `tuple_create`. -/
def tupleCreate (capacity : Nat) : Tuple where
  capacity := capacity
  hashes := []
  within := Nat.zero_le capacity

/-- `tuple_push`: a hash for which there is no room is dropped. -/
def tuplePush (tuple : Tuple) (hash : Hash) : Tuple :=
  if room : tuple.hashes.length < tuple.capacity then
    { tuple with
      hashes := tuple.hashes ++ [hash]
      within := by
        rw [length_append]
        exact room }
  else
    tuple

/-- `tuple_equals`. -/
def tupleEquals (left right : Tuple) : Bool :=
  left.hashes = right.hashes

theorem hashes_foldl_tuplePush (hashes : List Hash) (tuple : Tuple)
    (room : tuple.hashes.length + hashes.length ≤ tuple.capacity) :
    (hashes.foldl tuplePush tuple).hashes = tuple.hashes ++ hashes := by
  induction hashes generalizing tuple with
  | nil => simp
  | cons hash rest ih =>
    have fits : tuple.hashes.length < tuple.capacity := by
      simp only [length_cons] at room
      omega
    have pushed : tuplePush tuple hash = ⟨tuple.capacity, tuple.hashes ++ [hash], by
          rw [length_append]
          exact fits⟩ := by
      rw [tuplePush, dif_pos fits]
    rw [foldl_cons, ih, pushed]
    · simp
    · rw [pushed]
      simpa [add_assoc, add_comm 1] using room

/-- `stream_event_e` with what the event carries. -/
inductive StreamEvent (Payload : Type) where
  | readable
  | data (payload : Payload)
  | error (message : String)
  | finished
  | complete
  | close
  | loadTuple (loaded skipped : Nat)
deriving DecidableEq

end Liboffs.OffStreams

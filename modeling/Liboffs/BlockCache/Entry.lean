import Liboffs.BlockCache.Fibonacci

/-!
# Index entries

An index entry gives the section and the slot in which a block is stored,
with its hit counter, the time of its ejection from the block cache, and the
claims and pins that protect it.  An entry is written to the log and to the
snapshots as an array of seven items with fixed widths, so that its encoding
has a fixed size.
-/

namespace Liboffs.BlockCache

open Library.ByteOrder Library.Cbor

/-- A digest of `BLAKE3_OUT_LEN` bytes. -/
structure Hash where
  bytes : Bytes
  size : bytes.length = 32
deriving DecidableEq

/-- `get_bit` on a buffer. -/
def getBit (buffer : Bytes) (index : Nat) : Bool :=
  (buffer.getD (index / 8) 0).toNat.testBit (index % 8)

/-- `get_bit` on a digest. -/
def Hash.bit (hash : Hash) (index : Nat) : Bool :=
  getBit hash.bytes index

/-- `index_entry_t`. -/
structure IndexEntry where
  hash : Hash
  counter : FibonacciHitCounter
  sectionId : UInt64
  sectionIndex : UInt64
  ejectionDate : UInt64
  ephemeralCount : UInt16
  pinCount : UInt32

/-- `index_entry_create`. -/
def indexEntryCreate (hash : Hash) : IndexEntry where
  hash := hash
  counter := fibonacciHitCounterCreate
  sectionId := 0
  sectionIndex := 0
  ejectionDate := 0
  ephemeralCount := 0
  pinCount := 0

/-- `index_entry_is_servable`. -/
def indexEntryIsServable (entry : IndexEntry) : Bool :=
  entry.ephemeralCount = 0

/-- `index_entry_increment`, without the promotion flag. -/
def indexEntryIncrement (entry : IndexEntry) : IndexEntry :=
  { entry with counter := (fibonacciHitCounterIncrement entry.counter).1 }

/-- `index_entry_set_ejection_date`. -/
def indexEntrySetEjectionDate (entry : IndexEntry) (date : UInt64) : IndexEntry :=
  { entry with ejectionDate := date }

/-- An entry with other numbers of claims and pins. -/
def indexEntrySetMetadata (entry : IndexEntry) (ephemeralCount : UInt16) (pinCount : UInt32) :
    IndexEntry :=
  { entry with ephemeralCount, pinCount }

/-- The claims and pins of an entry taken from another entry. -/
def indexEntryCopyMetadata (source entry : IndexEntry) : IndexEntry :=
  indexEntrySetMetadata entry source.ephemeralCount source.pinCount

@[simp]
theorem hash_indexEntryCopyMetadata (source entry : IndexEntry) :
    (indexEntryCopyMetadata source entry).hash = entry.hash := rfl

/-- `index_entry_to_cbor`. -/
def indexEntryToCbor (entry : IndexEntry) : Item :=
  .array [fibonacciHitCounterToCbor entry.counter, .bytestring entry.hash.bytes,
      .uint64 entry.sectionIndex, .uint64 entry.sectionId, .uint64 entry.ejectionDate,
      .uint16 entry.ephemeralCount, .uint32 entry.pinCount]

/-- The sixth item of an entry, clamped; older entries do not have it. -/
def cborToEphemeralCount : List Item → UInt16
  | item :: _ =>
    match cborGetInt item with
    | some value => if 0xffff < value then 0xffff else value.toUInt16
    | none => 0
  | [] => 0

/-- The seventh item of an entry, clamped; older entries do not have it. -/
def cborToPinCount : List Item → UInt32
  | _ :: item :: _ =>
    match cborGetInt item with
    | some value => if 0xffffffff < value then 0xffffffff else value.toUInt32
    | none => 0
  | _ => 0

/-- `cbor_to_index_entry`. -/
def cborToIndexEntry : Item → Decoded IndexEntry
  | .array (.array counterItems :: .bytestring bytes :: item2 :: item3 :: item4 :: more) =>
      if size : bytes.length = 32 then
        match cborGetInt item2, cborGetInt item3, cborGetInt item4 with
        | some sectionIndex, some sectionId, some ejectionDate =>
          match cborToFibonacciHitCounter counterItems with
          | .value counter =>
            .value
              { hash := ⟨bytes, size⟩
                counter
                sectionId
                sectionIndex
                ejectionDate
                ephemeralCount := cborToEphemeralCount more
                pinCount := cborToPinCount more }
          | _ => .fault
        | _, _, _ => .null
      else
        .null
  | _ => .null

variable (entry : IndexEntry)
include entry

@[simp]
theorem hash_indexEntryIncrement : (indexEntryIncrement entry).hash = entry.hash := rfl

@[simp]
theorem hash_indexEntrySetEjectionDate (date : UInt64) :
    (indexEntrySetEjectionDate entry date).hash = entry.hash := rfl

/-- Decoding an encoded entry gives the entry back. -/
theorem cborToIndexEntry_indexEntryToCbor :
    cborToIndexEntry (indexEntryToCbor entry) = .value entry := by
  have ephemeral : cborToEphemeralCount [.uint16 entry.ephemeralCount, .uint32 entry.pinCount] =
        entry.ephemeralCount := by
    have bound := entry.ephemeralCount.toNat_lt
    simp only [cborToEphemeralCount, cborGetInt]
    rw [if_neg]
    · simp
    · simp only [UInt64.lt_iff_toNat_lt, UInt16.toNat_toUInt64]
      change ¬ 65535 < _
      omega
  have pins : cborToPinCount [.uint16 entry.ephemeralCount, .uint32 entry.pinCount] =
        entry.pinCount := by
    have bound := entry.pinCount.toNat_lt
    simp only [cborToPinCount, cborGetInt]
    rw [if_neg]
    · simp
    · simp only [UInt64.lt_iff_toNat_lt, UInt32.toNat_toUInt64]
      change ¬ 4294967295 < _
      omega
  simp only [indexEntryToCbor, fibonacciHitCounterToCbor, cborToIndexEntry, entry.hash.size,
    dite_true, cborGetInt, cborToFibonacciHitCounter, cborGetUint32, ephemeral, pins]

theorem serializable_indexEntryToCbor : Serializable (indexEntryToCbor entry) := by
  simp [indexEntryToCbor, fibonacciHitCounterToCbor, Serializable, AllSerializable, entry.hash.size]

/-- An encoded entry has the size that the log reader expects. -/
theorem length_serialize_indexEntryToCbor : (serialize (indexEntryToCbor entry)).length = 86 := by
  simp [indexEntryToCbor, fibonacciHitCounterToCbor, serialize,
    serializeAll, header, entry.hash.size]

end Liboffs.BlockCache

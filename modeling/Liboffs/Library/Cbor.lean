import Mathlib.Tactic.NormNum
import Liboffs.Library.ByteOrder

/-!
# Concise binary object representation

The data items that a program builds from unsigned integers, byte strings and arrays of definite
length, with their encoding.  An integer keeps the width it was built with; lengths are written as
short as possible.

A decoder is any function that gives an encoded item back and ignores what follows it.  The last
part gives one.
-/

namespace Liboffs.Library.Cbor

open ByteOrder List

/-- A data item; negative integers have no width, and other kinds are not told apart. -/
inductive Item where
  | uint8 (value : UInt8)
  | uint16 (value : UInt16)
  | uint32 (value : UInt32)
  | uint64 (value : UInt64)
  | negint (value : UInt64)
  | bytestring (bytes : Bytes)
  | array (items : List Item)
  | other

/-- The header of an item with a length, in the shortest form. -/
def header (major : UInt8) (length : Nat) : Bytes :=
  if length < 24 then
    [major + UInt8.ofNat length]
  else if length < 256 then
    (major + 24) :: bigEndian 1 length
  else if length < 65536 then
    (major + 25) :: bigEndian 2 length
  else if length < 4294967296 then
    (major + 26) :: bigEndian 4 length
  else
    (major + 27) :: bigEndian 8 length

mutual

/-- The encoding of an item. -/
def serialize : Item → Bytes
  | .uint8 value => header 0 value.toNat
  | .uint16 value => 0x19 :: bigEndian 2 value.toNat
  | .uint32 value => 0x1a :: bigEndian 4 value.toNat
  | .uint64 value => 0x1b :: bigEndian 8 value.toNat
  | .negint value => 0x3b :: bigEndian 8 value.toNat
  | .bytestring bytes => header 0x40 bytes.length ++ bytes
  | .array items => header 0x80 items.length ++ serializeAll items
  | .other => [0xf6]

/-- The encodings of several items, one after the other. -/
def serializeAll : List Item → Bytes
  | [] => []
  | item :: rest => serialize item ++ serializeAll rest

end

mutual

/-- Whether the item is of the known kinds and its lengths fit a header. -/
def Serializable : Item → Prop
  | .uint8 _ | .uint16 _ | .uint32 _ | .uint64 _ => True
  | .bytestring bytes => bytes.length < 2 ^ 64
  | .array items => items.length < 2 ^ 64 ∧ AllSerializable items
  | .negint _ | .other => False

/-- Whether every item of a list is serializable. -/
def AllSerializable : List Item → Prop
  | [] => True
  | item :: rest => Serializable item ∧ AllSerializable rest

end

theorem allSerializable_iff : AllSerializable items ↔ ∀ item ∈ items, Serializable item := by
  induction items with
  | nil => simp [AllSerializable]
  | cons item rest ih => simp [AllSerializable, ih]

theorem header_ne_nil (major : UInt8) (length : Nat) : 0 < (header major length).length := by
  simp only [header]
  split_ifs <;> simp

theorem serialize_ne_nil (item : Item) : 0 < (serialize item).length := by
  cases item <;> simp [serialize, header_ne_nil]

/-- Read the argument that a header byte announces. -/
def readArgument (low : Nat) (bytes : Bytes) : Option (Nat × Bytes) :=
  if low < 24 then
    some (low, bytes)
  else if low = 24 then
    readBigEndian 1 bytes
  else if low = 25 then
    readBigEndian 2 bytes
  else if low = 26 then
    readBigEndian 4 bytes
  else if low = 27 then
    readBigEndian 8 bytes
  else
    none

/-- The integer item whose width the header byte announces. -/
def integerItem (low value : Nat) : Item :=
  if low ≤ 24 then
    .uint8 (UInt8.ofNat value)
  else if low = 25 then
    .uint16 (UInt16.ofNat value)
  else if low = 26 then
    .uint32 (UInt32.ofNat value)
  else
    .uint64 (UInt64.ofNat value)

/-- Read a number of items with a reader for one item. -/
def readMany (read : Bytes → Option (Item × Bytes)) : Nat → Bytes → Option (List Item × Bytes)
  | 0, bytes => some ([], bytes)
  | count + 1, bytes =>
    (read bytes).bind fun first =>
      (readMany read count first.2).map fun others => (first.1 :: others.1, others.2)

/-- Read one item; maps, tags and indefinite items are not read.  The number bounds the nesting. -/
def readItem : Nat → Bytes → Option (Item × Bytes)
  | 0, _ => none
  | _ + 1, [] => none
  | depth + 1, first :: bytes =>
    (readArgument (first.toNat % 32) bytes).bind fun argument =>
      match first.toNat / 32 with
      | 0 => some (integerItem (first.toNat % 32) argument.1, argument.2)
      | 1 => some (.negint (UInt64.ofNat argument.1), argument.2)
      | 7 => some (.other, argument.2)
      | 2 => (readBytes argument.1 argument.2).map fun parts => (.bytestring parts.1, parts.2)
      | 3 => (readBytes argument.1 argument.2).map fun parts => (.other, parts.2)
      | 4 =>
        (readMany (readItem depth) argument.1 argument.2).map fun parts => (.array parts.1, parts.2)
      | _ => none

/-- The first item of a byte string. -/
def load (bytes : Bytes) : Option Item :=
  (readItem (bytes.length + 1) bytes).map Prod.fst

/-- A header gives its major type and its length back. -/
theorem header_cases (major : UInt8) (aligned : major.toNat % 32 = 0) (small : major.toNat ≤ 128)
    {length : Nat} (fits : length < 2 ^ 64) :
    ∃ first low tail, header major length = first :: tail ∧
      first.toNat = major.toNat + low ∧ low < 32 ∧ (low ≤ 24 ↔ length < 256) ∧
      ∀ rest, readArgument low (tail ++ rest) = some (length, rest) := by
  have first (low : UInt8) (bound : low.toNat < 32) :
      (major + low).toNat = major.toNat + low.toNat := by
    rw [UInt8.toNat_add, Nat.mod_eq_of_lt (by omega)]
  simp only [header]
  split_ifs with tiny one two four
  · have low : (UInt8.ofNat length).toNat = length := by
      simp only [UInt8.toNat_ofNat']
      omega
    refine ⟨_, length, [], rfl, ?_, by omega, by omega, fun rest => ?_⟩
    · rw [first _ (by omega), low]
    · simp [readArgument, tiny]
  · refine ⟨_, 24, _, rfl, first 24 (by decide), by omega, by omega, fun rest => ?_⟩
    exact readBigEndian_append 1 (by simpa using one) rest
  · refine ⟨_, 25, _, rfl, first 25 (by decide), by omega, by omega, fun rest => ?_⟩
    exact readBigEndian_append 2 (by simpa using two) rest
  · refine ⟨_, 26, _, rfl, first 26 (by decide), by omega, by omega, fun rest => ?_⟩
    exact readBigEndian_append 4 (by simpa using four) rest
  · refine ⟨_, 27, _, rfl, first 27 (by decide), by omega, by omega, fun rest => ?_⟩
    exact readBigEndian_append 8 (by simpa using fits) rest

/-- The major type and the rest of a header byte. -/
theorem div_mod_header {first : UInt8} {major low : Nat} (number : first.toNat = 32 * major + low)
    (bound : low < 32) : first.toNat / 32 = major ∧ first.toNat % 32 = low := by
  omega

mutual

/-- The reader gives every serializable item back. -/
theorem readItem_serialize :
    (item : Item) → Serializable item → ∀ (depth : Nat) (rest : Bytes),
      (serialize item).length ≤ depth → readItem depth (serialize item ++ rest) = some (item, rest)
  | .uint8 value, _, 0, rest, enough => absurd enough (not_le.mpr (serialize_ne_nil _))
  | .uint8 value, _, depth + 1, rest, _ => by
      have small : value.toNat < 256 := value.toNat_lt
      obtain ⟨first, low, tail, equal, number, lowBound, width, argument⟩ :=
        header_cases 0 (by decide) (by decide) (show value.toNat < 2 ^ 64 by omega)
      simp only [UInt8.toNat_zero, zero_add] at number
      rw [serialize, equal, cons_append, readItem, number,
        Nat.mod_eq_of_lt lowBound, Nat.div_eq_of_lt lowBound, argument]
      simp [integerItem, width.mpr small]
  | .uint16 value, _, 0, rest, enough => by simp [serialize] at enough
  | .uint16 value, _, depth + 1, rest, _ => by
      have fits : value.toNat < 256 ^ 2 := value.toNat_lt
      rw [serialize, cons_append, readItem]
      simp [readArgument, readBigEndian_append _ fits, integerItem]
  | .uint32 value, _, 0, rest, enough => by simp [serialize] at enough
  | .uint32 value, _, depth + 1, rest, _ => by
      have fits : value.toNat < 256 ^ 4 := value.toNat_lt
      rw [serialize, cons_append, readItem]
      simp [readArgument, readBigEndian_append _ fits, integerItem]
  | .uint64 value, _, 0, rest, enough => by simp [serialize] at enough
  | .uint64 value, _, depth + 1, rest, _ => by
      have fits : value.toNat < 256 ^ 8 := value.toNat_lt
      rw [serialize, cons_append, readItem]
      simp [readArgument, readBigEndian_append _ fits, integerItem]
  | .bytestring bytes, _, 0, rest, enough => absurd enough (not_le.mpr (serialize_ne_nil _))
  | .bytestring bytes, serializable, depth + 1, rest, _ => by
      obtain ⟨first, low, tail, equal, number, lowBound, width, argument⟩ :=
        header_cases 0x40 (by decide) (by decide) serializable
      obtain ⟨major, minor⟩ : first.toNat / 32 = 2 ∧ first.toNat % 32 = low :=
        div_mod_header number lowBound
      rw [serialize, equal, append_assoc, cons_append,
        readItem, minor, argument, Option.bind_some, major]
      simp [readBytes_append]
  | .array items, _, 0, rest, enough => absurd enough (not_le.mpr (serialize_ne_nil _))
  | .array items, serializable, depth + 1, rest, enough => by
      obtain ⟨first, low, tail, equal, number, lowBound, width, argument⟩ :=
        header_cases 0x80 (by decide) (by decide) serializable.1
      obtain ⟨major, minor⟩ : first.toNat / 32 = 4 ∧ first.toNat % 32 = low :=
        div_mod_header number lowBound
      have below : (serializeAll items).length ≤ depth := by
        have nonempty := header_ne_nil 0x80 items.length
        simp only [serialize, length_append] at enough
        omega
      rw [serialize, equal, append_assoc, cons_append,
        readItem, minor, argument, Option.bind_some, major]
      simp [readMany_serialize items serializable.2 depth rest below]
  | .negint _, serializable, _, _, _ | .other, serializable, _, _, _ => absurd serializable id

theorem readMany_serialize :
    (items : List Item) → AllSerializable items → ∀ (depth : Nat) (rest : Bytes),
        (serializeAll items).length ≤ depth → readMany (readItem depth) items.length
            (serializeAll items ++ rest) = some (items, rest)
  | [], _, _, _, _ => rfl
  | item :: others, serializable, depth, rest, enough => by
      simp only [serializeAll, length_append] at enough
      simp only [length_cons, readMany, serializeAll, append_assoc]
      rw [readItem_serialize item serializable.1 depth _ (by omega)]
      simp [readMany_serialize others serializable.2 depth rest (by omega)]

end

/-- Decoding an encoded item gives the item back. -/
theorem load_serialize (serializable : Serializable item) (rest : Bytes) :
    load (serialize item ++ rest) = some item := by
  rw [load, readItem_serialize item serializable _ rest]
  · rfl
  · simp only [length_append]
    omega

end Liboffs.Library.Cbor

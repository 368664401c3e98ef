import Mathlib.Data.Nat.ModEq
import Mathlib.Tactic.Ring

/-!
# Integers as bytes

Fixed-width encodings of natural numbers with the least significant byte
first and with the most significant byte first.  Bits above the width are
dropped, so that decoding gives the number modulo a power of 256.
-/

namespace Liboffs.Library.ByteOrder

open List

/-- A byte string. -/
abbrev Bytes := List UInt8

/-- The low bytes of a number, the least significant one first. -/
def littleEndian : Nat → Nat → Bytes
  | 0, _ => []
  | width + 1, number => UInt8.ofNat number :: littleEndian width (number / 256)

/-- The number with the given bytes, the least significant one first. -/
def ofLittleEndian : Bytes → Nat
  | [] => 0
  | byte :: rest => byte.toNat + 256 * ofLittleEndian rest

/-- The low bytes of a number, the most significant one first. -/
def bigEndian (width number : Nat) : Bytes :=
  (littleEndian width number).reverse

/-- The number with the given bytes, the most significant one first. -/
def ofBigEndian (bytes : Bytes) : Nat :=
  ofLittleEndian bytes.reverse

@[simp]
theorem length_littleEndian (width number : Nat) : (littleEndian width number).length = width := by
  induction width generalizing number with
  | zero => rfl
  | succ width ih => simp [littleEndian, ih]

@[simp]
theorem length_bigEndian : (bigEndian width number).length = width := by
  simp [bigEndian]

theorem ofLittleEndian_littleEndian :
    ofLittleEndian (littleEndian width number) = number % 256 ^ width := by
  induction width generalizing number with
  | zero => simp [littleEndian, ofLittleEndian, Nat.mod_one]
  | succ width ih =>
    have low : (UInt8.ofNat number).toNat = number % 256 := by simp
    rw [littleEndian, ofLittleEndian, ih, low, Nat.pow_succ', Nat.mod_mul]

variable {number width : Nat}

theorem ofLittleEndian_of_lt (fits : number < 256 ^ width) :
    ofLittleEndian (littleEndian width number) = number := by
  rw [ofLittleEndian_littleEndian, Nat.mod_eq_of_lt fits]

/-- Take a fixed number of bytes, unless the string is too short. -/
def readBytes (count : Nat) (bytes : Bytes) : Option (Bytes × Bytes) :=
  if count ≤ bytes.length then
    some (bytes.take count, bytes.drop count)
  else
    none

theorem readBytes_append {count : Nat} {front : Bytes} (length : front.length = count) :
    readBytes count (front ++ rest) = some (front, rest) := by
  subst length
  simp [readBytes]

/-- Read a number with the most significant byte first. -/
def readBigEndian (width : Nat) (bytes : Bytes) : Option (Nat × Bytes) :=
  (readBytes width bytes).map fun parts => (ofBigEndian parts.1, parts.2)

theorem readBigEndian_append (width : Nat) (fits : number < 256 ^ width) (rest : Bytes) :
    readBigEndian width (bigEndian width number ++ rest) = some (number, rest) := by
  rw [readBigEndian, readBytes_append length_bigEndian]
  simp [ofBigEndian, bigEndian, reverse_reverse, ofLittleEndian_littleEndian, Nat.mod_eq_of_lt fits]

/-- The bytes of an array of numbers, each with the least byte first. -/
def littleEndianAll (width : Nat) (numbers : List Nat) : Bytes :=
  numbers.flatMap (littleEndian width)

/-- The numbers of an array of a given length. -/
def ofLittleEndianAll (width : Nat) : Nat → Bytes → List Nat
  | 0, _ => []
  | length + 1, bytes =>
    ofLittleEndian (bytes.take width) :: ofLittleEndianAll width length (bytes.drop width)

@[simp]
theorem length_littleEndianAll :
    (littleEndianAll width numbers).length = width * numbers.length := by
  induction numbers with
  | nil => rfl
  | cons number rest ih =>
    rw [littleEndianAll, flatMap_cons, length_append,
      length_littleEndian, length_cons, Nat.mul_succ, add_comm]
    exact congrArg (· + width) ih

theorem ofLittleEndianAll_littleEndianAll (fit : ∀ number ∈ numbers, number < 256 ^ width) :
    ofLittleEndianAll width numbers.length (littleEndianAll width numbers) = numbers := by
  induction numbers with
  | nil => rfl
  | cons number rest ih =>
    have length := length_littleEndian width number
    rw [length_cons, ofLittleEndianAll, littleEndianAll,
      flatMap_cons, take_left' length, drop_left' length,
      ofLittleEndian_of_lt (fit number mem_cons_self)]
    exact congrArg _ (ih fun other member => fit other (mem_cons_of_mem _ member))

end Liboffs.Library.ByteOrder

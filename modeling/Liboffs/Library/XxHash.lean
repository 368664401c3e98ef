import Liboffs.Library.ByteOrder

/-!
# The xxHash checksums

The 32-bit and 64-bit members of the xxHash family with seed zero.  A long
input is consumed in stripes by four accumulators, and what is left goes
through the same mixing steps that a short input goes through.
-/

namespace Liboffs.Library.XxHash

open ByteOrder

def rotateLeft32 (word amount : UInt32) : UInt32 :=
  (word <<< amount) ||| (word >>> (32 - amount))

/-- The word of the first four bytes. -/
def word32 (bytes : Bytes) : UInt32 :=
  UInt32.ofNat (ofLittleEndian (bytes.take 4))

/-- Add a word to an accumulator. -/
def round32 (accumulator word : UInt32) : UInt32 :=
  rotateLeft32 (accumulator + word * 0x85EBCA77) 13 * 0x9E3779B1

/-- The four accumulators after all stripes, and the rest of the input. -/
def stripes32 : Nat → UInt32 × UInt32 × UInt32 × UInt32 → Bytes →
      (UInt32 × UInt32 × UInt32 × UInt32) × Bytes
  | 0, accumulators, bytes => (accumulators, bytes)
  | count + 1, (first, second, third, fourth), bytes =>
    stripes32 count (round32 first (word32 bytes), round32 second (word32 (bytes.drop 4)),
        round32 third (word32 (bytes.drop 8)), round32 fourth (word32 (bytes.drop 12)))
      (bytes.drop 16)

/-- Mix in the words and bytes behind the last stripe. -/
def tail32 : Nat → UInt32 → Bytes → UInt32
  | 0, hash, _ => hash
  | fuel + 1, hash, bytes =>
    if 4 ≤ bytes.length then
      tail32 fuel (rotateLeft32 (hash + word32 bytes * 0xC2B2AE3D) 17 * 0x27D4EB2F) (bytes.drop 4)
    else
      match bytes with
      | [] => hash
      | byte :: rest =>
        tail32 fuel (rotateLeft32 (hash + byte.toUInt32 * 0x165667B1) 11 * 0x9E3779B1) rest

/-- The final mixing. -/
def avalanche32 (hash : UInt32) : UInt32 :=
  let first := (hash ^^^ (hash >>> 15)) * 0x85EBCA77
  let second := (first ^^^ (first >>> 13)) * 0xC2B2AE3D
  second ^^^ (second >>> 16)

/-- `XXH32` with seed zero. -/
def xxh32 (bytes : Bytes) : UInt32 :=
  let length := UInt32.ofNat bytes.length
  if 16 ≤ bytes.length then
    let ((first, second, third, fourth), rest) :=
      stripes32 (bytes.length / 16) (0x9E3779B1 + 0x85EBCA77, 0x85EBCA77, 0, 0 - 0x9E3779B1) bytes
    avalanche32 (tail32 (rest.length + 1) (rotateLeft32 first 1 + rotateLeft32 second 7 +
          rotateLeft32 third 12 + rotateLeft32 fourth 18 + length)
        rest)
  else
    avalanche32 (tail32 (bytes.length + 1) (0x165667B1 + length) bytes)

def rotateLeft64 (word amount : UInt64) : UInt64 :=
  (word <<< amount) ||| (word >>> (64 - amount))

/-- The word of the first eight bytes. -/
def word64 (bytes : Bytes) : UInt64 :=
  UInt64.ofNat (ofLittleEndian (bytes.take 8))

/-- Add a word to an accumulator. -/
def round64 (accumulator word : UInt64) : UInt64 :=
  rotateLeft64 (accumulator + word * 0xC2B2AE3D27D4EB4F) 31 * 0x9E3779B185EBCA87

/-- Merge an accumulator into the hash. -/
def merge64 (hash accumulator : UInt64) : UInt64 :=
  (hash ^^^ round64 0 accumulator) * 0x9E3779B185EBCA87 + 0x85EBCA77C2B2AE63

/-- The four accumulators after all stripes, and the rest of the input. -/
def stripes64 : Nat → UInt64 × UInt64 × UInt64 × UInt64 → Bytes →
      (UInt64 × UInt64 × UInt64 × UInt64) × Bytes
  | 0, accumulators, bytes => (accumulators, bytes)
  | count + 1, (first, second, third, fourth), bytes =>
    stripes64 count (round64 first (word64 bytes), round64 second (word64 (bytes.drop 8)),
        round64 third (word64 (bytes.drop 16)), round64 fourth (word64 (bytes.drop 24)))
      (bytes.drop 32)

/-- Mix in the words and bytes behind the last stripe. -/
def tail64 : Nat → UInt64 → Bytes → UInt64
  | 0, hash, _ => hash
  | fuel + 1, hash, bytes =>
    if 8 ≤ bytes.length then
      tail64 fuel (rotateLeft64 (hash ^^^ round64 0 (word64 bytes)) 27 *
          0x9E3779B185EBCA87 + 0x85EBCA77C2B2AE63)
        (bytes.drop 8)
    else if 4 ≤ bytes.length then
      tail64 fuel (rotateLeft64 (hash ^^^ (word32 bytes).toUInt64 * 0x9E3779B185EBCA87) 23 *
            0xC2B2AE3D27D4EB4F + 0x165667B19E3779F9)
        (bytes.drop 4)
    else
      match bytes with
      | [] => hash
      | byte :: rest =>
        tail64 fuel (rotateLeft64 (hash ^^^ byte.toUInt64 * 0x27D4EB2F165667C5)
            11 * 0x9E3779B185EBCA87)
          rest

/-- The final mixing. -/
def avalanche64 (hash : UInt64) : UInt64 :=
  let first := (hash ^^^ (hash >>> 33)) * 0xC2B2AE3D27D4EB4F
  let second := (first ^^^ (first >>> 29)) * 0x165667B19E3779F9
  second ^^^ (second >>> 32)

/-- `XXH64` with seed zero. -/
def xxh64 (bytes : Bytes) : UInt64 :=
  let length := UInt64.ofNat bytes.length
  if 32 ≤ bytes.length then
    let ((first, second, third, fourth), rest) :=
      stripes64 (bytes.length / 32) (0x9E3779B185EBCA87 + 0xC2B2AE3D27D4EB4F, 0xC2B2AE3D27D4EB4F, 0,
          0 - 0x9E3779B185EBCA87)
        bytes
    let converged :=
      rotateLeft64 first 1 + rotateLeft64 second 7 + rotateLeft64 third 12 + rotateLeft64 fourth 18
    let merged := merge64 (merge64 (merge64 (merge64 converged first) second) third) fourth
    avalanche64 (tail64 (rest.length + 1) (merged + length) rest)
  else
    avalanche64 (tail64 (bytes.length + 1) (0x27D4EB2F165667C5 + length) bytes)

example : xxh32 [0x61] = 0x550D7456 := by decide

example : xxh64 [0x61] = 0xD24EC4F1A98C6E5B := by decide

end Liboffs.Library.XxHash

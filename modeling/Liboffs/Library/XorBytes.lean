import Mathlib.Data.List.Induction
import Mathlib.Data.List.Perm.Basic
import Liboffs.Library.ByteOrder

/-!
# Exclusive or of byte strings

Byte strings are added byte by byte.  A shorter string counts as followed by
zeros, so that the operation is associative and commutative without any
condition on lengths, and the sum of a list of strings does not depend on the
order of the list.

The rule of a one-time pad is `xorAll_pads`: strings together with the sum of
an origin and all of them add up to the origin.
-/

namespace Liboffs.Library.XorBytes

open ByteOrder

/-- The sum of two strings. -/
def xorBytes : Bytes → Bytes → Bytes
  | [], second => second
  | first, [] => first
  | byte :: first, other :: second => (byte ^^^ other) :: xorBytes first second

@[simp]
theorem xorBytes_nil_left (bytes : Bytes) : xorBytes [] bytes = bytes := by
  rw [xorBytes]

@[simp]
theorem xorBytes_nil_right : xorBytes bytes [] = bytes := by
  cases bytes <;> rfl

@[simp]
theorem xorBytes_cons :
    xorBytes (byte :: first) (other :: second) = (byte ^^^ other) :: xorBytes first second := by
  rw [xorBytes]

@[simp]
theorem length_xorBytes : (xorBytes first second).length = max first.length second.length := by
  induction first generalizing second with
  | nil => simp
  | cons byte first ih =>
    cases second with
    | nil => simp
    | cons other second => simp [ih, Nat.succ_max_succ]

theorem xorBytes_comm (first : Bytes) : xorBytes first second = xorBytes second first := by
  induction first generalizing second with
  | nil => simp
  | cons byte first ih =>
    cases second with
    | nil => simp
    | cons other second => rw [xorBytes_cons, xorBytes_cons, UInt8.xor_comm, ih]

theorem xorBytes_assoc (first : Bytes) :
    xorBytes (xorBytes first second) third = xorBytes first (xorBytes second third) := by
  induction first generalizing second third with
  | nil => simp
  | cons byte first ih =>
    cases second with
    | nil => simp
    | cons other second =>
      cases third with
      | nil => simp
      | cons last third => simp only [xorBytes_cons, UInt8.xor_assoc, ih]

/-- A string that is added twice changes nothing. -/
theorem xorBytes_xorBytes_cancel (within : second.length ≤ first.length) :
    xorBytes second (xorBytes first second) = first := by
  induction first generalizing second with
  | nil => simp [List.length_eq_zero_iff.mp (Nat.le_zero.mp within)]
  | cons byte first ih =>
    cases second with
    | nil => simp
    | cons other second =>
      have shorter : second.length ≤ first.length := Nat.le_of_succ_le_succ within
      rw [xorBytes_cons, xorBytes_cons, ih shorter,
        UInt8.xor_comm byte other, ← UInt8.xor_assoc, UInt8.xor_self, UInt8.zero_xor]

instance : RightCommutative xorBytes where
  right_comm first second third := by
    rw [xorBytes_assoc, xorBytes_comm second, ← xorBytes_assoc]

/-- The sum of a list of strings. -/
def xorAll (strings : List Bytes) : Bytes :=
  strings.foldl xorBytes []

/-- Adding strings one after the other adds their sum. -/
theorem foldl_xorBytes (origin : Bytes) :
    strings.foldl xorBytes origin = xorBytes origin (xorAll strings) := by
  induction strings generalizing origin with
  | nil => simp [xorAll]
  | cons string rest ih =>
    rw [xorAll, List.foldl_cons, List.foldl_cons, ih,
      ih (xorBytes [] string), xorBytes_assoc, xorBytes_nil_left]

@[simp]
theorem xorAll_append_singleton :
    xorAll (strings ++ [string]) = xorBytes (xorAll strings) string := by
  simp [xorAll]

theorem length_xorAll_le (within : ∀ string ∈ strings, string.length ≤ bound) :
    (xorAll strings).length ≤ bound := by
  induction strings using List.reverseRecOn with
  | nil => simp [xorAll]
  | append_singleton strings string ih =>
    rw [xorAll_append_singleton, length_xorBytes]
    apply max_le
    · exact ih fun other among => within other (List.mem_append_left _ among)
    · exact within string (by simp)

/-- Strings no longer than the origin, with their sum and the origin, add up to the origin. -/
theorem xorAll_pads (within : ∀ pad ∈ pads, pad.length ≤ origin.length) :
    xorAll (pads ++ [pads.foldl xorBytes origin]) = origin := by
  rw [xorAll_append_singleton, foldl_xorBytes]
  exact xorBytes_xorBytes_cancel (length_xorAll_le within)

end Liboffs.Library.XorBytes

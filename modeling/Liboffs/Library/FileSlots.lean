import Liboffs.Library.ByteOrder
import Liboffs.Library.Compaction

/-!
# Files of slots

A file is read and written in slots of one size.  A write may end early and
leave a part of what was to be written; bytes that were never written are
zero.  Slots are copied within a file one after the other, up to the first
failure.
-/

namespace Liboffs.Library.FileSlots

open ByteOrder Compaction List Function

/-- A file operation ends completely, or fails and leaves some bytes if it was opened. -/
inductive FileWrite where
  | complete
  | failed (written : Option Nat)
deriving DecidableEq

/-- The operation succeeds. -/
def FileWrite.succeeds : FileWrite → Bool
  | .complete => true
  | .failed _ => false

/-- Write bytes over the beginning of others. -/
def overwrite (old new : Bytes) : Bytes :=
  new ++ old.drop new.length

/-- The part of some bytes that a failed write leaves; it lacks the end. -/
def partOf (bytes : Bytes) (written : Option Nat) : Bytes :=
  bytes.take (min (written.getD 0) (bytes.length - 1))

/-- Replace a file that is truncated when it is opened. -/
def FileWrite.replace (old : Option Bytes) (new : Bytes) : FileWrite → Option Bytes
  | .complete => some new
  | .failed none => old
  | .failed (some written) => some (partOf new (some written))

/-- A file with its content by slots and its size in bytes. -/
structure SlotFile where
  slots : Nat → Bytes
  size : Nat

/-- A file without content. -/
def SlotFile.empty (slotSize : Nat) : SlotFile where
  slots := fun _ => List.replicate slotSize 0
  size := 0

namespace SlotFile

variable (slotSize : Nat)

/-- The file reaches to the end of a slot. -/
def Covers (file : SlotFile) (index : Nat) : Prop :=
  (index + 1) * slotSize ≤ file.size

instance (file : SlotFile) (index : Nat) : Decidable (file.Covers slotSize index) :=
  inferInstanceAs (Decidable (_ ≤ _))

def read (file : SlotFile) (index : Nat) : Option Bytes :=
  if file.Covers slotSize index then some (file.slots index) else none

/-- Write a slot, possibly only a part of it. -/
def write (file : SlotFile) (index : Nat) (bytes : Bytes) : FileWrite → SlotFile
  | .complete =>
    { slots := Function.update file.slots index bytes
      size := max file.size ((index + 1) * slotSize) }
  | .failed written =>
    if partOf bytes written = [] then
      file
    else
      { slots := Function.update file.slots index
          (overwrite (file.slots index) (partOf bytes written))
        size := max file.size (index * slotSize + (partOf bytes written).length) }

/-- Cut a file behind a number of slots, or extend it to them. -/
def truncate (file : SlotFile) (count : Nat) : SlotFile where
  slots := fun index => if index < count then file.slots index else List.replicate slotSize 0
  size := count * slotSize

variable {slotSize} {file : SlotFile}

theorem read_of_covers (covers : file.Covers slotSize index) :
    file.read slotSize index = some (file.slots index) :=
  if_pos covers

theorem size_le_write (index : Nat) (bytes : Bytes) :
    file.size ≤ (file.write slotSize index bytes outcome).size := by
  cases outcome with
  | complete => exact le_max_left _ _
  | failed written =>
    rw [write]
    split
    · exact le_refl _
    · exact le_max_left _ _

theorem slots_write_of_ne (different : other ≠ index) (bytes : Bytes) (outcome : FileWrite) :
    (file.write slotSize index bytes outcome).slots other = file.slots other := by
  cases outcome with
  | complete => exact update_of_ne different _ _
  | failed written =>
    rw [write]
    split
    · rfl
    · exact update_of_ne different _ _

theorem read_truncate {count : Nat} (inside : index < count) :
    (file.truncate slotSize count).read slotSize index = some (file.slots index) := by
  have covers : (file.truncate slotSize count).Covers slotSize index :=
    Nat.mul_le_mul_right _ (Nat.succ_le_of_lt inside)
  rw [read_of_covers covers]
  exact congrArg some (if_pos inside)

end SlotFile

section
variable (slotSize : Nat) (reads : Nat → Bool) (writes : Nat → FileWrite)

/-- Copy slots in order, with the outcomes of reads and writes, and whether all was copied. -/
def copyAll : Nat → List Move → SlotFile → SlotFile × Bool
  | _, [], file => (file, true)
  | time, next :: rest, file =>
    match reads time, file.read slotSize next.1 with
    | true, some bytes =>
      let after := file.write slotSize next.2 bytes (writes time)
      if (writes time).succeeds then
        copyAll (time + 1) rest after
      else
        (after, false)
    | _, _ => (file, false)

variable {slotSize reads writes}

theorem size_le_copyAll (time : Nat) (moves : List Move) (file : SlotFile) :
    file.size ≤ (copyAll slotSize reads writes time moves file).1.size := by
  induction moves generalizing time file with
  | nil => exact le_refl _
  | cons next rest ih =>
    rw [copyAll]
    split
    · rename_i bytes _ _
      have grown : file.size ≤ (file.write slotSize next.2 bytes (writes time)).size :=
        SlotFile.size_le_write _ _
      split
      · exact le_trans grown (ih _ _)
      · exact grown
    · exact le_refl _

/-- Without failures the copies are the moves of the slots. -/
theorem copyAll_complete (readable : ∀ time, reads time = true)
    (writable : ∀ time, writes time = .complete)
    (sources : ∀ next ∈ moves, file.Covers slotSize next.1)
    (forward : ∀ next ∈ moves, next.2 < next.1) :
    copyAll slotSize reads writes time moves file =
      ({ slots := moveAll file.slots moves, size := file.size }, true) := by
  induction moves generalizing time file with
  | nil => rfl
  | cons next rest ih =>
    have source := sources next mem_cons_self
    have target : file.Covers slotSize next.2 := le_trans
      (Nat.mul_le_mul_right _ (Nat.succ_le_succ (le_of_lt (forward next mem_cons_self)))) source
    have written : file.write slotSize next.2 (file.slots next.1) .complete =
          { slots := move file.slots next, size := file.size } := by
      simp only [SlotFile.write, move, max_eq_left target]
    rw [copyAll, readable, SlotFile.read_of_covers source, writable]
    simp only [written, FileWrite.succeeds, if_true]
    rw [ih]
    · rfl
    · exact fun other member => sources other (mem_cons_of_mem _ member)
    · exact fun other member => forward other (mem_cons_of_mem _ member)

end

end Liboffs.Library.FileSlots

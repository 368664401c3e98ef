import Mathlib.Algebra.BigOperators.Group.Finset.Basic
import Mathlib.Data.Nat.ModEq
import Mathlib.Tactic.Abel

/-!
# The timing wheel

The wheel keeps entries in a ring of slots and returns the entries of a slot
when it comes there.  A system is a wheel with its history: the slot steps it
has made, the entries that were added with the step at which they are due, the
entries that were returned with the step that returned them, and the entries
that were removed.

No entry is lost or returned twice: what was added is what was returned, what
was removed and what is stored, each with the step at which it is due.  A slot
step moves the entries that are due from the stored ones to the returned ones.
-/

namespace Liboffs.Network

open Finset Function

/-- `timing_wheel_entry_t`; the peer, bucket, fingerprint and hash are not looked at. -/
structure WheelEntry (Payload : Type) where
  id : UInt64
  level : UInt32
  payload : Payload

/-- `timing_wheel_t`. -/
structure TimingWheel (Payload : Type) where
  slots : Nat → List (WheelEntry Payload)
  slotCount : Nat
  slotDurationMs : UInt64
  currentSlot : Nat
  nextId : UInt64
  count : Nat

variable {Payload : Type}

/-- `timing_wheel_init`. -/
def timingWheelInit (Payload : Type) (slotCount : Nat) (slotDurationMs : UInt64) :
    TimingWheel Payload where
  slots _ := []
  slotCount := if slotCount = 0 then 1 else slotCount
  slotDurationMs := if slotDurationMs = 0 then 1 else slotDurationMs
  currentSlot := 0
  nextId := 1
  count := 0

/-- `timing_wheel_ttl_for_level`; other levels than 0 and 2 use floating point. -/
def timingWheelTtlForLevel (floating : UInt32 → UInt64 → UInt64) (level : UInt32)
    (baseTtlMs : UInt64) : UInt64 :=
  if level = 0 then baseTtlMs
  else if level = 2 then baseTtlMs / 2
  else floating level baseTtlMs

section
variable (floating : UInt32 → UInt64 → UInt64) (wheel : TimingWheel Payload)

/-- The lifetime of a level, in slots. -/
def ttlSlots (level : UInt32) : Nat :=
  (timingWheelTtlForLevel floating level (wheel.slotDurationMs * .ofNat wheel.slotCount) /
    wheel.slotDurationMs).toNat

/-- `slots_ahead` in `timing_wheel_add`. -/
def slotsAhead (level : UInt32) : Nat :=
  let ahead := if ttlSlots floating wheel level = 0 then 1 else ttlSlots floating wheel level
  if wheel.slotCount - 1 < ahead then wheel.slotCount - 1 else ahead

/-- The entry that `timing_wheel_add` makes. -/
def newEntry (level : UInt32) (payload : Payload) : WheelEntry Payload :=
  ⟨wheel.nextId, level, payload⟩

/-- `timing_wheel_add`. -/
def timingWheelAdd (level : UInt32) (payload : Payload) : TimingWheel Payload :=
  let target := (wheel.currentSlot + slotsAhead floating wheel level) % wheel.slotCount
  { wheel with
    slots := update wheel.slots target (newEntry wheel level payload :: wheel.slots target)
    nextId := wheel.nextId + 1
    count := wheel.count + 1 }

/-- `timing_wheel_remove`, with the entry that it frees. -/
def timingWheelRemove (id : UInt64) : Option (WheelEntry Payload × TimingWheel Payload) := do
  let slot ← (List.range wheel.slotCount).find? fun slot => (wheel.slots slot).any (·.id == id)
  let entry ← (wheel.slots slot).find? (·.id == id)
  return (entry, { wheel with
    slots := update wheel.slots slot ((wheel.slots slot).eraseP (·.id == id))
    count := wheel.count - 1 })

/-- The slot to which the next step goes. -/
def nextSlot : Nat := (wheel.currentSlot + 1) % wheel.slotCount

/-- One turn of the loop of `timing_wheel_advance`, which returns the entries of the slot. -/
def slotStep : TimingWheel Payload :=
  { wheel with
    slots := update wheel.slots (nextSlot wheel) []
    currentSlot := nextSlot wheel
    count := wheel.count - (wheel.slots (nextSlot wheel)).length }

end

/-- `timing_wheel_advance`, with the entries that it returns. -/
def timingWheelAdvance : Nat → TimingWheel Payload → List (WheelEntry Payload) × TimingWheel Payload
  | 0, wheel => ([], wheel)
  | numSlots + 1, wheel =>
    let (results, after) := timingWheelAdvance numSlots (slotStep wheel)
    (wheel.slots (nextSlot wheel) ++ results, after)

/-- A wheel with its history. -/
structure WheelSystem (Payload : Type) where
  wheel : TimingWheel Payload
  steps : Nat := 0
  added : Multiset (Nat × WheelEntry Payload) := 0
  returned : Multiset (Nat × WheelEntry Payload) := 0
  removed : Multiset (WheelEntry Payload) := 0

/-- A call on the wheel. -/
inductive WheelCall (Payload : Type) where
  | add (level : UInt32) (payload : Payload)
  | remove (id : UInt64)
  | advance (numSlots : Nat)

/-- A lifetime that is at least one slot and at most all but one. -/
def clampedTtl (slotCount ttl : Nat) : Nat := max 1 (min (slotCount - 1) ttl)

/-- `timing_wheel_advance` in the history, which numbers its steps. -/
def advanceSlots : Nat → WheelSystem Payload → WheelSystem Payload
  | 0, system => system
  | numSlots + 1, system => advanceSlots numSlots
    { system with
      wheel := slotStep system.wheel
      steps := system.steps + 1
      returned := system.returned + Multiset.map (system.steps + 1, ·)
        (system.wheel.slots (nextSlot system.wheel)) }

/-- One call; an added entry is due after its lifetime. -/
def wheelStep (floating : UInt32 → UInt64 → UInt64) (system : WheelSystem Payload) :
    WheelCall Payload → WheelSystem Payload
  | .add level payload =>
    { system with
      wheel := timingWheelAdd floating system.wheel level payload
      added := system.added + {(system.steps + clampedTtl system.wheel.slotCount
        (ttlSlots floating system.wheel level), newEntry system.wheel level payload)} }
  | .remove id =>
    match timingWheelRemove system.wheel id with
    | none => system
    | some (entry, wheel) => { system with wheel, removed := system.removed + {entry} }
  | .advance numSlots => advanceSlots numSlots system

/-- The history notes the wheel and the entries that an advance returns. -/
theorem advanceSlots_eq (numSlots : Nat) (system : WheelSystem Payload) :
    (advanceSlots numSlots system).wheel = (timingWheelAdvance numSlots system.wheel).2 ∧
      Multiset.map Prod.snd (advanceSlots numSlots system).returned =
        Multiset.map Prod.snd system.returned + ↑(timingWheelAdvance numSlots system.wheel).1 := by
  induction numSlots generalizing system with
  | zero => exact ⟨rfl, (add_zero _).symm⟩
  | succ numSlots ih =>
    refine ⟨(ih _).1, (ih _).2.trans ?_⟩
    rw [Multiset.map_add, Multiset.map_map, add_assoc]
    congr 1
    change Multiset.map id _ + _ = _
    rw [Multiset.map_id, Multiset.coe_add]
    rfl

/-- The stored entries that the step after so many others returns. -/
def dueIn (wheel : TimingWheel Payload) (steps ahead : Nat) : Multiset (Nat × WheelEntry Payload) :=
  Multiset.map (steps + 1 + ahead, ·) (wheel.slots ((steps + 1 + ahead) % wheel.slotCount))

/-- The stored entries, with the steps that return them. -/
def stored (wheel : TimingWheel Payload) (steps : Nat) : Multiset (Nat × WheelEntry Payload) :=
  ∑ ahead ∈ range wheel.slotCount, dueIn wheel steps ahead

/-- Every entry was returned at the step at which it was due, or removed, or is stored until a
later step; the count is that of the stored entries. -/
structure Accounted (system : WheelSystem Payload) : Prop where
  conserved : ∃ removed, Multiset.map Prod.snd removed = system.removed ∧
    system.added = system.returned + removed + stored system.wheel system.steps
  count : system.wheel.count = (stored system.wheel system.steps).card

/-- The wheel stands at the slot of the last step. -/
structure WheelSound (system : WheelSystem Payload) : Prop extends Accounted system where
  positive : 0 < system.wheel.slotCount
  current : system.wheel.currentSlot = system.steps % system.wheel.slotCount

variable {wheel after : TimingWheel Payload} {slotCount steps ahead : Nat}
  {entries : List (WheelEntry Payload)} {entry : WheelEntry Payload} {system : WheelSystem Payload}

theorem slot_inj {other : Nat} (inside : ahead < slotCount) (inside' : other < slotCount) :
    (steps + ahead) % slotCount = (steps + other) % slotCount ↔ ahead = other :=
  ⟨fun same => Nat.ModEq.eq_of_lt_of_lt (Nat.ModEq.add_left_cancel' steps same) inside inside',
    fun same => same ▸ rfl⟩

theorem slot_surj {slot : Nat} (inside : slot < slotCount) (steps : Nat) :
    ∃ ahead < slotCount, slot = (steps + ahead) % slotCount := by
  have below := Nat.mod_lt steps (Nat.zero_lt_of_lt inside)
  refine ⟨(slot + (slotCount - steps % slotCount)) % slotCount, Nat.mod_lt _ (by omega), ?_⟩
  rw [Nat.add_mod_mod, ← Nat.mod_add_mod, show steps % slotCount +
    (slot + (slotCount - steps % slotCount)) = slot + slotCount by omega, Nat.add_mod_right,
    Nat.mod_eq_of_lt inside]

/-- Only one step returns a slot, so that a change of the slot changes what is due then. -/
theorem stored_update (after : TimingWheel Payload) (inside : ahead < wheel.slotCount)
    (slots : after.slots = update wheel.slots ((steps + 1 + ahead) % wheel.slotCount) entries)
    (slotCount : after.slotCount = wheel.slotCount) :
    stored after steps + dueIn wheel steps ahead =
      stored wheel steps + Multiset.map (steps + 1 + ahead, ·) entries := by
  have others : ∑ other ∈ (range wheel.slotCount).erase ahead, dueIn after steps other =
      ∑ other ∈ (range wheel.slotCount).erase ahead, dueIn wheel steps other := by
    refine sum_congr rfl fun other member => ?_
    obtain ⟨different, below⟩ := mem_erase.mp member
    rw [dueIn, slots, slotCount, update_of_ne]
    · rfl
    · rwa [Ne, slot_inj (mem_range.mp below) inside]
  have member := mem_range.mpr inside
  rw [stored, slotCount, stored, ← add_sum_erase _ _ member, ← add_sum_erase _ _ member, others,
    dueIn, slots, slotCount, update_self]
  abel

/-- A slot that has been emptied is the last one to come. -/
theorem stored_succ (wheel : TimingWheel Payload) (positive : 0 < wheel.slotCount)
    (emptied : wheel.slots ((steps + 1) % wheel.slotCount) = []) :
    stored wheel (steps + 1) = stored wheel steps := by
  obtain ⟨last, size⟩ := Nat.exists_eq_succ_of_ne_zero positive.ne'
  have round : (steps + 1 + 1 + last) % wheel.slotCount = (steps + 1) % wheel.slotCount := by
    rw [size, Nat.add_assoc (steps + 1), Nat.add_comm 1, Nat.add_mod_right]
  rw [stored, stored, size, sum_range_succ, sum_range_succ']
  congr 1
  · refine sum_congr rfl fun ahead _ => ?_
    rw [dueIn, dueIn, Nat.add_assoc (steps + 1), Nat.add_comm 1]
  · rw [dueIn, dueIn, round, Nat.add_zero, emptied]
    rfl

theorem perm_cons_eraseP {p : WheelEntry Payload → Bool} :
    ∀ {entries : List (WheelEntry Payload)}, entries.find? p = some entry →
      (entry :: entries.eraseP p).Perm entries
  | first :: rest, found => by
    rw [List.find?_cons] at found
    cases matching : p first with
    | true =>
      simp only [matching, Option.some.injEq] at found
      rw [List.eraseP_cons_of_pos matching, found]
    | false =>
      simp only [matching] at found
      rw [List.eraseP_cons_of_neg (by simp [matching])]
      exact (List.Perm.swap _ _ _).trans ((perm_cons_eraseP found).cons first)

/-- The step that returns an added entry is the one after its lifetime. -/
theorem target_eq (floating : UInt32 → UInt64 → UInt64) (level : UInt32)
    (positive : 0 < wheel.slotCount) (current : wheel.currentSlot = steps % wheel.slotCount) :
    ∃ ahead < wheel.slotCount, clampedTtl wheel.slotCount (ttlSlots floating wheel level) =
        1 + ahead ∧ (wheel.currentSlot + slotsAhead floating wheel level) % wheel.slotCount =
      (steps + 1 + ahead) % wheel.slotCount := by
  refine ⟨clampedTtl wheel.slotCount (ttlSlots floating wheel level) - 1, ?_, ?_, ?_⟩
  · rw [clampedTtl]
    omega
  · rw [clampedTtl]
    omega
  · rw [current, Nat.mod_add_mod]
    rcases Nat.lt_or_ge 1 wheel.slotCount with several | one
    · congr 1
      simp only [slotsAhead, clampedTtl]
      split <;> split <;> omega
    · rw [Nat.le_antisymm one positive, Nat.mod_one, Nat.mod_one]

section
variable (sound : WheelSound system)
include sound

theorem WheelSound.add (floating : UInt32 → UInt64 → UInt64) (level : UInt32) (payload : Payload) :
    WheelSound (wheelStep floating system (.add level payload)) := by
  obtain ⟨removed, freed, conserved⟩ := sound.conserved
  obtain ⟨ahead, inside, ttl, target⟩ := target_eq floating level sound.positive sound.current
  have grown := stored_update (timingWheelAdd floating system.wheel level payload) inside
    (congrArg (fun slot => update system.wheel.slots slot _) target) rfl
  rw [target, ← Multiset.cons_coe, Multiset.map_cons, ← Multiset.singleton_add, ← add_assoc] at grown
  have grown := add_right_cancel grown
  refine ⟨⟨⟨removed, freed, ?_⟩, ?_⟩, sound.positive, sound.current⟩
  · simp only [wheelStep, grown, conserved, ttl, add_assoc]
  · simp only [wheelStep, grown, Multiset.card_add, Multiset.card_singleton, ← sound.count]
    rfl

theorem WheelSound.remove {id : UInt64}
    (freed : timingWheelRemove system.wheel id = some (entry, after)) :
    WheelSound { system with wheel := after, removed := system.removed + {entry} } := by
  obtain ⟨removed, before, conserved⟩ := sound.conserved
  simp only [timingWheelRemove, Option.bind_eq_bind, Option.bind_eq_some_iff, Option.pure_def,
    Option.some.injEq, Prod.mk.injEq] at freed
  obtain ⟨slot, found, entry, taken, rfl, made⟩ := freed
  obtain ⟨ahead, inside, rfl⟩ := slot_surj (List.mem_range.mp (List.mem_of_find?_eq_some found))
    (system.steps + 1)
  have shrunk := stored_update after inside (congrArg TimingWheel.slots made.symm)
    (by rw [← made])
  rw [dueIn, ← Multiset.coe_eq_coe.mpr (perm_cons_eraseP taken), ← Multiset.cons_coe,
    Multiset.map_cons, ← Multiset.singleton_add, ← add_assoc] at shrunk
  have shrunk := add_right_cancel shrunk
  refine ⟨⟨⟨removed + {(system.steps + 1 + ahead, entry)}, ?_, ?_⟩, ?_⟩, ?_, ?_⟩
  · rw [Multiset.map_add, before, Multiset.map_singleton]
  · simp only [conserved, ← shrunk]
    abel
  · have total := congrArg Multiset.card shrunk
    rw [Multiset.card_add, Multiset.card_singleton, ← sound.count] at total
    have fewer : after.count = system.wheel.count - 1 := by rw [← made]
    exact fewer.trans (Nat.sub_eq_of_eq_add total.symm)
  · exact made ▸ sound.positive
  · exact made ▸ sound.current

theorem WheelSound.step : WheelSound { system with
    wheel := slotStep system.wheel
    steps := system.steps + 1
    returned := system.returned + Multiset.map (system.steps + 1, ·)
      (system.wheel.slots (nextSlot system.wheel)) } := by
  obtain ⟨removed, freed, conserved⟩ := sound.conserved
  have next : nextSlot system.wheel = (system.steps + 1) % system.wheel.slotCount := by
    rw [nextSlot, sound.current, Nat.mod_add_mod]
  have emptied := stored_update (slotStep system.wheel) sound.positive
    (congrArg (fun slot => update system.wheel.slots slot []) next) rfl
  rw [Multiset.coe_nil, Multiset.map_zero, add_zero, dueIn, Nat.add_zero, ← next] at emptied
  have shifted := stored_succ (slotStep system.wheel) sound.positive (by
    rw [show (slotStep system.wheel).slotCount = system.wheel.slotCount from rfl, ← next]
    exact update_self _ _ _)
  refine ⟨⟨⟨removed, freed, ?_⟩, ?_⟩, sound.positive, next⟩
  · simp only [shifted, conserved, ← emptied]
    abel
  · have total := congrArg Multiset.card emptied
    rw [Multiset.card_add, Multiset.card_map, Multiset.coe_card, ← sound.count] at total
    rw [shifted]
    exact Nat.sub_eq_of_eq_add total.symm

end

theorem WheelSound.advance (numSlots : Nat) (sound : WheelSound system) :
    WheelSound (advanceSlots numSlots system) := by
  induction numSlots generalizing system with
  | zero => exact sound
  | succ numSlots ih => exact ih sound.step

end Liboffs.Network

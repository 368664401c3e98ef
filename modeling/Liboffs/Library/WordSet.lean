import Mathlib.Data.List.Basic
import Mathlib.Tactic.Ring

/-!
# Sets of numbers in arrays of words

A finite set of natural numbers is stored in an array of machine words of a
fixed width: the number `i` is bit `i % width` of word `i / width`.
-/

namespace Liboffs.Library.WordSet

open List Option

variable {width : Nat}

/-- Membership; there is nothing beyond the last word. -/
def mem (words : List (BitVec width)) (number : Nat) : Bool :=
  (words.getD (number / width) (BitVec.ofNat width 0)).getLsbD (number % width)

/-- Set the bit of a number. -/
def insert (words : List (BitVec width)) (number : Nat) : List (BitVec width) :=
  words.modify (number / width) (· ||| (BitVec.ofNat width 1 <<< (number % width)))

/-- Clear the bit of a number. -/
def remove (words : List (BitVec width)) (number : Nat) : List (BitVec width) :=
  words.modify (number / width) (· &&& ~~~(BitVec.ofNat width 1 <<< (number % width)))

/-- Set the bits of several numbers. -/
def insertAll (words : List (BitVec width)) (numbers : List Nat) : List (BitVec width) :=
  numbers.foldl insert words

/-- The position of the lowest bit of a word. -/
def lowest (word : BitVec width) : Option Nat :=
  (List.range width).find? word.getLsbD

/-- The position of the highest bit of a word below a bound. -/
def highestBelow (word : BitVec width) : Nat → Option Nat
  | 0 => none
  | bound + 1 => if word.getLsbD bound then some bound else highestBelow word bound

/-- The position of the highest bit of a word. -/
def highest (word : BitVec width) : Option Nat :=
  highestBelow word width

/-- The least number of a set whose first word has an index. -/
def firstFrom : Nat → List (BitVec width) → Option Nat
  | _, [] => none
  | index, word :: rest =>
    match lowest word with
    | some bit => some (index * width + bit)
    | none => firstFrom (index + 1) rest

/-- The least number of a set. -/
def first (words : List (BitVec width)) : Option Nat :=
  firstFrom 0 words

/-- The number of bits of a word. -/
def bitCount (word : BitVec width) : Nat :=
  (List.range width).countP word.getLsbD

/-- The number of elements. -/
def count (words : List (BitVec width)) : Nat :=
  (words.map bitCount).sum

@[simp]
theorem length_insert (words : List (BitVec width)) (number : Nat) :
    (insert words number).length = words.length := by
  simp [insert]

@[simp]
theorem length_remove (words : List (BitVec width)) (number : Nat) :
    (remove words number).length = words.length := by
  simp [remove]

@[simp]
theorem length_insertAll (words : List (BitVec width)) :
    (insertAll words numbers).length = words.length := by
  induction numbers generalizing words with
  | nil => rfl
  | cons number rest ih =>
    exact (ih (insert words number)).trans (length_insert words number)

variable {number bit : Nat} {words : List (BitVec width)} {word : BitVec width}

theorem lt_of_mem (member : mem words number = true) : number < words.length * width := by
  have positive : 0 < width := by
    rcases Nat.eq_zero_or_pos width with rfl | positive
    · simp [mem] at member
    · exact positive
  refine Nat.lt_of_not_le fun beyond => ?_
  have outside : words.length ≤ number / width := (Nat.le_div_iff_mul_le positive).mpr beyond
  rw [mem, getD_eq_getElem?_getD, getElem?_eq_none outside] at member
  simp at member

theorem mod_eq_iff (same : left / width = right / width) :
    left % width = right % width ↔ right = left := by
  constructor
  · intro remainder
    rw [← Nat.div_add_mod left width, same, remainder, Nat.div_add_mod]
  · rintro rfl
    rfl

theorem mem_replicate_zero (length : Nat) :
    mem (List.replicate length (BitVec.ofNat width 0)) number = false := by
  simp only [mem, getD_eq_getElem?_getD, getElem?_replicate]
  split <;> simp

theorem mem_cons_of_lt (inside : bit < width) : mem (word :: rest) bit = word.getLsbD bit := by
  rw [mem, Nat.div_eq_of_lt inside, Nat.mod_eq_of_lt inside]
  rfl

theorem lowest_eq_some (found : lowest word = some bit) :
    bit < width ∧ word.getLsbD bit = true ∧ ∀ lower < bit, word.getLsbD lower = false := by
  rcases find?_range_eq_some.mp found with ⟨set, inside, least⟩
  refine ⟨mem_range.mp inside, set, ?_⟩
  intro lower less
  simpa using least lower less

theorem highestBelow_eq_some (found : highestBelow word bound = some bit) :
    bit < bound ∧ word.getLsbD bit = true ∧ ∀ higher, bit < higher → higher < bound →
        word.getLsbD higher = false := by
  induction bound with
  | zero => cases found
  | succ bound ih =>
    rw [highestBelow] at found
    by_cases set : word.getLsbD bound = true
    · rw [if_pos set] at found
      cases found
      refine ⟨Nat.lt_succ_self _, set, ?_⟩
      intro higher above below
      exact absurd (Nat.le_of_lt_succ below) (Nat.not_le_of_lt above)
    · rw [if_neg set] at found
      rcases ih found with ⟨inside, here, clear⟩
      refine ⟨Nat.lt_succ_of_lt inside, here, ?_⟩
      intro higher above below
      rcases Nat.lt_succ_iff_lt_or_eq.mp below with less | rfl
      · exact clear higher above less
      · exact Bool.eq_false_iff.mpr set

theorem highestBelow_eq_none (none : highestBelow word bound = none) :
    ∀ bit < bound, word.getLsbD bit = false := by
  induction bound with
  | zero =>
    intro bit impossible
    cases impossible
  | succ bound ih =>
    rw [highestBelow] at none
    by_cases set : word.getLsbD bound = true
    · rw [if_pos set] at none
      cases none
    · rw [if_neg set] at none
      intro bit inside
      rcases Nat.lt_succ_iff_lt_or_eq.mp inside with less | rfl
      · exact ih none bit less
      · exact Bool.eq_false_iff.mpr set

variable (positive : 0 < width)
include positive

theorem getLsbD_single :
    (BitVec.ofNat width 1 <<< (left % width)).getLsbD (right % width) =
      decide (left % width = right % width) := by
  have inside := Nat.mod_lt right positive
  rw [BitVec.getLsbD_shiftLeft]
  by_cases same : left % width = right % width
  · simp [same, inside, positive]
  · rcases Nat.lt_or_gt_of_ne same with less | less
    · have different : ¬ right % width - left % width = 0 := by omega
      simp [same, BitVec.getLsbD_one, different]
    · simp [same, less]

theorem mem_insert (words : List (BitVec width)) (inside : number < words.length * width)
    (other : Nat) :
    mem (insert words number) other = (mem words other || decide (other = number)) := by
  have word : number / width < words.length := Nat.div_lt_of_lt_mul (by rwa [Nat.mul_comm])
  simp only [mem, insert, getD_eq_getElem?_getD, getElem?_modify]
  by_cases same : number / width = other / width
  · rw [← same, getElem?_eq_getElem word]
    simp only [if_true, Option.map_eq_map, Option.map_some,
      getD_some, BitVec.getLsbD_or, getLsbD_single positive]
    rw [decide_eq_decide.mpr (mod_eq_iff same)]
  · have different : ¬ other = number := by
      rintro rfl
      exact same rfl
    simp [same, different]

theorem mem_remove (words : List (BitVec width)) (number other : Nat) :
    mem (remove words number) other = (mem words other && !decide (other = number)) := by
  have modulus := Nat.mod_lt other positive
  simp only [mem, remove, getD_eq_getElem?_getD, getElem?_modify]
  by_cases same : number / width = other / width
  · cases found : words[other / width]? with
    | none => simp
    | some word =>
      simp only [if_pos same, Option.map_eq_map, Option.map_some,
        getD_some, BitVec.getLsbD_and, BitVec.getLsbD_not, getLsbD_single positive]
      rw [decide_eq_true modulus, Bool.true_and]
      rw [decide_eq_decide.mpr (mod_eq_iff same)]
  · have different : ¬ other = number := by
      rintro rfl
      exact same rfl
    simp [same, different]

theorem mem_insertAll (words : List (BitVec width))
    (inside : ∀ number ∈ numbers, number < words.length * width) (other : Nat) :
    mem (insertAll words numbers) other = (mem words other || decide (other ∈ numbers)) := by
  induction numbers generalizing words with
  | nil => simp [insertAll]
  | cons number rest ih =>
    have head := inside number mem_cons_self
    have step := ih (insert words number) (by
      intro next member
      rw [length_insert]
      exact inside next (mem_cons_of_mem _ member))
    rw [mem_insert positive words head] at step
    refine step.trans ?_
    simp [Bool.or_assoc]

theorem mem_cons_add : mem (word :: rest) (width + number) = mem rest number := by
  rw [mem, Nat.add_div_left number positive, Nat.add_mod_left]
  rfl

/-- Arrays of one length with the same elements are equal. -/
theorem ext {left right : List (BitVec width)} (length : left.length = right.length)
    (same : ∀ number, mem left number = mem right number) : left = right := by
  refine ext_getElem length fun index inside inside' => ?_
  refine BitVec.eq_of_getLsbD_eq fun bit less => ?_
  have equal := same (index * width + bit)
  have quotient : (index * width + bit) / width = index := by
    rw [Nat.mul_comm, Nat.mul_add_div positive, Nat.div_eq_of_lt less, Nat.add_zero]
  have remainder : (index * width + bit) % width = bit := by
    rw [Nat.mul_comm, Nat.mul_add_mod, Nat.mod_eq_of_lt less]
  simpa [mem, quotient, remainder, inside, inside'] using equal

theorem insert_remove (member : mem words number = true) :
    insert (remove words number) number = words := by
  have inside := lt_of_mem member
  refine ext positive (by simp) fun other => ?_
  rw [mem_insert positive _ (by rwa [length_remove]), mem_remove positive]
  by_cases same : other = number
  · rw [same, member]
    simp
  · simp [same]

theorem firstFrom_eq_some {index : Nat} (found : firstFrom index words = some number) :
    ∃ offset, number = index * width + offset ∧ mem words offset = true ∧
        ∀ lower < offset, mem words lower = false := by
  induction words generalizing index with
  | nil => simp [firstFrom] at found
  | cons word rest ih =>
    rw [firstFrom] at found
    cases low : lowest word with
    | some bit =>
      rw [low] at found
      rcases lowest_eq_some low with ⟨inside, set, least⟩
      refine ⟨bit, (Option.some.inj found).symm, ?_, ?_⟩
      · rw [mem_cons_of_lt inside]
        exact set
      · intro lower less
        rw [mem_cons_of_lt (Nat.lt_trans less inside)]
        exact least lower less
    | none =>
      rw [low] at found
      rcases ih found with ⟨offset, equal, set, least⟩
      refine ⟨width + offset, ?_, ?_, ?_⟩
      · rw [equal, Nat.succ_mul, Nat.add_assoc]
      · rw [mem_cons_add positive]
        exact set
      · intro lower less
        by_cases inside : lower < width
        · rw [mem_cons_of_lt inside]
          by_cases inside : lower < width
          · simpa using find?_range_eq_none.mp low lower inside
          · exact BitVec.getLsbD_of_ge word lower (Nat.le_of_not_lt inside)
        · rcases Nat.exists_eq_add_of_le (Nat.le_of_not_lt inside) with ⟨rest', rfl⟩
          rw [mem_cons_add positive]
          exact least rest' (Nat.lt_of_add_lt_add_left less)

theorem first_eq_some (found : first words = some number) :
    mem words number = true ∧ ∀ lower < number, mem words lower = false := by
  rcases firstFrom_eq_some positive found with ⟨offset, equal, set, least⟩
  rw [Nat.zero_mul, Nat.zero_add] at equal
  rw [equal]
  exact ⟨set, least⟩

theorem count_eq (words : List (BitVec width)) :
    count words = (List.range (words.length * width)).countP (mem words) := by
  induction words with
  | nil => simp [count]
  | cons word rest ih =>
    have split : (word :: rest).length * width = width + rest.length * width := by
      rw [length_cons, Nat.succ_mul, Nat.add_comm]
    have low : (List.range width).countP (mem (word :: rest)) = bitCount word := by
      refine countP_congr fun bit member => ?_
      rw [mem_cons_of_lt (mem_range.mp member)]
    have high : (List.range (rest.length * width)).countP
        (mem (word :: rest) ∘ fun number => width + number) =
          (List.range (rest.length * width)).countP (mem rest) := by
      refine countP_congr fun number _ => ?_
      rw [Function.comp, mem_cons_add positive]
    rw [split, range_add, countP_append, countP_map, low, high, ← ih]
    rfl

end Liboffs.Library.WordSet

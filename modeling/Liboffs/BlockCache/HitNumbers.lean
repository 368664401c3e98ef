import Liboffs.BlockCache.Fibonacci
import Mathlib.Algebra.Order.BigOperators.Group.Finset
import Mathlib.Data.Nat.Fib.Basic

/-!
# The hits behind a counter

After `n` increments, rank and count write `n` in a positional system: a rank
takes as many hits as its Fibonacci number and one more.
-/

namespace Liboffs.BlockCache

open Finset

/-- `fibonacci_hit_counter_decrement`, with whether the rank fell. -/
def fibonacciHitCounterDecrement (counter : FibonacciHitCounter) : FibonacciHitCounter × Bool :=
  if counter.fib = 0 then
    if counter.count = 0 then (counter, false)
    else ({ counter with count := counter.count - 1 }, false)
  else if counter.count = 0 then
    ({ fib := counter.fib - 1
       count := fibonacci (counter.fib - 1)
       threshold := fibonacci (counter.fib - 1) }, true)
  else ({ counter with count := counter.count - 1 }, false)

/-- `fibonacci_hit_counter_compare`. -/
def fibonacciHitCounterCompare (first second : FibonacciHitCounter) : Int :=
  if second.fib < first.fib then 1
  else if first.fib < second.fib then -1
  else if second.count < first.count then 1
  else if first.count < second.count then -1
  else 0

/-- The counter after a number of increments. -/
def afterHits : Nat → FibonacciHitCounter
  | 0 => fibonacciHitCounterCreate
  | hits + 1 => (fibonacciHitCounterIncrement (afterHits hits)).1

/-- The hits that a rank and a count stand for. -/
def hitNumber (fib count : Nat) : Nat :=
  ∑ rank ∈ range fib, (Nat.fib rank + 1) + count

/-- The counter with a rank and a count. -/
def counterAt (fib count : Nat) : FibonacciHitCounter :=
  ⟨.ofNat fib, .ofNat count, .ofNat (Nat.fib fib)⟩

/-- The loop of `fibonacci` holds two neighbours of the sequence. -/
theorem fibonacciTurn_iterate (turns : Nat) :
    fibonacciTurn^[turns] (1, 0) = (.ofNat (Nat.fib (turns + 1)), .ofNat (Nat.fib turns)) := by
  induction turns with
  | zero => rfl
  | succ turns ih =>
    rw [Function.iterate_succ_apply', ih, fibonacciTurn, ← UInt32.ofNat_add, Nat.add_comm,
      ← Nat.fib_add_two]

/-- `fibonacci` computes the Fibonacci numbers, as far as it does not wrap. -/
theorem fibonacci_eq (fib : Nat) (small : fib < 47) :
    fibonacci (.ofNat fib) = .ofNat (Nat.fib fib) := by
  rcases fib with _ | _ | turns
  · rfl
  · rfl
  · have value : (UInt32.ofNat (turns + 2)).toNat = turns + 2 :=
      UInt32.toNat_ofNat_of_lt' (by change turns + 2 < 2 ^ 32; omega)
    have other (number : UInt32) (differs : number.toNat ≠ turns + 2) :
        UInt32.ofNat (turns + 2) ≠ number := fun same => differs (same ▸ value)
    have last : UInt32.ofNat (turns + 2) + 1 ≠ 0 := by
      intro wraps
      have same := congrArg UInt32.toNat wraps
      rw [UInt32.toNat_add, value, UInt32.toNat_one, UInt32.toNat_zero] at same
      omega
    rw [fibonacci, if_neg (not_or.mpr ⟨other 1 (by simp), other 0 (by simp)⟩), if_neg last, value,
      fibonacciTurn_iterate]
    rfl

variable {fib count other rest hits : Nat}

theorem hitNumber_succ : hitNumber (fib + 1) 0 = hitNumber fib (Nat.fib fib) + 1 := by
  simp [hitNumber, sum_range_succ, Nat.add_assoc]

/-- A higher rank stands for more hits than any count of a lower one. -/
theorem hitNumber_lt (rest : Nat) (lower : fib < other) (bounded : count ≤ Nat.fib fib) :
    hitNumber fib count < hitNumber other rest := by
  have next : hitNumber (fib + 1) 0 ≤ hitNumber other rest :=
    Nat.add_le_add (sum_le_sum_of_subset (range_subset_range.mpr lower)) (Nat.zero_le rest)
  rw [hitNumber_succ] at next
  simp only [hitNumber] at next ⊢
  omega

theorem fib_lt (bounded : hitNumber fib count < 2 ^ 31) : fib < 46 := by
  by_contra high
  have most : ∑ rank ∈ range 46, (Nat.fib rank + 1) ≤ ∑ rank ∈ range fib, (Nat.fib rank + 1) :=
    sum_le_sum_of_subset (range_subset_range.mpr (Nat.le_of_not_lt high))
  have sum : ∑ rank ∈ range 46, (Nat.fib rank + 1) = 2971215118 := by decide +kernel
  simp only [hitNumber] at bounded
  omega

theorem fib_small (small : fib < 46) : Nat.fib fib < 2 ^ 31 :=
  lt_of_le_of_lt (Nat.fib_mono (Nat.le_of_lt_succ small)) (by decide +kernel)

theorem ofNat_lt_ofNat (fits : first < 2 ^ 32) (fits' : second < 2 ^ 32) :
    UInt32.ofNat first < .ofNat second ↔ first < second := by
  rw [UInt32.lt_iff_toNat_lt, UInt32.toNat_ofNat_of_lt' fits, UInt32.toNat_ofNat_of_lt' fits']

section
variable (bounded : count ≤ Nat.fib fib) (small : fib < 46)
include bounded small

/-- An increment counts on, and rises when the count is full. -/
theorem increment_counterAt : fibonacciHitCounterIncrement (counterAt fib count) =
    if count = Nat.fib fib then (counterAt (fib + 1) 0, true)
    else (counterAt fib (count + 1), false) := by
  have threshold := fib_small small
  have next (number : Nat) : (.ofNat number + 1 : UInt32) = .ofNat (number + 1) :=
    (UInt32.ofNat_add number 1).symm
  have full : Nat.fib fib < count + 1 ↔ count = Nat.fib fib := by omega
  simp (disch := omega) only [fibonacciHitCounterIncrement, counterAt, next, ofNat_lt_ofNat, full]
  rw [fibonacci_eq _ (Nat.succ_lt_succ small)]
  rfl

/-- A decrement takes an increment back. -/
theorem decrement_increment :
    (fibonacciHitCounterDecrement (fibonacciHitCounterIncrement (counterAt fib count)).1).1 =
      counterAt fib count := by
  have threshold := fib_small small
  have positive {number : Nat} (fits : number < 2 ^ 31) : .ofNat number + 1 ≠ (0 : UInt32) := by
    intro zero
    have same := congrArg UInt32.toNat zero
    rw [UInt32.toNat_add, UInt32.toNat_ofNat', UInt32.toNat_one, UInt32.toNat_zero] at same
    omega
  rw [increment_counterAt bounded small]
  split
  · rename_i full
    have rank := fibonacci_eq fib (by omega)
    simp [fibonacciHitCounterDecrement, counterAt, positive (by omega : fib < 2 ^ 31), rank, full]
  · simp [fibonacciHitCounterDecrement, counterAt, positive (by omega : count < 2 ^ 31)]

end

/-- Every number of hits is written by the counter that has taken them. -/
theorem afterHits_eq (bounded : hits < 2 ^ 31) :
    ∃ fib count, afterHits hits = counterAt fib count ∧ hits = hitNumber fib count ∧
      count ≤ Nat.fib fib := by
  induction hits with
  | zero => exact ⟨0, 0, rfl, rfl, Nat.zero_le _⟩
  | succ hits ih =>
    obtain ⟨fib, count, reached, number, within⟩ := ih (by omega)
    have low : hitNumber fib count < 2 ^ 31 := by omega
    rw [afterHits, reached, increment_counterAt within (fib_lt low)]
    split
    · rename_i full
      exact ⟨fib + 1, 0, rfl, by rw [hitNumber_succ, ← full, number], Nat.zero_le _⟩
    · exact ⟨fib, count + 1, rfl, by rw [number, hitNumber, hitNumber, Nat.add_assoc], by omega⟩

theorem hitNumber_injective (bounded : count ≤ Nat.fib fib) (within : rest ≤ Nat.fib other)
    (same : hitNumber fib count = hitNumber other rest) : fib = other ∧ count = rest := by
  rcases Nat.lt_trichotomy fib other with lower | rfl | higher
  · exact absurd same (hitNumber_lt rest lower bounded).ne
  · exact ⟨rfl, Nat.add_left_cancel same⟩
  · exact absurd same (hitNumber_lt count higher within).ne'

/-- Counters are compared as their numbers of hits are. -/
theorem compare_counterAt (bounded : count ≤ Nat.fib fib) (small : fib < 46)
    (within : rest ≤ Nat.fib other) (low : other < 46) :
    fibonacciHitCounterCompare (counterAt fib count) (counterAt other rest) =
      if hitNumber other rest < hitNumber fib count then 1
      else if hitNumber fib count < hitNumber other rest then -1 else 0 := by
  have first := fib_small small
  have second := fib_small low
  simp (disch := omega) only [fibonacciHitCounterCompare, counterAt, ofNat_lt_ofNat]
  rcases Nat.lt_trichotomy fib other with lower | rfl | higher
  · have less := hitNumber_lt rest lower bounded
    simp [lower, less, lower.not_gt, less.not_gt]
  · simp [hitNumber]
  · have more := hitNumber_lt count higher within
    simp [higher, more]

/-- A counter writes its hits, and its operations agree with their number. -/
structure Positional (hits : Nat) (counter : FibonacciHitCounter) : Prop where
  written : hits = hitNumber counter.fib.toNat counter.count.toNat
  within : counter.count.toNat ≤ Nat.fib counter.fib.toNat
  unique : ∀ fib count, hits = hitNumber fib count → count ≤ Nat.fib fib →
    fib = counter.fib.toNat ∧ count = counter.count.toNat
  promotes : (fibonacciHitCounterIncrement counter).2 = true ↔
    counter.fib < (fibonacciHitCounterIncrement counter).1.fib
  restores : (fibonacciHitCounterDecrement (fibonacciHitCounterIncrement counter).1).1 = counter
  ordered : ∀ others < 2 ^ 31, fibonacciHitCounterCompare counter (afterHits others) =
    if others < hits then 1 else if hits < others then -1 else 0

/-- **The hit counter writes the number of its hits in a positional system.** -/
theorem hit_counter_is_positional (bounded : hits < 2 ^ 31) : Positional hits (afterHits hits) := by
  obtain ⟨fib, count, reached, number, within⟩ := afterHits_eq bounded
  have small := fib_lt (number ▸ bounded)
  have threshold := fib_small small
  have rank : (counterAt fib count).fib.toNat = fib :=
    UInt32.toNat_ofNat_of_lt' (show fib < 2 ^ 32 by omega)
  have counted : (counterAt fib count).count.toNat = count :=
    UInt32.toNat_ofNat_of_lt' (show count < 2 ^ 32 by omega)
  rw [reached]
  constructor <;> try simp only [rank, counted]
  · exact number
  · exact within
  · intro fib' count' same within'
    exact hitNumber_injective within' within (same.symm.trans number)
  · rw [increment_counterAt within small]
    split
    · have rises := (ofNat_lt_ofNat (by omega) (by omega)).mpr (Nat.lt_succ_self fib)
      exact iff_of_true rfl rises
    · simp [counterAt]
  · exact decrement_increment within small
  · intro others bounded'
    obtain ⟨fib', count', reached', number', within'⟩ := afterHits_eq bounded'
    rw [reached', compare_counterAt within small within' (fib_lt (number' ▸ bounded')), ← number,
      ← number']

theorem five_hits_are_positional : 5 < 2 ^ 31 ∧ Positional 5 (afterHits 5) :=
  ⟨by decide, hit_counter_is_positional (by decide)⟩

end Liboffs.BlockCache

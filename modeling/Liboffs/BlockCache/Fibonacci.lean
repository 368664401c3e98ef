import Liboffs.Library.Cbor

/-!
# The Fibonacci hit counter

The popularity of a block is counted in ranks.  Rank `fib` is left when the
count passes the Fibonacci number of that rank, and the count starts again at
zero.  The threshold is stored next to the rank and is recomputed only when
the rank changes through the counter itself.

Decoding has three outcomes: a value, a refusal, and the use of a `libcbor`
accessor on an item it is not defined for.
-/

namespace Liboffs.BlockCache

open Library.Cbor

/-- A decoder returns a value, returns nothing, or misuses an accessor. -/
inductive Decoded (Value : Type) where
  | value (value : Value)
  | null
  | fault

/-- `cbor_get_uint32`, which is defined for items of that width only. -/
def cborGetUint32 : Item → Decoded UInt32
  | .uint32 value => .value value
  | _ => .fault

/-- `cbor_get_int` on an item that `cbor_isa_uint` accepts. -/
def cborGetInt : Item → Option UInt64
  | .uint8 value => some value.toUInt64
  | .uint16 value => some value.toUInt64
  | .uint32 value => some value.toUInt64
  | .uint64 value => some value
  | _ => none

/-- `cbor_get_int`, which is defined for integers of both signs. -/
def cborGetAnyInt : Item → Option UInt64
  | .negint value => some value
  | item => cborGetInt item

/-- One turn of the loop of `fibonacci` on the parent and grandparent. -/
def fibonacciTurn (pair : UInt32 × UInt32) : UInt32 × UInt32 :=
  (pair.1 + pair.2, pair.1)

/-- `fibonacci`: the loop runs below `num + 1`, which wraps at the largest argument. -/
def fibonacci (num : UInt32) : UInt32 :=
  if num = 1 ∨ num = 0 then
    num
  else if num + 1 = 0 then
    0
  else
    (fibonacciTurn^[num.toNat - 1] (1, 0)).1

/-- `fibonacci_hit_counter_t`. -/
structure FibonacciHitCounter where
  fib : UInt32
  count : UInt32
  threshold : UInt32

/-- `fibonacci_hit_counter_create`. -/
def fibonacciHitCounterCreate : FibonacciHitCounter where
  fib := 0
  count := 0
  threshold := fibonacci 0

/-- `fibonacci_hit_counter_increment`, with whether the rank rose. -/
def fibonacciHitCounterIncrement (counter : FibonacciHitCounter) : FibonacciHitCounter × Bool :=
  if counter.threshold < counter.count + 1 then
    ({ fib := counter.fib + 1
       count := 0
       threshold := fibonacci (counter.fib + 1) }, true)
  else
    ({ counter with count := counter.count + 1 }, false)

/-- `fibonacci_hit_counter_to_cbor`. -/
def fibonacciHitCounterToCbor (counter : FibonacciHitCounter) : Item :=
  .array [.uint32 counter.fib, .uint32 counter.count, .uint32 counter.threshold]

/-- `cbor_to_fibonacci_hit_counter` on the items of an array. -/
def cborToFibonacciHitCounter : List Item → Decoded FibonacciHitCounter
  | fib :: count :: threshold :: _ =>
    match cborGetUint32 fib, cborGetUint32 count, cborGetUint32 threshold with
    | .value fib, .value count, .value threshold => .value { fib, count, threshold }
    | _, _, _ => .fault
  | _ => .fault

end Liboffs.BlockCache

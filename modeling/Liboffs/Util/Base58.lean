import Liboffs.Library.ByteOrder
import Mathlib.Data.List.DropRight
import Mathlib.Data.Nat.Digits.Lemmas

/-!
# Base58

The numbers of `base58.c`, its encoder and its decoder, with the sizes that
callers take for the buffers.  A number is a list of limbs of eight bits, the
lowest one first; no intermediate value exceeds 32 bits.

Each loop over the limbs computes the digits of a number, so that both
conversions are one change of base that keeps the leading zeros.  The buffer
for a string is always long enough; that for its decoding is too short for
some strings with leading ones.
-/

namespace Liboffs.Util

open Library.ByteOrder List

/-- Why a conversion ends early. -/
inductive Base58Stop where
  /-- It returns -1. -/
  | refused
  /-- It writes behind the end of a workspace. -/
  | outside
deriving DecidableEq

/-- `BIGINT_SIZE`. -/
def bigintSize : Nat := 4096

/-- The loop `while (carry > 0)`: the limbs that a carry appends. -/
def carryLimbs (carry : Nat) : List Nat :=
  if carry = 0 then [] else carry % 256 :: carryLimbs (carry / 256)

/-- `bigint_multiply`, from one limb on. -/
def bigintMultiply (factor : Nat) : List Nat → Nat → List Nat
  | [], carry => carryLimbs carry
  | limb :: rest, carry =>
    (limb * factor + carry) % 256 :: bigintMultiply factor rest ((limb * factor + carry) / 256)

/-- `bigint_add`, from one limb on. -/
def bigintAdd : List Nat → Nat → List Nat
  | [], carry => carryLimbs carry
  | limb :: rest, carry =>
    if carry = 0 then limb :: rest
    else (limb + carry) % 256 :: bigintAdd rest ((limb + carry) / 256)

/-- The first loop of `bigint_divmod`, which starts at the highest limb. -/
def bigintDivide (divisor : Nat) : List Nat → List Nat × Nat
  | [] => ([], 0)
  | limb :: rest =>
    let (quotient, remainder) := bigintDivide divisor rest
    let val := remainder * 256 + limb
    (val / divisor % 256 :: quotient, val % divisor)

/-- `bigint_divmod`. -/
def bigintDivmod (divisor : Nat) (limbs : List Nat) : List Nat × Nat :=
  let (quotient, remainder) := bigintDivide divisor limbs
  (quotient.rdropWhile (· == 0), remainder)

/-- The loop that reads digits, the highest one first, into a number. -/
def bigintRead {α : Type} (base : Nat) (digit : α → Except Base58Stop Nat) (input : List α) :
    Except Base58Stop (List Nat) :=
  input.foldlM (fun limbs symbol => do
    let value ← digit symbol
    let next := bigintAdd (bigintMultiply base limbs 0) value
    if next.length ≤ bigintSize then .ok next else .error .outside) []

/-- The loop `while (bigint_len > 0)`, with the bytes left in its workspace. -/
def bigintDigits (divisor : Nat) : Nat → List Nat → Except Base58Stop (List Nat)
  | _, [] => .ok []
  | 0, _ :: _ => .error .outside
  | room + 1, limb :: rest => do
    let (limbs, digit) := bigintDivmod divisor (limb :: rest)
    let digits ← bigintDigits divisor room limbs
    .ok (digit :: digits)

/-- `BASE58_ALPHABET`. -/
def base58Alphabet : List Char := "123456789ABCDEFGHJKLMNPQRSTUVWXYZabcdefghijkmnopqrstuvwxyz".toList

/-- `BASE58_MAP`, by its runs of ascending entries. -/
def base58Map (symbol : Char) : Option Nat :=
  let code := symbol.toNat
  if 49 ≤ code ∧ code ≤ 57 then some (code - 49)
  else if 65 ≤ code ∧ code ≤ 72 then some (code - 65 + 9)
  else if 74 ≤ code ∧ code ≤ 78 then some (code - 74 + 17)
  else if 80 ≤ code ∧ code ≤ 90 then some (code - 80 + 22)
  else if 97 ≤ code ∧ code ≤ 107 then some (code - 97 + 33)
  else if 109 ≤ code ∧ code ≤ 122 then some (code - 109 + 44)
  else none

/-- The look-up of a symbol while a string is read. -/
def symbolDigit (symbol : Char) : Except Base58Stop Nat :=
  (base58Map symbol).elim (.error .refused) .ok

/-- `base58_encoded_length`. -/
def base58EncodedLength (inputLen : Nat) : Nat := inputLen * 138 / 100 + 1

/-- `base58_decoded_length`. -/
def base58DecodedLength (strLen : Nat) : Nat := strLen * 733 / 1000 + 2

/-- `base58_encode`, with what it writes to the output. -/
def base58Encode (input : Bytes) (outputSize : Nat) : Except Base58Stop (List Char) :=
  if input.length = 0 then (if outputSize < 1 then .error .refused else .ok [])
  else if bigintSize / 2 < input.length then .error .refused
  else do
    let leadingZeros := (input.takeWhile (· == 0)).length
    let bigint ← bigintRead 256 (fun byte => .ok byte.toNat) input
    let digits ← bigintDigits 58 bigintSize bigint
    if outputSize < leadingZeros + digits.length then .error .refused
    else .ok (replicate leadingZeros '1' ++ digits.reverse.map (base58Alphabet.getD · '1'))

/-- `base58_decode` of a string, with what it writes to the output. -/
def base58Decode (input : List Char) (outputSize : Nat) : Except Base58Stop Bytes :=
  if input.length = 0 then .ok []
  else if bigintSize < input.length then .error .refused
  else do
    let leadingOnes := (input.takeWhile (· == '1')).length
    let bigint ← bigintRead 58 symbolDigit (input.dropWhile (· == '1'))
    let bytes ← bigintDigits 256 bigintSize bigint
    if outputSize < leadingOnes + bytes.length then .error .refused
    else .ok (replicate leadingOnes 0 ++ bytes.reverse.map UInt8.ofNat)

/-- The limbs of a carry are its digits. -/
theorem carryLimbs_eq (carry : Nat) : carryLimbs carry = Nat.digits 256 carry := by
  induction carry using Nat.strongRecOn with
  | ind carry ih =>
    rw [carryLimbs]
    split
    · simp_all
    · rw [Nat.digits_def' (by decide) (by omega), ih _ (by omega)]

theorem bigintMultiply_digits {factor : Nat} (positive : 0 < factor) (number carry : Nat) :
    bigintMultiply factor (Nat.digits 256 number) carry =
      Nat.digits 256 (number * factor + carry) := by
  induction number using Nat.strongRecOn generalizing carry with
  | ind number ih =>
    rcases Nat.eq_zero_or_pos number with zero | nonzero
    · simp [zero, bigintMultiply, carryLimbs_eq]
    · have product : 0 < number * factor := Nat.mul_pos nonzero positive
      have split : number * factor + carry =
          number % 256 * factor + carry + 256 * (number / 256 * factor) := by
        conv_lhs => rw [← Nat.mod_add_div number 256]
        ring
      rw [Nat.digits_def' (by decide) nonzero, bigintMultiply, ih _ (by omega),
        Nat.digits_def' (n := number * factor + carry) (by decide) (by omega), split,
        Nat.add_mul_mod_self_left, Nat.add_mul_div_left _ _ (by decide)]
      rw [Nat.add_comm (number / 256 * factor)]

theorem bigintAdd_digits (number carry : Nat) :
    bigintAdd (Nat.digits 256 number) carry = Nat.digits 256 (number + carry) := by
  induction number using Nat.strongRecOn generalizing carry with
  | ind number ih =>
    rcases Nat.eq_zero_or_pos number with zero | nonzero
    · simp [zero, bigintAdd, carryLimbs_eq]
    · rw [Nat.digits_def' (by decide) nonzero, bigintAdd]
      split
      · simp_all
      · rw [ih _ (by omega), Nat.digits_def' (n := number + carry) (by decide) (by omega)]
        have low : (number % 256 + carry) % 256 = (number + carry) % 256 := by omega
        have high : number / 256 + (number % 256 + carry) / 256 = (number + carry) / 256 := by omega
        rw [low, high]

theorem bigintDivide_spec {divisor : Nat} (positive : 0 < divisor) {limbs : List Nat}
    (bounded : ∀ limb ∈ limbs, limb < 256) :
    (∀ limb ∈ (bigintDivide divisor limbs).1, limb < 256) ∧
      Nat.ofDigits 256 (bigintDivide divisor limbs).1 = Nat.ofDigits 256 limbs / divisor ∧
      (bigintDivide divisor limbs).2 = Nat.ofDigits 256 limbs % divisor := by
  induction limbs with
  | nil => simp [bigintDivide]
  | cons limb rest ih =>
    obtain ⟨small, quotient, remainder⟩ := ih (fun limb mem => bounded limb (mem_cons_of_mem _ mem))
    have below := Nat.mod_lt (Nat.ofDigits 256 rest) positive
    have limbBound := bounded limb mem_cons_self
    have value : limb + 256 * Nat.ofDigits 256 rest =
        Nat.ofDigits 256 rest % divisor * 256 + limb +
          divisor * (256 * (Nat.ofDigits 256 rest / divisor)) := by
      conv_lhs => rw [← Nat.mod_add_div (Nat.ofDigits 256 rest) divisor]
      ring
    have quotientBound : (Nat.ofDigits 256 rest % divisor * 256 + limb) / divisor < 256 := by
      rw [Nat.div_lt_iff_lt_mul positive]
      omega
    simp only [bigintDivide, remainder, Nat.ofDigits_cons, quotient]
    refine ⟨?_, ?_, ?_⟩
    · simp only [mem_cons, forall_eq_or_imp]
      exact ⟨Nat.mod_lt _ (by decide), small⟩
    · rw [value, Nat.add_mul_div_left _ _ positive, Nat.mod_eq_of_lt quotientBound]
    · rw [value, Nat.add_mul_mod_self_left]

/-- Without the zeros at their upper end, limbs are the digits of their number. -/
theorem rdropWhile_zero {limbs : List Nat} (bounded : ∀ limb ∈ limbs, limb < 256) :
    limbs.rdropWhile (· == 0) = Nat.digits 256 (Nat.ofDigits 256 limbs) := by
  induction limbs using List.reverseRecOn with
  | nil => simp
  | append_singleton rest limb ih =>
    by_cases zero : limb = 0
    · rw [rdropWhile_concat_pos _ _ _ (by simp [zero]), zero, Nat.ofDigits_append_zero]
      exact ih (fun limb mem => bounded limb (mem_append_left _ mem))
    · rw [rdropWhile_concat_neg _ _ _ (by simp [zero]),
        Nat.digits_ofDigits _ (by decide) _ bounded (by simp [zero])]

theorem bigintDivmod_digits {divisor : Nat} (positive : 0 < divisor) (number : Nat) :
    bigintDivmod divisor (Nat.digits 256 number) =
      (Nat.digits 256 (number / divisor), number % divisor) := by
  have bounded : ∀ limb ∈ Nat.digits 256 number, limb < 256 :=
    fun _ => Nat.digits_lt_base (by decide)
  obtain ⟨small, quotient, remainder⟩ := bigintDivide_spec positive bounded
  rw [Nat.ofDigits_digits] at quotient remainder
  rw [← quotient, ← remainder, ← rdropWhile_zero small]
  rfl

/-- The loop of divisions gives the digits to the divisor. -/
theorem bigintDigits_digits {divisor : Nat} (base : 1 < divisor) {room number : Nat}
    (fits : (Nat.digits divisor number).length ≤ room) :
    bigintDigits divisor room (Nat.digits 256 number) = .ok (Nat.digits divisor number) := by
  induction room generalizing number with
  | zero =>
    have zero := Nat.digits_eq_nil_iff_eq_zero.1 (length_eq_zero_iff.1 (Nat.le_zero.1 fits))
    simp [zero, bigintDigits]
  | succ room ih =>
    rcases Nat.eq_zero_or_pos number with zero | nonzero
    · simp [zero, bigintDigits]
    · rw [Nat.digits_def' base nonzero] at fits ⊢
      have divided := bigintDivmod_digits (Nat.zero_lt_of_lt base) number
      rw [Nat.digits_def' (by decide) nonzero] at divided ⊢
      simp only [bigintDigits, divided]
      rw [ih (by simpa using fits)]
      rfl

/-- Reading digits gives the limbs of the number that they denote. -/
theorem bigintRead_digits {α : Type} {base : Nat} (lower : 1 < base) (upper : base ≤ 256)
    {digit : α → Except Base58Stop Nat} (value : α → Nat) {input : List α}
    (read : ∀ symbol ∈ input, digit symbol = .ok (value symbol) ∧ value symbol < base)
    (short : input.length ≤ bigintSize) :
    bigintRead base digit input =
      .ok (Nat.digits 256 (Nat.ofDigits base (input.map value).reverse)) := by
  induction input using List.reverseRecOn with
  | nil => rfl
  | append_singleton rest symbol ih =>
    simp only [length_append, length_singleton] at short
    have before := ih (fun symbol mem => read symbol (mem_append_left _ mem)) (by omega)
    have last := read symbol (by simp)
    have smaller : ∀ entry ∈ ((rest ++ [symbol]).map value).reverse, entry < base := by
      intro entry mem
      obtain ⟨symbol, held, rfl⟩ := mem_map.1 (mem_reverse.1 mem)
      exact (read symbol held).2
    have fits : (Nat.digits 256 (Nat.ofDigits base ((rest ++ [symbol]).map value).reverse)).length ≤
        bigintSize := by
      rw [Nat.digits_length_le_iff (by decide)]
      refine lt_of_lt_of_le (Nat.ofDigits_lt_base_pow_length lower smaller) ?_
      refine (Nat.pow_le_pow_left upper _).trans (Nat.pow_le_pow_right (by decide) ?_)
      simpa using short
    rw [bigintRead] at before ⊢
    rw [foldlM_append, before]
    simp only [map_append, map_cons, map_nil, reverse_append, reverse_cons, reverse_nil, nil_append,
      cons_append, Nat.ofDigits_cons] at fits ⊢
    simp only [foldlM_cons, foldlM_nil, last.1, bind, Except.bind, pure, Except.pure,
      bigintMultiply_digits (Nat.zero_lt_of_lt lower), bigintAdd_digits, Nat.add_zero]
    rw [Nat.mul_comm, Nat.add_comm, if_pos (by simpa using fits)]

/-- The digits in another base, the highest one first, behind as many zeros as before. -/
def rebase (source target : Nat) (digits : List Nat) : List Nat :=
  replicate (digits.takeWhile (· == 0)).length 0 ++
    (Nat.digits target (Nat.ofDigits source digits.reverse)).reverse

/-- Leading symbols of value zero are counted as such and add nothing to the number. -/
theorem leading_symbols {α : Type} {value : α → Nat} {first : α → Bool} {input : List α}
    (same : ∀ symbol ∈ input, first symbol = (value symbol == 0)) :
    (input.takeWhile first).length = ((input.map value).takeWhile (· == 0)).length ∧
      ∀ base : Nat, Nat.ofDigits base ((input.dropWhile first).map value).reverse =
        Nat.ofDigits base (input.map value).reverse := by
  induction input with
  | nil => simp
  | cons symbol rest ih =>
    obtain ⟨count, number⟩ := ih (fun symbol mem => same symbol (mem_cons_of_mem _ mem))
    have head := same symbol mem_cons_self
    by_cases zero : value symbol = 0
    · simp [head, zero, count, number, Nat.ofDigits_append]
    · simp [head, zero]

theorem ofDigits_dropWhile_zero (base : Nat) (digits : List Nat) :
    Nat.ofDigits base (digits.dropWhile (· == 0)).reverse = Nat.ofDigits base digits.reverse := by
  have number := (@leading_symbols Nat id (· == 0) digits (fun _ _ => rfl)).2 base
  rwa [map_id, map_id] at number

/-- Two changes of base are one. -/
theorem rebase_trans (source middle target : Nat) (digits : List Nat) :
    rebase middle target (rebase source middle digits) = rebase source target digits := by
  have head : (Nat.digits middle (Nat.ofDigits source digits.reverse)).reverse.takeWhile (· == 0) =
      [] := by
    rw [takeWhile_eq_nil_iff]
    intro nonempty
    have nonzero := Nat.digits_ne_nil_iff_ne_zero.1 (by simpa using ne_nil_of_length_pos nonempty)
    rw [get_eq_getElem, ← head_eq_getElem (ne_nil_of_length_pos nonempty), head_reverse]
    simpa using Nat.getLast_digit_ne_zero middle nonzero
  rw [rebase, rebase, reverse_append, reverse_replicate, Nat.ofDigits_append_replicate_zero,
    reverse_reverse, Nat.ofDigits_digits, takeWhile_append_of_pos (by simp), head, append_nil,
    length_replicate, rebase]

section

variable {source : Nat} (lower : 1 < source) {digits : List Nat}
  (bounded : ∀ digit ∈ digits, digit < source)
include lower bounded

theorem rebase_self : rebase source source digits = digits := by
  have zeros : replicate (digits.takeWhile (· == 0)).length 0 = digits.takeWhile (· == 0) :=
    (eq_replicate_of_mem fun _ mem => by simpa using mem_takeWhile_imp mem).symm
  rw [rebase, ← ofDigits_dropWhile_zero, Nat.digits_ofDigits source lower, reverse_reverse, zeros,
    takeWhile_append_dropWhile]
  · intro digit mem
    exact bounded digit ((dropWhile_sublist _).subset (mem_reverse.1 mem))
  · intro nonempty
    rw [getLast_reverse]
    exact ne_of_beq_false (head_dropWhile_not (· == 0) (mt reverse_eq_nil_iff.2 nonempty))

theorem length_rebase_le {target : Nat} (base : 1 < target) {room : Nat → Nat}
    (enough : ∀ count, source ^ count ≤ target ^ room count) :
    ∃ zeros rest, zeros + rest = digits.length ∧
      (rebase source target digits).length ≤ zeros + room rest := by
  refine ⟨(digits.takeWhile (· == 0)).length, (digits.dropWhile (· == 0)).length, ?_, ?_⟩
  · rw [← length_append, takeWhile_append_dropWhile]
  · rw [rebase, length_append, length_replicate, length_reverse, ← ofDigits_dropWhile_zero]
    refine Nat.add_le_add_left ((Nat.digits_length_le_iff base _).2 ?_) _
    refine lt_of_lt_of_le (Nat.ofDigits_lt_base_pow_length lower ?_) ?_
    · intro digit mem
      exact bounded digit ((dropWhile_sublist _).subset (mem_reverse.1 mem))
    · rw [length_reverse]
      exact enough _

end

/-- The buffer that is taken for a string has room for it. -/
theorem length_encoded_le {digits : List Nat} (bounded : ∀ digit ∈ digits, digit < 256) :
    (rebase 256 58 digits).length ≤ base58EncodedLength digits.length := by
  have enough (count : Nat) : 256 ^ count ≤ 58 ^ (count * 138 / 100 + 1) := by
    rw [← Nat.pow_le_pow_iff_left (n := 100) (by decide)]
    calc (256 ^ count) ^ 100 = (256 ^ 100) ^ count := by rw [← pow_mul, ← pow_mul, Nat.mul_comm]
      _ ≤ (58 ^ 138) ^ count := Nat.pow_le_pow_left (by norm_num) _
      _ = 58 ^ (138 * count) := (pow_mul _ _ _).symm
      _ ≤ 58 ^ ((count * 138 / 100 + 1) * 100) := Nat.pow_le_pow_right (by decide) (by omega)
      _ = (58 ^ (count * 138 / 100 + 1)) ^ 100 := pow_mul _ _ _
  obtain ⟨zeros, rest, total, fits⟩ := length_rebase_le (by decide) bounded (by decide) enough
  rw [base58EncodedLength]
  omega

theorem length_decoded_le {digits : List Nat} (bounded : ∀ digit ∈ digits, digit < 58) :
    (rebase 58 256 digits).length ≤ digits.length := by
  obtain ⟨zeros, rest, total, fits⟩ := length_rebase_le (by decide) bounded (by decide)
    (fun count => Nat.pow_le_pow_left (by decide : 58 ≤ 256) count)
  omega

/-- The value of a symbol of the alphabet. -/
def symbolValue (symbol : Char) : Nat := (base58Map symbol).getD 0

theorem symbol_facts (symbol : Char) (here : symbol ∈ base58Alphabet) :
    (symbolDigit symbol = .ok (symbolValue symbol) ∧ symbolValue symbol < 58) ∧
      (symbol == '1') = (symbolValue symbol == 0) ∧
      base58Alphabet.getD (symbolValue symbol) '1' = symbol := by
  have known : base58Alphabet.all (fun symbol => base58Map symbol == some (symbolValue symbol)) := by
    decide
  have each : base58Alphabet.all (fun symbol => decide (symbolValue symbol < 58) &&
      (symbol == '1') == (symbolValue symbol == 0) &&
      base58Alphabet.getD (symbolValue symbol) '1' == symbol) := by
    decide
  have found := beq_iff_eq.mp (all_eq_true.mp known symbol here)
  have facts := all_eq_true.mp each symbol here
  simp only [Bool.and_eq_true, decide_eq_true_eq, beq_iff_eq] at facts
  refine ⟨⟨?_, facts.1.1⟩, facts.1.2, facts.2⟩
  rw [symbolDigit, found]
  rfl

theorem alphabet_facts : ∀ digit < 58, base58Alphabet.getD digit '1' ∈ base58Alphabet ∧
    symbolValue (base58Alphabet.getD digit '1') = digit := by
  decide +kernel

theorem lt_of_mem_rebase {source target : Nat} (base : 1 < target) {digits : List Nat} {digit : Nat}
    (mem : digit ∈ rebase source target digits) : digit < target := by
  rcases mem_append.1 mem with zero | digit
  · rw [eq_of_mem_replicate zero]
    omega
  · exact Nat.digits_lt_base base (mem_reverse.1 digit)

/-- `base58_encode` into the buffer that a caller takes for some bytes. -/
def encoded (bytes : Bytes) : Except Base58Stop (List Char) :=
  base58Encode bytes (base58EncodedLength bytes.length)

/-- `base58_decode` into the buffer that a caller takes for a string. -/
def decoded (string : List Char) : Except Base58Stop Bytes :=
  base58Decode string (base58DecodedLength string.length)

theorem encoded_eq {bytes : Bytes} (short : bytes.length ≤ 2048) :
    encoded bytes =
      .ok ((rebase 256 58 (bytes.map UInt8.toNat)).map (base58Alphabet.getD · '1')) := by
  have bounded : ∀ digit ∈ bytes.map UInt8.toNat, digit < 256 := by
    simpa using fun byte _ => byte.toNat_lt
  have written := length_encoded_le bounded
  have zeros := (@leading_symbols UInt8 UInt8.toNat (· == 0) bytes (fun byte _ => by
    simp [← UInt8.toNat_inj])).1
  have read := bigintRead_digits (by decide : 1 < 256) le_rfl UInt8.toNat
    (fun byte (_ : byte ∈ bytes) => ⟨rfl, byte.toNat_lt⟩) (short.trans (by decide))
  rw [rebase, length_append, length_replicate, length_reverse, length_map] at written
  rw [encoded, base58Encode]
  split
  · have empty : bytes = [] := by simpa using ‹bytes.length = 0›
    simp [empty, rebase, base58EncodedLength]
  · rw [if_neg (by simpa [bigintSize] using short), read]
    simp only [bind, Except.bind]
    have room : base58EncodedLength bytes.length ≤ bigintSize := by
      rw [base58EncodedLength, bigintSize]
      omega
    rw [bigintDigits_digits (by decide) (by omega)]
    simp only [zeros, Nat.not_lt.2 written, if_false, rebase, map_append, map_replicate]
    rfl

theorem decoded_eq {input : List Char} (symbols : ∀ symbol ∈ input, symbol ∈ base58Alphabet)
    (short : input.length ≤ bigintSize) :
    decoded input =
      if base58DecodedLength input.length < (rebase 58 256 (input.map symbolValue)).length then
        .error .refused
      else .ok ((rebase 58 256 (input.map symbolValue)).map UInt8.ofNat) := by
  have bounded : ∀ digit ∈ input.map symbolValue, digit < 58 := by
    simpa using fun symbol mem => (symbol_facts symbol (symbols symbol mem)).1.2
  have written := length_decoded_le bounded
  obtain ⟨zeros, number⟩ := @leading_symbols Char symbolValue (· == '1') input
    (fun symbol mem => (symbol_facts symbol (symbols symbol mem)).2.1)
  have kept := dropWhile_sublist (l := input) (· == '1')
  have value : ∀ symbol ∈ input.dropWhile (· == '1'),
      symbolDigit symbol = .ok (symbolValue symbol) ∧ symbolValue symbol < 58 :=
    fun symbol mem => (symbol_facts symbol (symbols symbol (kept.subset mem))).1
  have read := bigintRead_digits (by decide : 1 < 58) (by decide) symbolValue
    value (kept.length_le.trans short)
  rw [rebase, length_append, length_replicate, length_reverse, length_map] at written
  rw [decoded, base58Decode]
  split
  · have empty : input = [] := by simpa using ‹input.length = 0›
    simp [empty, rebase]
  · rw [if_neg (Nat.not_lt.2 short), read, number]
    simp only [bind, Except.bind]
    rw [bigintDigits_digits (by decide) (by omega)]
    simp only [rebase, zeros, length_append, length_replicate, length_reverse, map_append,
      map_replicate]
    rfl

theorem map_map_eq {α β : Type} {there : α → β} {back : β → α} {list : List α}
    (inverse : ∀ entry ∈ list, back (there entry) = entry) : (list.map there).map back = list := by
  rw [map_map]
  exact (map_congr_left inverse).trans (map_id list)

end Liboffs.Util

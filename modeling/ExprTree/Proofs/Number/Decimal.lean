import ExprTree.Json.Numeral
import ExprTree.Number.Printer
import Mathlib.Algebra.Order.Ring.Abs
import Mathlib.Data.List.DropRight
import Mathlib.Data.Rat.Cast.Order
import Mathlib.Tactic.FieldSimp
import Mathlib.Tactic.Linarith
import Mathlib.Tactic.Push
import Mathlib.Tactic.Ring

namespace ExprTree

/-!
# Decimal numerals

A `DecimalNumeral` is a numeral with at most six digits after the point and no zero at the end of
them; the point is only written in front of digits.  Numbers are printed as two kinds of these:

* `DecimalNumeral.ofInt` — an integer, with all of its digits;
* `DecimalNumeral.ofMillionths` — so many millionths (`value_ofMillionths`).

`roundQuotient_half` says how far rounding to millionths may be off.
-/

/-! ### Digits -/

/-- Digits behind others are worth as much as they are alone. -/
theorem digitsValue_append (digits others : List Char) :
    digitsValue (digits ++ others)
      = digitsValue digits * 10 ^ others.length + digitsValue others := by
  show Nat.ofDigitChars 10 (digits ++ others) 0 = _
  rw [Nat.ofDigitChars_append, Nat.ofDigitChars_eq_ofDigitChars_zero, Nat.mul_comm]
  rfl

/-- Zeros alone are worth nothing. -/
theorem digitsValue_zeros (count : Nat) : digitsValue (List.replicate count '0') = 0 := by
  induction count with
  | zero => rfl
  | succ count ih =>
    rw [List.replicate_succ', digitsValue_append, ih]
    rfl

theorem digitsValue_wholeDigits (n : Nat) : digitsValue (wholeDigits n) = n :=
  Nat.ofDigitChars_ten_toDigits

theorem isDigit_of_mem_wholeDigits {n : Nat} {c : Char} (h : c ∈ wholeDigits n) :
    c.isDigit = true :=
  Nat.isDigit_of_mem_toDigits (by decide) (by decide) h

/-- One more of the last digits stands in front of the others. -/
theorem paddedDigits_succ (width n : Nat) :
    paddedDigits (width + 1) n
      = Nat.digitChar (n / Nat.pow 10 width % 10) :: paddedDigits width n := by
  rw [paddedDigits, List.range_succ, List.foldl_append]
  rfl

theorem length_paddedDigits (width n : Nat) : (paddedDigits width n).length = width := by
  induction width with
  | zero => rfl
  | succ width ih => rw [paddedDigits_succ, List.length_cons, ih]

/-- Padded digits are digits. -/
theorem isDigit_of_mem_paddedDigits {width n : Nat} {c : Char} (h : c ∈ paddedDigits width n) :
    c.isDigit = true := by
  have hdigit : ∀ d < 10, (Nat.digitChar d).isDigit = true := by decide
  induction width with
  | zero => cases h
  | succ width ih =>
    rw [paddedDigits_succ] at h
    obtain rfl | h := List.mem_cons.1 h
    · exact hdigit _ (Nat.mod_lt _ (by decide))
    · exact ih h

/-- Padded digits are worth the number as far as their width goes. -/
theorem digitsValue_paddedDigits (width n : Nat) :
    digitsValue (paddedDigits width n) = n % 10 ^ width := by
  have hdigit : ∀ d < 10, digitsValue [Nat.digitChar d] = d := by decide
  induction width with
  | zero => simp [paddedDigits, digitsValue, Nat.mod_one]
  | succ width ih =>
    rw [paddedDigits_succ, ← List.singleton_append, digitsValue_append, ih,
      hdigit _ (Nat.mod_lt _ (by decide)), length_paddedDigits, Nat.mod_pow_succ]
    show n / 10 ^ width % 10 * 10 ^ width + _ = _
    ring

/-! ### Rounding -/

/-- Rounding to a natural misses a quotient by half at most. -/
theorem roundQuotient_half (num : Nat) {den : Nat} (hden : 0 < den) :
    2 * (roundQuotient num den * den) ≤ 2 * num + den
      ∧ 2 * num ≤ 2 * (roundQuotient num den * den) + den := by
  have hnum : num / den * den + num % den = num := Nat.div_add_mod' num den
  have hremainder : num % den < den := Nat.mod_lt num hden
  have hup : (num / den + 1) * den = num / den * den + den := Nat.succ_mul ..
  unfold roundQuotient
  dsimp only
  split
  · omega
  · split
    · omega
    · -- a half, whichever neighbour it goes to
      split <;> omega

/-- What rounding to a natural misses a quotient by, as a rational. -/
theorem abs_roundQuotient_sub_le (num : Nat) {den : Nat} (hden : 0 < den) :
    |(roundQuotient num den : ℚ) - num / den| ≤ 1 / 2 := by
  obtain ⟨hupper, hlower⟩ := roundQuotient_half num hden
  have hpos : (0 : ℚ) < den := Nat.cast_pos.2 hden
  have hupper : 2 * ((roundQuotient num den : ℚ) * den) ≤ 2 * num + den := by exact_mod_cast hupper
  have hlower : 2 * (num : ℚ) ≤ 2 * ((roundQuotient num den : ℚ) * den) + den := by
    exact_mod_cast hlower
  have hquotient : (num : ℚ) / den * den = num := div_mul_cancel₀ _ hpos.ne'
  -- both sides times the denominator
  rw [abs_le]
  constructor <;> nlinarith

/-! ### Numerals -/

/-- A decimal numeral: a sign, digits before the point and some digits after it. -/
structure DecimalNumeral where
  negative : Bool
  whole : List Char
  fraction : List Char
  whole_ne_nil : whole ≠ []
  isDigit : ∀ c ∈ whole ++ fraction, c.isDigit = true
  length_fraction_le : fraction.length ≤ 6
  getLast?_fraction_ne : fraction.getLast? ≠ some '0'

namespace DecimalNumeral

/-- How a numeral is written; without a fraction there is no point. -/
def chars (d : DecimalNumeral) : List Char :=
  (if d.negative then ['-'] else []) ++ d.whole
    ++ if d.fraction.isEmpty then [] else '.' :: d.fraction

/-- The number that a numeral stands for. -/
def value (d : DecimalNumeral) : ℚ :=
  (if d.negative then -1 else 1)
    * (digitsValue (d.whole ++ d.fraction) / 10 ^ d.fraction.length)

/-- The numeral of an integer. -/
def ofInt (z : Int) : DecimalNumeral where
  negative := decide (z < 0)
  whole := wholeDigits z.natAbs
  fraction := []
  whole_ne_nil := Nat.toDigits_ne_nil
  isDigit _ hc := isDigit_of_mem_wholeDigits (List.append_nil _ ▸ hc)
  length_fraction_le := Nat.zero_le _
  getLast?_fraction_ne := nofun

/-- The numeral of an integer is written as the integer is. -/
theorem chars_ofInt (z : Int) : (ofInt z).chars = (toString z).toList := by
  have hchars : (ofInt z).chars
      = (if decide (z < 0) then ['-'] else []) ++ Nat.toDigits 10 z.natAbs :=
    List.append_nil _
  rw [hchars]
  cases z with
  | ofNat n => simp [toString, Int.repr]
  | negSucc n => simp [toString, Int.repr, Int.negSucc_lt_zero]

/-- The numeral of an integer has the integer for its value. -/
theorem value_ofInt (z : Int) : (ofInt z).value = z := by
  have hvalue : (ofInt z).value = (if decide (z < 0) then -1 else 1) * (z.natAbs : ℚ) := by
    simp [value, ofInt, digitsValue_wholeDigits]
  rw [hvalue]
  cases z with
  | ofNat n => simp
  | negSucc n => simp [Int.negSucc_lt_zero, Int.cast_negSucc]

/-- The digits of so many millionths after the point, less the zeros at their end. -/
def millionths (n : Nat) : List Char :=
  (paddedDigits 6 n).rdropWhile (· == '0')

/-- The digits after the point are the first of six. -/
theorem prefix_millionths (n : Nat) : millionths n <+: paddedDigits 6 n :=
  List.rdropWhile_prefix _ _

/-- With zeros put behind them the digits are all six again. -/
theorem exists_zeros (n : Nat) :
    ∃ count, millionths n ++ List.replicate count '0' = paddedDigits 6 n := by
  refine ⟨((paddedDigits 6 n).rtakeWhile (· == '0')).length, ?_⟩
  have hzeros : ∀ c ∈ (paddedDigits 6 n).rtakeWhile (· == '0'), c = '0' := fun c hc => by
    have hzero := List.mem_rtakeWhile_imp hc
    exact beq_iff_eq.1 hzero
  rw [← List.eq_replicate_of_mem hzeros]
  exact List.rdropWhile_append_rtakeWhile

/-- The numeral of so many millionths. -/
def ofMillionths (negative : Bool) (n : Nat) : DecimalNumeral where
  negative := negative
  whole := wholeDigits (n / 10 ^ 6)
  fraction := millionths n
  whole_ne_nil := Nat.toDigits_ne_nil
  isDigit _ hc := (List.mem_append.1 hc).elim isDigit_of_mem_wholeDigits
    fun hc => isDigit_of_mem_paddedDigits ((prefix_millionths n).subset hc)
  length_fraction_le := length_paddedDigits 6 n ▸ (prefix_millionths n).length_le
  getLast?_fraction_ne h := by
    by_cases hnil : millionths n = []
    · rw [hnil] at h
      cases h
    · rw [List.getLast?_eq_some_getLast hnil, Option.some.injEq] at h
      exact List.rdropWhile_last_not _ _ hnil (beq_iff_eq.2 h)

/-- The numeral of millionths is written as numbers print them. -/
theorem chars_ofMillionths (negative : Bool) (n : Nat) :
    (ofMillionths negative n).chars
      = if negative then '-' :: Number.decimalDigits n else Number.decimalDigits n := by
  have hdigits : Number.decimalDigits n = wholeDigits (n / 10 ^ 6)
      ++ if (millionths n).isEmpty then [] else '.' :: millionths n := by
    have hempty : ((paddedDigits 6 n).reverse.dropWhile (· == '0')).isEmpty
        = (millionths n).isEmpty := List.isEmpty_reverse.symm
    show (if ((paddedDigits 6 n).reverse.dropWhile (· == '0')).isEmpty
      then wholeDigits (n / 10 ^ 6) else wholeDigits (n / 10 ^ 6) ++ '.' :: millionths n) = _
    rw [hempty]
    cases (millionths n).isEmpty <;> simp
  rw [hdigits]
  cases negative <;> simp [chars, ofMillionths]

/-- The numeral of millionths is worth so many millionths. -/
theorem value_ofMillionths (negative : Bool) (n : Nat) :
    (ofMillionths negative n).value = (if negative then -1 else 1) * ((n : ℚ) / 10 ^ 6) := by
  obtain ⟨count, hzeros⟩ := exists_zeros n
  have hlength : (millionths n).length + count = 6 := by
    rw [← length_paddedDigits 6 n, ← hzeros, List.length_append, List.length_replicate]
  have hdigits : digitsValue (wholeDigits (n / 10 ^ 6) ++ millionths n) * 10 ^ count = n := by
    calc digitsValue (wholeDigits (n / 10 ^ 6) ++ millionths n) * 10 ^ count
        = digitsValue (wholeDigits (n / 10 ^ 6) ++ paddedDigits 6 n) := by
          -- the zeros that are not written are worth nothing
          rw [← hzeros, ← List.append_assoc, digitsValue_append _ (List.replicate count '0'),
            digitsValue_zeros, List.length_replicate, Nat.add_zero]
      _ = n / 10 ^ 6 * 10 ^ 6 + n % 10 ^ 6 := by
          rw [digitsValue_append, digitsValue_wholeDigits, digitsValue_paddedDigits,
            length_paddedDigits]
      _ = n := Nat.div_add_mod' n _
  show (if negative then -1 else 1)
    * ((digitsValue (wholeDigits (n / 10 ^ 6) ++ millionths n) : ℚ)
      / 10 ^ (millionths n).length) = _
  generalize digitsValue (wholeDigits (n / 10 ^ 6) ++ millionths n) = digits at hdigits ⊢
  generalize (millionths n).length = places at hlength ⊢
  have hmillionths : (digits : ℚ) / 10 ^ places = n / 10 ^ 6 := by
    rw [div_eq_div_iff (by positivity) (by positivity), ← hlength, pow_add, ← hdigits]
    push_cast
    ring
  rw [hmillionths]

end DecimalNumeral

end ExprTree

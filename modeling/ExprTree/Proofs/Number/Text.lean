import ExprTree.Proofs.Number.Decimal
import ExprTree.Proofs.Number.Exact

namespace ExprTree

/-!
# What a number is printed as

A finite number is printed as a decimal numeral (`Number.text_eq`): an integer with all of its
digits, and any other number rounded to millionths.  The numeral is as near to the exact value as
millionths are, but only for the numbers within the range of 64-bit words
(`Number.text_near`).  Larger ones are all printed as the end of the range.
-/

namespace Number

/-- The numeral of an exact form.  A fraction that is too small to tell is left out. -/
def numeral (s : Scaled) : DecimalNumeral :=
  if s.fractionPart * 2 ^ 52 < s.denominator then .ofInt (truncated s)
  else .ofMillionths s.negative (roundQuotient (s.numerator * 10 ^ 6) s.denominator)

variable {a : Number} {s : Scaled}

/-- A finite number is printed as its numeral. -/
theorem text_eq (hform : Scaled.ofFloat? a.value = some s) :
    a.text = String.ofList (numeral s).chars := by
  have hint : a.isInt = decide (s.fractionPart * 2 ^ 52 < s.denominator) := by
    rw [isInt, hform]
    rfl
  rw [text, hform, hint, numeral]
  by_cases hwhole : s.fractionPart * 2 ^ 52 < s.denominator
  · rw [if_pos hwhole, DecimalNumeral.chars_ofInt, String.ofList_toList]
    simp only [hwhole, decide_true, if_true]
  · rw [if_neg hwhole, DecimalNumeral.chars_ofMillionths]
    simp only [hwhole, decide_false, Bool.false_eq_true, if_false]
    rfl

/-! ### Integers -/

/-- A number that counts as an integer is printed as its integer part, cut off at the
    range of a word. -/
theorem text_of_whole (hform : Scaled.ofFloat? a.value = some s)
    (hwhole : s.fractionPart * 2 ^ 52 < s.denominator) : a.text = toString (truncated s) := by
  rw [text_eq hform, numeral, if_pos hwhole, DecimalNumeral.chars_ofInt, String.ofList_toList]

/-- In the range of words the integer part is written as it is. -/
theorem truncated_of_inRange (hlower : -2 ^ 63 ≤ s.toRat) (hupper : s.toRat < 2 ^ 63) :
    truncated s = s.truncation := by
  have hleast : -2 ^ 63 ≤ s.truncation := Scaled.le_truncation (by exact_mod_cast hlower)
  have hgreatest : s.truncation < 2 ^ 63 :=
    Scaled.truncation_lt (by norm_num) (by exact_mod_cast hupper)
  show max (-2 ^ 63) (min (2 ^ 63 - 1) s.truncation) = s.truncation
  omega

/-- From the end of the range on, the integer part is cut off at the greatest word. -/
theorem truncated_of_le (h : 2 ^ 63 ≤ s.toRat) : truncated s = 2 ^ 63 - 1 := by
  have hgreatest : 2 ^ 63 ≤ s.truncation := Scaled.le_truncation (by exact_mod_cast h)
  show max (-2 ^ 63) (min (2 ^ 63 - 1) s.truncation) = 2 ^ 63 - 1
  omega

/-- Below the range it is cut off at the least word. -/
theorem truncated_of_lt (h : s.toRat < -2 ^ 63) : truncated s = -2 ^ 63 := by
  have hleast : s.truncation ≤ -2 ^ 63 := Scaled.truncation_le (by exact_mod_cast h.le)
  show max (-2 ^ 63) (min (2 ^ 63 - 1) s.truncation) = -2 ^ 63
  omega

/-- A fraction that is left out is smaller than what rounding to millionths may miss. -/
theorem value_near_of_whole (hwhole : s.fractionPart * 2 ^ 52 < s.denominator)
    (hlower : -2 ^ 63 ≤ s.toRat) (hupper : s.toRat < 2 ^ 63) :
    |(numeral s).value - s.toRat| ≤ 5 / 10 ^ 7 := by
  have hpos : (0 : ℚ) < s.denominator := Nat.cast_pos.2 s.denominator_pos
  have hwhole' : (s.fractionPart : ℚ) * 2 ^ 52 < s.denominator := by exact_mod_cast hwhole
  rw [numeral, if_pos hwhole, DecimalNumeral.value_ofInt, truncated_of_inRange hlower hupper,
    Scaled.abs_truncation_sub, div_le_iff₀ hpos]
  -- what is left out is less than `2 ^ -52`
  linarith

/-! ### Other numbers -/

/-- A number with a fraction is within the range of words. -/
theorem inRange_of_fraction (hform : Scaled.ofFloat? a.value = some s)
    (hfraction : ¬ s.fractionPart * 2 ^ 52 < s.denominator) :
    -2 ^ 63 ≤ s.toRat ∧ s.toRat < 2 ^ 63 := by
  have hne : s.fractionPart ≠ 0 := by
    rintro hzero
    rw [hzero, Nat.zero_mul] at hfraction
    exact hfraction s.denominator_pos
  have hsmall := Scaled.magnitude_lt_of_fraction hform hne
  have hnonneg := s.magnitude_nonneg
  unfold Scaled.toRat
  split <;> constructor <;> linarith

/-- Millionths miss a number by half of one at most. -/
theorem value_near_of_fraction (hfraction : ¬ s.fractionPart * 2 ^ 52 < s.denominator) :
    |(numeral s).value - s.toRat| ≤ 5 / 10 ^ 7 := by
  have hround := abs_roundQuotient_sub_le (s.numerator * 10 ^ 6) s.denominator_pos
  have hexact : ((s.numerator * 10 ^ 6 : Nat) : ℚ) / s.denominator = s.magnitude * 10 ^ 6 := by
    rw [Scaled.magnitude_eq_div]
    push_cast
    ring
  -- half a unit of rounding is half a millionth
  rw [hexact] at hround
  rw [numeral, if_neg hfraction, DecimalNumeral.value_ofMillionths, Scaled.toRat]
  generalize roundQuotient (s.numerator * 10 ^ 6) s.denominator = millionths at hround ⊢
  have hnear : |(millionths : ℚ) / 10 ^ 6 - s.magnitude| ≤ 5 / 10 ^ 7 := by
    rw [abs_le] at hround ⊢
    constructor <;> linarith
  split
  · rw [neg_one_mul, neg_sub_neg, abs_sub_comm]
    exact hnear
  · rw [one_mul]
    exact hnear

/-- An integer has no fraction. -/
theorem whole_of_toRat_eq {z : Int} (h : s.toRat = z) :
    s.fractionPart * 2 ^ 52 < s.denominator := by
  -- its integer part misses it by nothing, and what is missed is the fraction
  have hmissed := s.abs_truncation_sub
  rw [Scaled.truncation_of_toRat_eq h, h, sub_self, abs_zero, eq_comm, div_eq_zero_iff] at hmissed
  have hzero : s.fractionPart = 0 := by
    obtain hzero | hzero := hmissed
    · exact_mod_cast hzero
    · exact absurd (by exact_mod_cast hzero) s.denominator_pos.ne'
  rw [hzero, Nat.zero_mul]
  exact s.denominator_pos

/-! ### All numbers -/

/-- **Numbers are printed accurately within the range of words.**  A finite number is printed as
a decimal numeral with at most six digits after the point, without zeros at their end and without
a point that nothing follows.

* From `-2 ^ 63` on and below `2 ^ 63` the numeral differs from the number by half a millionth at
  most, and an integer is printed with its exact digits.
* Beyond that the number is an integer, too, but the greatest or the least word is printed in its
  place. -/
theorem text_near (a : Number) {q : ℚ} (h : a.rational? = some q) :
    ∃ d : DecimalNumeral, a.text = String.ofList d.chars
      ∧ (-2 ^ 63 ≤ q → q < 2 ^ 63 →
        |d.value - q| ≤ 5 / 10 ^ 7 ∧ ∀ z : Int, q = z → a.text = toString z)
      ∧ (2 ^ 63 ≤ q → a.text = toString (2 ^ 63 - 1 : Int))
      ∧ (q < -2 ^ 63 → a.text = toString (-2 ^ 63 : Int)) := by
  rw [rational?_eq, Option.map_eq_some_iff] at h
  obtain ⟨s, hform, rfl⟩ := h
  refine ⟨numeral s, text_eq hform, fun hlower hupper => ⟨?_, fun z hz => ?_⟩, fun hle => ?_,
    fun hlt => ?_⟩
  · by_cases hwhole : s.fractionPart * 2 ^ 52 < s.denominator
    · exact value_near_of_whole hwhole hlower hupper
    · exact value_near_of_fraction hwhole
  · rw [text_of_whole hform (whole_of_toRat_eq hz), truncated_of_inRange hlower hupper,
      Scaled.truncation_of_toRat_eq hz]
  · by_cases hwhole : s.fractionPart * 2 ^ 52 < s.denominator
    · rw [text_of_whole hform hwhole, truncated_of_le hle]
    · -- a double with a fraction is far within the range
      exact absurd (inRange_of_fraction hform hwhole).2 (not_lt.2 hle)
  · by_cases hwhole : s.fractionPart * 2 ^ 52 < s.denominator
    · rw [text_of_whole hform hwhole, truncated_of_lt hlt]
    · exact absurd (inRange_of_fraction hform hwhole).1 (not_le.2 hlt)

/-- The double nearest to 42.123. -/
def measured : Number := ⟨Float.ofBits 0x40450FBE76C8B439⟩

/-- What is printed for `measured` is not just its exact value, but within half a millionth
    of it. -/
theorem text_near_measured :
    measured.rational? = some (5928285221991481 / 2 ^ 47)
      ∧ ∃ d : DecimalNumeral, measured.text = "42.123" ∧ measured.text = String.ofList d.chars
        ∧ |d.value - 5928285221991481 / 2 ^ 47| ≤ 5 / 10 ^ 7 := by
  have hform : Scaled.ofFloat? measured.value = some ⟨false, 5928285221991481, -47⟩ := rfl
  have hexact : measured.rational? = some (5928285221991481 / 2 ^ 47) := by
    rw [rational?_eq, hform, Option.map_some]
    norm_num [Scaled.toRat, Scaled.magnitude]
  obtain ⟨d, hd, hnear, _⟩ := text_near measured hexact
  exact ⟨hexact, d, rfl, hd, (hnear (by norm_num) (by norm_num)).1⟩

/-- An integer that is a double, but beyond the range of words. -/
def tenToThe19 : Number := ⟨Float.ofBits 0x43E158E460913D00⟩

/-- Not every integer is printed with its digits. -/
theorem not_text_eq_toString :
    ¬ ∀ (a : Number) (z : Int), a.rational? = some (z : ℚ) → a.text = toString z := by
  intro h
  have hform : Scaled.ofFloat? tenToThe19.value = some ⟨false, 4882812500000000, 11⟩ := rfl
  have hexact : tenToThe19.rational? = some ((10000000000000000000 : Int) : ℚ) := by
    rw [rational?_eq, hform, Option.map_some]
    norm_num [Scaled.toRat, Scaled.magnitude]
  have htext : tenToThe19.text = "9223372036854775807" := rfl
  have hdigits := h tenToThe19 _ hexact
  rw [htext] at hdigits
  exact absurd hdigits (by decide)

end Number

end ExprTree

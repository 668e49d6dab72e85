import ExprTree.Proofs.Number
import Mathlib.Data.Rat.Floor

namespace ExprTree

/-!
# The exact value of a number

`Number.rational?` is the rational number that a finite double is, read off its unpacked form.
`Number.rational?_eq` says that the exact form of the double stands for the same number,
`Scaled.toRat`, and the rest is about that number: its integer part towards zero
(`Scaled.truncation_eq`), and that it is below `2 ^ 53` unless it is an integer
(`Scaled.magnitude_lt_of_fraction`).
-/

/-- The rational number that a finite double is; infinities and NaN are none. -/
def Number.rational? (a : Number) : Option ℚ :=
  match a.value.toModel.unpack with
  | .finite .negative mantissa exponent _ => some (-(mantissa * 2 ^ exponent))
  | .finite .positive mantissa exponent _ => some (mantissa * 2 ^ exponent)
  | .zero _ => some 0
  | .infinity _ | .notANumber => none

namespace Scaled

/-- The magnitude of an exact form. -/
def magnitude (s : Scaled) : ℚ := s.significand * 2 ^ s.exponent

/-- The number that an exact form stands for. -/
def toRat (s : Scaled) : ℚ := if s.negative then -s.magnitude else s.magnitude

/-- The integer part of the number, towards zero. -/
def truncation (s : Scaled) : Int := if s.negative then -(s.wholePart : Int) else s.wholePart

variable {s : Scaled}

/-- The magnitude is the quotient that digits are taken from. -/
theorem magnitude_eq_div (s : Scaled) : s.magnitude = s.numerator / s.denominator := by
  have hpow : (2 : ℚ) ^ s.exponent
      = 2 ^ s.exponent.toNat / 2 ^ (-s.exponent).toNat := by
    cases s.exponent with
    | ofNat n => simp
    | negSucc n => simp [zpow_negSucc]
  rw [magnitude, hpow, ← mul_div_assoc]
  simp [numerator, denominator]

theorem magnitude_nonneg (s : Scaled) : 0 ≤ s.magnitude :=
  mul_nonneg (Nat.cast_nonneg _) (zpow_nonneg (by norm_num) _)

/-- The number is its integer part and a fraction below one. -/
theorem magnitude_eq_add (s : Scaled) :
    s.magnitude = s.wholePart + (s.fractionPart : ℚ) / s.denominator := by
  have hpos : (0 : ℚ) < s.denominator := Nat.cast_pos.2 s.denominator_pos
  have hparts : (s.denominator * s.wholePart + s.fractionPart : ℚ) = s.numerator := by
    exact_mod_cast Nat.div_add_mod s.numerator s.denominator
  rw [magnitude_eq_div, ← hparts, add_div, mul_div_cancel_left₀ _ hpos.ne']

/-- The whole part of a magnitude is its floor. -/
theorem floor_magnitude (s : Scaled) : ⌊s.magnitude⌋ = s.wholePart := by
  rw [magnitude_eq_div, Rat.floor_natCast_div_natCast, wholePart, Int.natCast_div]

/-- The integer part towards zero is the floor of a positive number and the ceiling of a
    negative one. -/
theorem truncation_eq (s : Scaled) :
    s.truncation = if s.negative then ⌈s.toRat⌉ else ⌊s.toRat⌋ := by
  unfold truncation toRat
  split
  · rw [Int.ceil_neg, floor_magnitude]
  · rw [floor_magnitude]

/-- An integer that is not above the number is not above its integer part either. -/
theorem le_truncation {z : Int} (h : (z : ℚ) ≤ s.toRat) : z ≤ s.truncation := by
  rw [truncation_eq]
  split
  · exact Int.cast_le.1 (h.trans (Int.le_ceil _))
  · exact Int.le_floor.2 h

/-- An integer that is not below the number is not below its integer part either. -/
theorem truncation_le {z : Int} (h : s.toRat ≤ z) : s.truncation ≤ z := by
  rw [truncation_eq]
  split
  · exact Int.ceil_le.2 h
  · exact Int.cast_le.1 ((Int.floor_le _).trans h)

/-- Only a positive bound is kept, for towards zero is upwards below zero. -/
theorem truncation_lt {z : Int} (hz : 0 < z) (h : s.toRat < z) : s.truncation < z := by
  unfold truncation toRat at *
  split at h
  · rename_i hnegative
    -- not above zero, whatever the fraction
    rw [if_pos hnegative]
    omega
  · rename_i hpositive
    rw [if_neg hpositive, ← floor_magnitude]
    exact Int.floor_lt.2 h

/-- What the integer part misses the number by. -/
theorem abs_truncation_sub (s : Scaled) :
    |(s.truncation : ℚ) - s.toRat| = (s.fractionPart : ℚ) / s.denominator := by
  have hfraction : (0 : ℚ) ≤ (s.fractionPart : ℚ) / s.denominator := by positivity
  unfold truncation toRat
  rw [magnitude_eq_add]
  split
  · push_cast
    rw [show -(s.wholePart : ℚ) - -(s.wholePart + (s.fractionPart : ℚ) / s.denominator)
      = (s.fractionPart : ℚ) / s.denominator by ring, abs_of_nonneg hfraction]
  · push_cast
    rw [sub_add_cancel_left, abs_neg, abs_of_nonneg hfraction]

/-- The integer part of an integer is the integer. -/
theorem truncation_of_toRat_eq {z : Int} (h : s.toRat = z) : s.truncation = z := by
  rw [truncation_eq, h, Int.ceil_intCast, Int.floor_intCast, ite_self]

/-! ### Finite doubles -/

/-- A significand has 53 bits at most. -/
theorem significand_lt {x : Float} (h : ofFloat? x = some s) : s.significand < 2 ^ 53 := by
  have hfraction : x.toBits.toNat % Nat.pow 2 fractionBits < Nat.pow 2 fractionBits :=
    Nat.mod_lt _ (by decide)
  have hbits : Nat.pow 2 fractionBits + Nat.pow 2 fractionBits = 2 ^ 53 := by decide
  simp only [ofFloat?] at h
  split at h
  · cases h
  · split at h <;> cases h <;> dsimp only <;> omega

/-- A double with a fraction is small: its last place is behind the point. -/
theorem magnitude_lt_of_fraction {x : Float} (h : ofFloat? x = some s)
    (hfraction : s.fractionPart ≠ 0) : s.magnitude < 2 ^ 53 := by
  -- otherwise the significand is only multiplied, which leaves no fraction
  have hexponent : s.exponent < 0 := by
    by_contra hexponent
    have hdenominator : s.denominator = 1 := by
      rw [denominator, Int.toNat_eq_zero.2 (by omega), Nat.pow_eq, Nat.pow_zero]
    rw [fractionPart, hdenominator, Nat.mod_one] at hfraction
    exact hfraction rfl
  have hpow : (2 : ℚ) ^ s.exponent ≤ 1 :=
    zpow_le_one_of_nonpos₀ (by norm_num) hexponent.le
  have hsignificand : (s.significand : ℚ) < 2 ^ 53 := by exact_mod_cast significand_lt h
  calc s.magnitude ≤ s.significand * 1 :=
        mul_le_mul_of_nonneg_left hpow (Nat.cast_nonneg _)
    _ = s.significand := mul_one _
    _ < 2 ^ 53 := hsignificand

end Scaled

/-- The exact form of a double stands for its exact value. -/
theorem Number.rational?_eq (a : Number) :
    a.rational? = (Scaled.ofFloat? a.value).map Scaled.toRat := by
  cases hform : Scaled.ofFloat? a.value with
  | none =>
    -- without an exact form the double is an infinity or no number at all
    have hinfinite := Scaled.isFinite_of_ofFloat? hform
    unfold rational?
    generalize a.value.toModel.unpack = x at hinfinite
    cases x with
    | finite | zero => cases hinfinite
    | infinity | notANumber => rfl
  | some s =>
    rw [rational?, Scaled.unpack_of_ofFloat? hform, Option.map_some]
    unfold Scaled.unpacked Scaled.toRat Scaled.magnitude Scaled.sign
    by_cases hzero : s.significand = 0
    · rw [dif_pos hzero]
      simp [hzero]
    · rw [dif_neg hzero]
      cases s.negative <;> rfl

end ExprTree

import ExprTree.Number.Basic

namespace ExprTree

/-!
# Numbers as doubles

* Equality of numbers is that of doubles: it is symmetric and transitive, and only NaN is not equal
  to itself (`Number.beq_self`).
* The doubles with an exact form are unpacked to that (`Scaled.unpack_of_ofFloat?`), and the others
  are infinities and NaN (`Scaled.isFinite_of_ofFloat?`).
-/

open Float.Model (UnpackedFloat)
open Float.Model.UnpackedFloat (Sign)

/-! ### Equality -/

namespace Number

/-- An unpacked double without the sign of a zero, which comparisons do not look at. -/
def unsigned : UnpackedFloat → UnpackedFloat
  | .zero _ => .zero .positive
  | x => x

theorem isNaN_unsigned (x : UnpackedFloat) : (unsigned x).isNaN = x.isNaN := by
  cases x <;> rfl

/-- Only NaN is not a number. -/
theorem isNaN_eq_false_iff {x : UnpackedFloat} : x.isNaN = false ↔ x ≠ .notANumber := by
  cases x with
  | notANumber => exact iff_of_false nofun fun h => h rfl
  | _ => exact iff_of_true rfl nofun

/-- Finite doubles that are not zero are compared by what they are made of. -/
theorem compare_finite {sign sign' : Sign} {m m' : Nat} {e e' : Int} {hm : 0 < m} {hm' : 0 < m'} :
    UnpackedFloat.compare (.finite sign m e hm) (.finite sign' m' e' hm') = some .eq
      ↔ UnpackedFloat.finite sign m e hm = .finite sign' m' e' hm' := by
  rw [UnpackedFloat.finite.injEq]
  cases sign <;> cases sign'
  · show some ((compare e e').then (compare m m')).swap = some .eq ↔ _
    simp [and_comm]
  · exact iff_of_false nofun nofun
  · exact iff_of_false nofun nofun
  · show some ((compare e e').then (compare m m')) = some .eq ↔ _
    simp [and_comm]

/-- Unpacked doubles are equal if they are the same but for the sign of a zero, except
    that NaN is equal to none. -/
theorem unpacked_beq {x y : UnpackedFloat} :
    x.beq y = true ↔ x.isNaN = false ∧ unsigned x = unsigned y := by
  show (x.compare y == some .eq) = true ↔ _
  rw [beq_iff_eq, isNaN_eq_false_iff]
  -- doubles of different kinds are not equal, and of one kind it depends on what they hold
  cases x with
  | notANumber => exact iff_of_false nofun fun h => h.1 rfl
  | infinity sign =>
    cases y with
    | infinity sign' =>
      cases sign <;> cases sign' <;>
        first | exact iff_of_true rfl ⟨nofun, rfl⟩ | exact iff_of_false nofun (nofun ∘ And.right)
    | _ => cases sign <;> exact iff_of_false nofun (nofun ∘ And.right)
  | zero sign =>
    cases y with
    | zero sign' => exact iff_of_true rfl ⟨nofun, rfl⟩
    | infinity sign' | finite sign' => cases sign' <;> exact iff_of_false nofun (nofun ∘ And.right)
    | notANumber => exact iff_of_false nofun (nofun ∘ And.right)
  | finite sign m e hm =>
    cases y with
    | finite sign' m' e' hm' => exact compare_finite.trans (and_iff_right nofun).symm
    | infinity sign' => cases sign' <;> exact iff_of_false nofun (nofun ∘ And.right)
    | zero => cases sign <;> exact iff_of_false nofun (nofun ∘ And.right)
    | notANumber => exact iff_of_false nofun (nofun ∘ And.right)

/-- Numbers are compared as doubles are. -/
theorem beq_iff {m n : Number} :
    (m == n) = true ↔ m.value.isNaN = false
      ∧ unsigned m.value.toModel.unpack = unsigned n.value.toModel.unpack :=
  unpacked_beq

instance : PartialEquivBEq Number where
  symm {m n} h := by
    obtain ⟨hnan, hunsigned⟩ := beq_iff.1 h
    have hnan : n.value.isNaN = false := by
      rwa [Float.isNaN, Float.Model.isNaN, ← isNaN_unsigned, ← hunsigned, isNaN_unsigned]
    exact beq_iff.2 ⟨hnan, hunsigned.symm⟩
  trans {l m n} h h' :=
    beq_iff.2 ⟨(beq_iff.1 h).1, (beq_iff.1 h).2.trans (beq_iff.1 h').2⟩

/-- Every number equals itself but NaN. -/
theorem beq_self (n : Number) : (n == n) = !n.value.isNaN := by
  rw [Bool.eq_iff_iff, beq_iff, and_iff_left rfl, Bool.not_eq_true']

end Number

/-! ### Exact forms -/

namespace Scaled

/-- The sign of an unpacked double. -/
def sign (s : Scaled) : Sign := if s.negative then .negative else .positive

/-- The unpacked double of an exact form. -/
def unpacked (s : Scaled) : UnpackedFloat :=
  if h : s.significand = 0 then .zero s.sign
  else .finite s.sign s.significand s.exponent (Nat.pos_of_ne_zero h)

variable (word : UInt64)

theorem exponent_toNat :
    (@UnpackedFloat.unpackExponent .binary64 word.toBitVec).toNat
      = word.toNat / Nat.pow 2 fractionBits % Nat.pow 2 11 := by
  simp [UnpackedFloat.unpackExponent, Nat.shiftRight_eq_div_pow, fractionBits]

theorem mantissa_toNat :
    (@UnpackedFloat.unpackMantissa .binary64 word.toBitVec).toNat
      = word.toNat % Nat.pow 2 fractionBits := by
  simp [UnpackedFloat.unpackMantissa, fractionBits]

/-- The bit in front of the fraction of a normal double. -/
theorem implicit_toNat :
    (1#1 ++ @UnpackedFloat.unpackMantissa .binary64 word.toBitVec).toNat
      = Nat.pow 2 fractionBits + word.toNat % Nat.pow 2 fractionBits := by
  rw [BitVec.toNat_append, ← Nat.shiftLeft_add_eq_or_of_lt (BitVec.isLt _), mantissa_toNat]
  rfl

/-- The sign of a double is the first bit of its word. -/
theorem sign_toNat :
    (@UnpackedFloat.unpackSign .binary64 word.toBitVec).toNat = word.toNat / Nat.pow 2 63 := by
  have hword : word.toNat < 2 ^ 64 := word.toBitVec.isLt
  show (word.toBitVec.extractLsb 63 63).toNat = word.toNat / 2 ^ 63
  rw [BitVec.extractLsb_toNat, Nat.shiftRight_eq_div_pow, UInt64.toNat_toBitVec]
  omega

/-- A double is negative if its first bit is set. -/
theorem ofBitVec_unpackSign :
    Sign.ofBitVec (@UnpackedFloat.unpackSign .binary64 word.toBitVec)
      = if word.toNat / Nat.pow 2 63 == 1 then .negative else .positive := by
  rw [← sign_toNat]
  obtain h | h := BitVec.eq_zero_or_eq_one (@UnpackedFloat.unpackSign .binary64 word.toBitVec) <;>
    rw [h] <;> rfl

variable {word}

theorem exponent_eq_iff {field : BitVec 11} :
    @UnpackedFloat.unpackExponent .binary64 word.toBitVec = field
      ↔ word.toNat / Nat.pow 2 fractionBits % Nat.pow 2 11 = field.toNat := by
  rw [← exponent_toNat]
  exact BitVec.toNat_inj.symm

theorem mantissa_eq_zero_iff :
    @UnpackedFloat.unpackMantissa .binary64 word.toBitVec = 0#52
      ↔ word.toNat % Nat.pow 2 fractionBits = 0 := by
  rw [← mantissa_toNat]
  exact BitVec.toNat_inj.symm

/-- A double is unpacked to its exact form. -/
theorem unpack_of_ofFloat? {x : Float} {s : Scaled} (h : ofFloat? x = some s) :
    x.toModel.unpack = s.unpacked := by
  show UnpackedFloat.unpack .binary64 x.toBits.toBitVec = s.unpacked
  unfold UnpackedFloat.unpack
  simp only [ofFloat?] at h
  split at h
  · cases h
  · rename_i hfinite
    refine (if_neg (mt exponent_eq_iff.1 hfinite)).trans ?_
    split at h
    · -- a zero or a subnormal double, whose fraction is all of the significand
      rename_i hzero
      cases h
      refine (if_pos (exponent_eq_iff.2 hzero)).trans ?_
      rw [unpacked]
      by_cases hfraction : x.toBits.toNat % Nat.pow 2 fractionBits = 0
      · rw [dif_pos hfraction]
        refine (dif_pos (mantissa_eq_zero_iff.2 hfraction)).trans ?_
        exact congrArg UnpackedFloat.zero (ofBitVec_unpackSign _)
      · rw [dif_neg hfraction]
        refine (dif_neg (mt mantissa_eq_zero_iff.1 hfraction)).trans ?_
        rw [UnpackedFloat.finite.injEq]
        exact ⟨ofBitVec_unpackSign _, mantissa_toNat _, by rw [exponent_toNat, hzero]; rfl⟩
    · rename_i hnormal
      cases h
      -- a normal double has a one in front of its fraction, so the significand is not zero
      refine (if_neg (mt exponent_eq_iff.1 hnormal)).trans ?_
      rw [unpacked, dif_neg (by simp), UnpackedFloat.finite.injEq]
      exact ⟨ofBitVec_unpackSign _, implicit_toNat _, by rw [exponent_toNat]; rfl⟩

/-- Doubles without an exact form are infinities and NaN. -/
theorem isFinite_of_ofFloat? {x : Float} (h : ofFloat? x = none) :
    x.toModel.unpack.isFinite = false := by
  show (UnpackedFloat.unpack .binary64 x.toBits.toBitVec).isFinite = false
  unfold UnpackedFloat.unpack
  simp only [ofFloat?] at h
  split at h
  · rename_i hinfinite
    refine (congrArg _ (if_pos (exponent_eq_iff.2 hinfinite))).trans ?_
    split <;> rfl
  · split at h <;> cases h

/-- What has an exact form is a number. -/
theorem isNaN_eq_false {x : Float} {s : Scaled} (h : ofFloat? x = some s) : x.isNaN = false := by
  show x.toModel.unpack.isNaN = false
  rw [unpack_of_ofFloat? h, unpacked]
  by_cases hzero : s.significand = 0
  · rw [dif_pos hzero]
    rfl
  · rw [dif_neg hzero]
    rfl

end Scaled

end ExprTree

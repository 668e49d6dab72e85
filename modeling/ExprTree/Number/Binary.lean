namespace ExprTree

/-!
# Finite doubles as scaled integers

Every finite double is `± significand * 2 ^ exponent`.  This module converts
between the 64-bit word and that form:

* `Scaled.ofFloat?` — the exact form of a finite double;
* `Scaled.toFloat` — the double of a form whose significand has at most 53 bits;
* `Scaled.numerator`, `Scaled.denominator` — the magnitude as a quotient of
  naturals, which is what rounding and printing work on.
-/

/-- The number `± significand * 2 ^ exponent`; zero keeps its sign. -/
structure Scaled where
  negative : Bool
  significand : Nat
  exponent : Int
  deriving DecidableEq, Repr

namespace Scaled

/-- Width of the stored fraction of a double. -/
def fractionBits : Nat := 52

/-- Exponent of the last place of the subnormal doubles. -/
def leastExponent : Int := -1074

/-- The exact value of a finite double; infinities and NaN have none. -/
def ofFloat? (x : Float) : Option Scaled :=
  let word := x.toBits.toNat
  let negative := word / Nat.pow 2 63 == 1
  let field : Nat := word / Nat.pow 2 fractionBits % Nat.pow 2 11
  let fraction : Nat := word % Nat.pow 2 fractionBits
  if field = 2047 then none
  else if field = 0 then some ⟨negative, fraction, leastExponent⟩
  else some ⟨negative, Nat.pow 2 fractionBits + fraction, (field : Int) - 1075⟩

/-- The double `± significand * 2 ^ exponent`.  The significand is moved to the
    place where the format keeps it, so a significand of more than 53 bits, or
    one that lies below the subnormals, loses its lowest bits. -/
def toFloat (s : Scaled) : Float :=
  let sign := if s.negative then Nat.pow 2 63 else 0
  if s.significand = 0 then Float.ofBits (UInt64.ofNat sign)
  else
    let place := max (s.exponent + s.significand.log2 - fractionBits) leastExponent
    let significand :=
      s.significand * Nat.pow 2 (s.exponent - place).toNat
        / Nat.pow 2 (place - s.exponent).toNat
    let magnitude :=
      if significand < Nat.pow 2 fractionBits then significand
      else (place + 1075).toNat * Nat.pow 2 fractionBits
        + (significand - Nat.pow 2 fractionBits)
    Float.ofBits (UInt64.ofNat (sign + magnitude))

/-- Numerator of the magnitude. -/
def numerator (s : Scaled) : Nat :=
  s.significand * Nat.pow 2 s.exponent.toNat

/-- Denominator of the magnitude, a power of two. -/
def denominator (s : Scaled) : Nat :=
  Nat.pow 2 (-s.exponent).toNat

theorem denominator_pos (s : Scaled) : 0 < s.denominator :=
  Nat.two_pow_pos _

/-- The integer part of the magnitude. -/
def wholePart (s : Scaled) : Nat :=
  s.numerator / s.denominator

/-- The magnitude less its integer part, over `s.denominator`. -/
def fractionPart (s : Scaled) : Nat :=
  s.numerator % s.denominator

end Scaled

end ExprTree

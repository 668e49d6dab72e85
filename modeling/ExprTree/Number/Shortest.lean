import ExprTree.Number.Binary
import ExprTree.Number.Rounding

namespace ExprTree

/-!
# Shortest decimals

The reals that round to a given double form an interval around it.
`Scaled.shortest` finds the decimal in that interval that has the fewest digits,
and of those the nearest to the double.

Everything is measured in quarters of the last place of the double, so that the
double, the ends of its interval and the decimals are quotients of naturals.
-/

/-- The decimal `digits * 10 ^ exponent`. -/
structure Decimal where
  digits : Nat
  exponent : Int
  deriving DecidableEq, Repr

/-- An interval of positive reals, its ends and the number in it over one denominator. -/
structure RoundingInterval where
  low : Nat
  value : Nat
  high : Nat
  denominator : Nat
  closed : Bool
  deriving DecidableEq, Repr

namespace RoundingInterval

/-- The reals that round to the double with the magnitude of `s`.  Below a power
    of two doubles lie twice as dense, so the lower end is nearer there.  The
    ends belong to the interval if the significand is even. -/
def ofScaled (s : Scaled) : RoundingInterval :=
  let unit := Nat.pow 2 s.exponent.toNat
  let dense := s.significand == Nat.pow 2 Scaled.fractionBits && Scaled.leastExponent < s.exponent
  { low := (4 * s.significand - (if dense then 1 else 2)) * unit
    value := 4 * s.significand * unit
    high := (4 * s.significand + 2) * unit
    denominator := 4 * s.denominator
    closed := s.significand % 2 == 0 }

/-- Whether `num / den` lies in the interval. -/
def contains (i : RoundingInterval) (num den : Nat) : Bool :=
  let position := num * i.denominator
  if i.closed then i.low * den ≤ position && position ≤ i.high * den
  else i.low * den < position && position < i.high * den

/-- The interval divided by a power of ten. -/
def scaleDown (i : RoundingInterval) (place : Int) : RoundingInterval :=
  let up := Nat.pow 10 (-place).toNat
  { i with
    low := i.low * up
    value := i.value * up
    high := i.high * up
    denominator := i.denominator * Nat.pow 10 place.toNat }

/-- The multiple of `10 ^ place` in the interval that is nearest to its number.
    Only the two multiples around the number can be the nearest. -/
def multiple? (i : RoundingInterval) (place : Int) : Option Nat :=
  let scaled := i.scaleDown place
  let below := scaled.value / scaled.denominator
  let nearest := roundQuotient scaled.value scaled.denominator
  let other := if nearest = below then below + 1 else below
  if scaled.contains nearest 1 then some nearest
  else if scaled.contains other 1 then some other
  else none

/-- A bound on the number of digits before the point; not positive for numbers below one. -/
def magnitude (i : RoundingInterval) : Int :=
  let whole := i.value / i.denominator
  if whole = 0 then 2 - ((wholeDigits (i.denominator / i.value)).length : Int)
  else (wholeDigits whole).length

/-- The first place from `place` downwards that has a multiple in the interval;
    `steps` places are tried. -/
def firstMultiple (i : RoundingInterval) (place : Int) : Nat → Decimal
  | 0 => ⟨0, place⟩
  | steps + 1 =>
    match i.multiple? place with
    | some digits => ⟨digits, place⟩
    | none => firstMultiple i (place - 1) steps

end RoundingInterval

/-- Decimal digits that tell any two doubles apart, and one place to spare. -/
def shortestSteps : Nat := 19

/-- The decimal of fewest digits that rounds to a positive double. -/
def Scaled.shortest (s : Scaled) : Decimal :=
  let interval := RoundingInterval.ofScaled s
  interval.firstMultiple interval.magnitude shortestSteps

end ExprTree

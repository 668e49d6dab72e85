import ExprTree.Number.Binary

namespace ExprTree

/-!
# Numbers

The numbers that expressions compute with are doubles:

* sums, differences, products and the sign change are those of the format;
* `Number.checkedDiv` and `Number.checkedRem` refuse a divisor that is zero up
  to `Number.epsilon`;
* `Number.compare` orders two numbers unless one of them is NaN;
* `Number.isInt` holds of the finite numbers less than `Number.epsilon` above an
  integer in magnitude.
-/

/-- A number: a double. -/
structure Number where
  value : Float

namespace Number

/-- Distance from one to the next double, `2 ^ -52`. -/
def epsilon : Float := Float.ofBits 0x3CB0000000000000

/-- The number that is no number. -/
def nan : Number := ⟨Float.ofBits 0x7FF8000000000000⟩

/-- Two numbers are equal when the format says so: zeros of either sign are
    equal, NaN equals nothing. -/
protected def beq (a b : Number) : Bool := a.value == b.value

instance : BEq Number := ⟨Number.beq⟩

/-- The double nearest to an integer. -/
def ofInt (n : Int) : Number := ⟨Float.ofInt n⟩

instance : Neg Number := ⟨fun a => ⟨-a.value⟩⟩
instance : Add Number := ⟨fun a b => ⟨a.value + b.value⟩⟩
instance : Sub Number := ⟨fun a b => ⟨a.value - b.value⟩⟩
instance : Mul Number := ⟨fun a b => ⟨a.value * b.value⟩⟩

/-- Zero, or so close to it that division refuses it. -/
def isZero (a : Number) : Bool := a.value.abs < epsilon

/-- A finite number whose distance to the next integer towards zero is below `epsilon`. -/
def isInt (a : Number) : Bool :=
  match Scaled.ofFloat? a.value with
  | none => false
  | some s => s.fractionPart * Nat.pow 2 52 < s.denominator

/-- Quotient, unless the divisor is zero. -/
def checkedDiv (a b : Number) : Option Number :=
  if b.isZero then none else some ⟨a.value / b.value⟩

/-- What is left of `a` after taking away `b` as often as it fits into it.  Both
    are brought to one power of two, so the result is exact; it has the sign of
    `a`. -/
def remainder (a b : Number) : Number :=
  match Scaled.ofFloat? a.value, Scaled.ofFloat? b.value with
  | some s, some t =>
    if t.significand = 0 then nan
    else
      let place := min s.exponent t.exponent
      let dividend := s.significand * Nat.pow 2 (s.exponent - place).toNat
      let divisor := t.significand * Nat.pow 2 (t.exponent - place).toNat
      ⟨Scaled.toFloat ⟨s.negative, dividend % divisor, place⟩⟩
  | some _, none => if b.value.isNaN then nan else a
  | none, _ => nan

/-- Remainder, unless the divisor is zero. -/
def checkedRem (a b : Number) : Option Number :=
  if b.isZero then none else some (a.remainder b)

/-- The order of two numbers; none when one of them is NaN. -/
protected def compare (a b : Number) : Option Ordering :=
  if a.value < b.value then some .lt
  else if a.value == b.value then some .eq
  else if b.value < a.value then some .gt
  else none

end Number

end ExprTree

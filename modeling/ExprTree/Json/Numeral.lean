import ExprTree.Json.Basic

namespace ExprTree

/-!
# The value of a numeral

A `Numeral` is a number of a JSON text, cut into its parts.  A numeral without
point and exponent is an integer where 64 bits hold it.  The value of any other
one is a double, and comes about in two roundings:

* of its digits the leading ones are kept, as many as make a natural of 64 bits;
  this natural is rounded to a double;
* that double is multiplied or divided by the power of ten that is left, and the
  result is rounded again.

So it is the nearest double where the kept digits and the power of ten are
doubles themselves, and otherwise it may miss the nearest one by a little.
-/

/-- A number as it is written: its sign, its digits before and after the point, and its exponent. -/
structure Numeral where
  negative : Bool
  whole : List Char
  fraction : Option (List Char)
  exponent : Option Int

/-! ### Digits -/

/-- The value of a decimal digit. -/
def digitValue (c : Char) : Nat := c.toNat - '0'.toNat

/-- A natural number from its digits. -/
def digitsValue (digits : List Char) : Nat :=
  digits.foldl (fun n c => 10 * n + digitValue c) 0

/-- The naturals of 64 bits are those below this one. -/
def wordLimit : Nat := Nat.pow 2 64

/-- Writes digits behind those of `n` up to the first one with which 64 bits no
    longer hold the natural; that one and the digits after it are left. -/
def appendDigits (n : Nat) : List Char → Nat × List Char
  | [] => (n, [])
  | c :: cs =>
    if 10 * n + digitValue c < wordLimit then appendDigits (10 * n + digitValue c) cs
    else (n, c :: cs)

/-! ### Powers of ten -/

/-- The greatest power of ten in the range of doubles. -/
def topPower : Nat := 308

/-- The double nearest to a power of ten. -/
def powerOfTen (power : Nat) : Float := Float.ofScientific 1 false power

/-- Divides by a power of ten.  One that is out of range takes several steps, which
    end early where nothing is left to divide. -/
def divideByPower (x : Float) (power : Nat) : Float :=
  if topPower < power then
    if x == 0 then x else divideByPower (x / powerOfTen topPower) (power - topPower)
  else x / powerOfTen power
termination_by power
decreasing_by unfold topPower at *; omega

/-- Multiplies by a power of ten, unless the product is out of range. -/
def multiplyByPower? (x : Float) (power : Nat) : Option Float :=
  if x == 0 then some x
  else if topPower < power then none
  else
    let product := x * powerOfTen power
    if product.isFinite then some product else none

/-! ### Values -/

namespace Numeral

/-- The digits that are kept, as a natural, and the power of ten they are to be
    multiplied by.  Each whole digit that is dropped counts as a zero. -/
def kept (n : Numeral) : Nat × Int :=
  let decimals := n.fraction.getD []
  let (whole, dropped) := appendDigits 0 n.whole
  let (significand, ignored) := appendDigits whole decimals
  (significand, n.exponent.getD 0 + dropped.length - (decimals.length - ignored.length : Nat))

/-- A numeral that is written as an integer and of which no digit is dropped. -/
def isWhole (n : Numeral) : Bool :=
  n.fraction.isNone && n.exponent.isNone && n.kept.2 == 0

/-- The integer of 64 bits, signed or unsigned, that is written.  Minus zero is
    none, integers have no such thing. -/
def integer? (n : Numeral) : Option Int :=
  if !n.isWhole then none
  else if !n.negative then some n.kept.1
  else if n.kept.1 = 0 ∨ Nat.pow 2 63 < n.kept.1 then none
  else some (-(n.kept.1 : Int))

/-- The double that is written, if it is in range. -/
def double? (n : Numeral) : Option Float :=
  let (significand, power) := n.kept
  let magnitude :=
    if power < 0 then some (divideByPower (Float.ofNat significand) power.natAbs)
    else multiplyByPower? (Float.ofNat significand) power.natAbs
  magnitude.map fun x => if n.negative then -x else x

/-- The value of a numeral. -/
def value? (n : Numeral) : Option JsonNumber :=
  match n.integer? with
  | some i => some (.integer i)
  | none => n.double?.map .double

end Numeral

end ExprTree

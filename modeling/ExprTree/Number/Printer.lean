import ExprTree.Number.Basic
import ExprTree.Number.Rounding

namespace ExprTree

/-!
# The text of a number

`Number.text` writes

* an integer without a point, limited to the range of 64-bit words;
* any other finite number to six decimals, without zeros at the end;
* the infinities and NaN as `inf`, `-inf` and `NaN`.
-/

namespace Number

/-- The least integer that `text` writes. -/
def leastWord : Int := -(Nat.pow 2 63 : Nat)

/-- The greatest integer that `text` writes. -/
def greatestWord : Int := (Nat.pow 2 63 : Nat) - 1

/-- Decimals kept of a number that is no integer. -/
def decimals : Nat := 6

/-- The integer part, towards zero, limited to 64-bit words. -/
def truncated (s : Scaled) : Int :=
  let whole : Int := if s.negative then -(s.wholePart : Int) else s.wholePart
  max leastWord (min greatestWord whole)

/-- A natural number of millionths as a decimal, without zeros at the end and
    without a point that nothing follows. -/
def decimalDigits (scaled : Nat) : List Char :=
  let fraction := (paddedDigits decimals scaled).reverse.dropWhile (· == '0')
  let whole := wholeDigits (scaled / Nat.pow 10 decimals)
  if fraction.isEmpty then whole else whole ++ '.' :: fraction.reverse

/-- The decimal nearest to a finite number.  The sign is that of the number,
    also where the digits round to zero. -/
def decimalText (s : Scaled) : String :=
  let digits := decimalDigits (roundQuotient (s.numerator * Nat.pow 10 decimals) s.denominator)
  String.ofList (if s.negative then '-' :: digits else digits)

/-- How a number is written. -/
def text (a : Number) : String :=
  match Scaled.ofFloat? a.value with
  | some s => if a.isInt then toString (truncated s) else decimalText s
  | none => if a.value.isNaN then "NaN" else if a.value < 0 then "-inf" else "inf"

instance : ToString Number := ⟨text⟩

end Number

end ExprTree

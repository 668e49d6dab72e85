namespace ExprTree

/-!
# Rounding a quotient

`roundQuotient` rounds a quotient of naturals to the nearest natural and sends
a half to the even neighbour; `wholeDigits` and `paddedDigits` write naturals
in base ten.
-/

/-- The natural nearest to `num / den`, a half going to the even neighbour. -/
def roundQuotient (num den : Nat) : Nat :=
  let quotient := num / den
  let remainder := num % den
  if 2 * remainder < den then quotient
  else if den < 2 * remainder then quotient + 1
  else if quotient % 2 = 0 then quotient
  else quotient + 1

/-- The decimal digits of a natural, without leading zeros. -/
def wholeDigits (n : Nat) : List Char :=
  Nat.toDigits 10 n

/-- The last `width` decimal digits of a natural, zeros included. -/
def paddedDigits (width n : Nat) : List Char :=
  (List.range width).foldl
    (fun digits place => Nat.digitChar (n / Nat.pow 10 place % 10) :: digits) []

end ExprTree

import ExprTree.Expr.Basic

namespace ExprTree

/-!
# Free parameters

The parameters that a lambda uses without declaring them, in the order of their
first use and each once.  What a nested lambda declares is not free in it, but
what it uses from further out is.  An extension node counts as its reduction if
it has one, and otherwise as its operands.
-/

variable {κ : Type}

mutual

/-- Adds to `found` the parameters that a tree uses and that neither `bound` nor
    a lambda inside the tree declares. -/
def Expr.freeParameters (bound found : List Parameter) : Expr κ → List Parameter
  | .constant _ => found
  | .parameter param =>
    if param ∈ bound ∨ param ∈ found then found else found ++ [param]
  | .new _ args => Expr.freeParametersOfAll bound found args
  | .field target _ => target.freeParameters bound found
  | .unary _ operand => operand.freeParameters bound found
  | .binary _ left right => right.freeParameters bound (left.freeParameters bound found)
  | .conditional test yes no =>
    no.freeParameters bound (yes.freeParameters bound (test.freeParameters bound found))
  | .lambda params body => body.freeParameters (params ++ bound) found
  | .invoke target args =>
    Expr.freeParametersOfAll bound (target.freeParameters bound found) args
  | .extension _ _ (some reduced) => reduced.freeParameters bound found
  | .extension _ operands none => Expr.freeParametersOfAll bound found operands

/-- Adds the free parameters of several trees, from left to right. -/
def Expr.freeParametersOfAll (bound found : List Parameter) :
    List (Expr κ) → List Parameter
  | [] => found
  | expr :: rest => Expr.freeParametersOfAll bound (expr.freeParameters bound found) rest

end

/-- The parameters that a lambda uses but does not declare, in first-use order. -/
def Lambda.freeParameters (lambda : Lambda κ) : List Parameter :=
  lambda.body.freeParameters lambda.params []

end ExprTree

import ExprTree.Expr.Basic

namespace ExprTree

/-!
# Constants of a tree

The distinct constants anywhere in a tree, bodies of nested lambdas included, in
the order of their first occurrence.  Constants are distinct by `==`, so one
that does not equal itself is listed as often as it occurs.  An extension node
counts as its reduction if it has one, and otherwise as its operands.
-/

variable {κ : Type} [BEq κ]

mutual

/-- Adds to `found` the constants of a tree that are not in it yet. -/
def Expr.constants (found : List κ) : Expr κ → List κ
  | .constant value => if found.contains value then found else found ++ [value]
  | .parameter _ => found
  | .new _ args => Expr.constantsOfAll found args
  | .field target _ => target.constants found
  | .unary _ operand => operand.constants found
  | .binary _ left right => right.constants (left.constants found)
  | .conditional test yes no => no.constants (yes.constants (test.constants found))
  | .lambda _ body => body.constants found
  | .invoke target args => Expr.constantsOfAll (target.constants found) args
  | .extension _ _ (some reduced) => reduced.constants found
  | .extension _ operands none => Expr.constantsOfAll found operands

/-- Adds the constants of several trees, from left to right. -/
def Expr.constantsOfAll (found : List κ) : List (Expr κ) → List κ
  | [] => found
  | expr :: rest => Expr.constantsOfAll (expr.constants found) rest

end

/-- The distinct constants of a lambda, in first-occurrence order. -/
def Lambda.constants (lambda : Lambda κ) : List κ :=
  lambda.body.constants []

end ExprTree

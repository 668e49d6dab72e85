import ExprTree.Value.Operations

namespace ExprTree

/-!
# Constant folding

Which operations compilation can do at once.  Only operators over primitive
constants are folded, and only to a primitive: an operation that would fail is
left in the code to fail when it runs.

Each function takes what is known about the operands, if anything is.
-/

/-- The primitive that an operation gives. -/
def foldResult? (result : Except RuntimeError Value) : Option Value :=
  match result with
  | .ok value => if value.isPrimitive then some value else none
  | .error _ => none

/-- A unary operator on a known operand. -/
def UnaryOp.fold? (op : UnaryOp) : Option Value → Option Value
  | some operand => foldResult? (op.apply operand)
  | none => none

/-- A binary operator on known operands.  A short circuit is settled by its left
    operand alone if that decides it. -/
def BinaryOp.fold? (op : BinaryOp) : Option Value → Option Value → Option Value
  | some left, right =>
    match op, left with
    | .and, .bool false => some (.bool false)
    | .or, .bool true => some (.bool true)
    | op, left =>
      match right with
      | some right => foldResult? (op.apply left right)
      | none => none
  | none, _ => none

/-- The branch that a conditional with a known test takes. -/
def foldTest? : Option Value → Option Bool
  | some (.bool taken) => some taken
  | _ => none

end ExprTree

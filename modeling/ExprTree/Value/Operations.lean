import ExprTree.Error.Runtime
import ExprTree.Value.Basic

namespace ExprTree

/-!
# Operations on values

What operators and field accesses do to evaluated operands, the same for the
tree walk, for compiled code and for constant folding:

* `UnaryOp.apply`, `BinaryOp.apply` — the operators;
* `Value.test` — a bool where one is required;
* `Value.field`, `Value.fieldAt` — field access by name and by position.
-/

/-- The error of an operation on operands that it does not take. -/
def RuntimeError.ofOperands (name : String) (operands : List Value) : RuntimeError :=
  .invalidTypes name (operands.map (·.typeName))

/-- Applies a unary operator. -/
def UnaryOp.apply (op : UnaryOp) (operand : Value) : Except RuntimeError Value :=
  match op, operand with
  | .negate, .number n => .ok (.number (-n))
  | .not, .bool b => .ok (.bool (!b))
  | _, _ => .error (.ofOperands op.symbol [operand])

namespace BinaryOp

/-- Number-only arithmetic. -/
def arithmetic (op : BinaryOp) (a b : Number) : Except RuntimeError Number :=
  let checked (result : Option Number) : Except RuntimeError Number :=
    match result with
    | some n => .ok n
    | none => .error .zeroDivision
  match op with
  | .add => .ok (a + b)
  | .sub => .ok (a - b)
  | .mul => .ok (a * b)
  | .div => checked (a.checkedDiv b)
  | .rem => checked (a.checkedRem b)
  | _ => .error (.ofOperands op.symbol [.number a, .number b])

/-- Whether an order is the one an operator asks for; where there is no order,
    no comparison holds. -/
def holds (op : BinaryOp) (order : Option Ordering) : Bool :=
  match op, order with
  | .lt, some order => order.isLT
  | .le, some order => order.isLE
  | .gt, some order => order.isGT
  | .ge, some order => order.isGE
  | _, _ => false

/-- Applies a binary operator to two evaluated operands.  The short circuits are
    here for constant folding; evaluation settles them before. -/
def apply (op : BinaryOp) (left right : Value) : Except RuntimeError Value :=
  let mismatch : Except RuntimeError Value := .error (.ofOperands op.symbol [left, right])
  match op with
  | .eq => .ok (.bool (left == right))
  | .ne => .ok (.bool (left != right))
  | .add =>
    match left, right with
    | .number a, .number b => .ok (.number (a + b))
    | .string a, .string b => .ok (.string (a ++ b))
    | _, _ => mismatch
  | .sub | .mul | .div | .rem =>
    match left, right with
    | .number a, .number b => (op.arithmetic a b).map .number
    | _, _ => mismatch
  | .lt | .le | .gt | .ge =>
    match left, right with
    | .number a, .number b => .ok (.bool (op.holds (a.compare b)))
    | .string a, .string b => .ok (.bool (op.holds (some (compare a b))))
    | _, _ => mismatch
  | .and =>
    match left, right with
    | .bool a, .bool b => .ok (.bool (a && b))
    | _, _ => mismatch
  | .or =>
    match left, right with
    | .bool a, .bool b => .ok (.bool (a || b))
    | _, _ => mismatch

end BinaryOp

namespace Value

/-- The bool that `name` requires. -/
def test (name : String) : Value → Except RuntimeError Bool
  | bool b => .ok b
  | value => .error (.ofOperands name [value])

/-- Field access by name. -/
def field (target : Value) (name : String) : Except RuntimeError Value :=
  match target with
  | object _ cls fields =>
    match fieldOf? cls fields name with
    | some value => .ok value
    | .none => .error (.unknownField cls.name name)
  | none => .error (.nullReference name)
  | value => .error (.ofOperands ("." ++ name) [value])

/-- Field access by position, for a target of the expected class; a target
    without that position is read by name. -/
def fieldAt (target : Value) (index : Nat) (name : String) : Except RuntimeError Value :=
  match target with
  | object _ _ fields =>
    match fields[index]? with
    | some value => .ok value
    | .none => target.field name
  | value => value.field name

end Value

end ExprTree

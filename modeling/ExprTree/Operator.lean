namespace ExprTree

/-!
# Operators

The unary and binary operators of expressions, with their names in documents
and their symbols in printed trees and messages.  `&&` and `||` are the short
circuits: they may leave their right operand unevaluated.
-/

/-- An operator on one operand. -/
inductive UnaryOp where
  | negate
  | not
  deriving DecidableEq, Repr

/-- An operator on two operands. -/
inductive BinaryOp where
  | add
  | sub
  | mul
  | div
  | rem
  | eq
  | ne
  | lt
  | le
  | gt
  | ge
  | and
  | or
  deriving DecidableEq, Repr

namespace UnaryOp

/-- Every unary operator. -/
def all : List UnaryOp := [.negate, .not]

/-- The operator's name in documents. -/
def name : UnaryOp → String
  | .negate => "negate"
  | .not => "not"

/-- The operator in printed trees and messages. -/
def symbol : UnaryOp → String
  | .negate => "-"
  | .not => "!"

/-- The operator of a name. -/
def ofName? (name : String) : Option UnaryOp :=
  all.find? fun op => op.name == name

theorem ofName?_name (op : UnaryOp) : ofName? op.name = some op := by
  cases op <;> decide

end UnaryOp

namespace BinaryOp

/-- Every binary operator. -/
def all : List BinaryOp :=
  [.add, .sub, .mul, .div, .rem, .eq, .ne, .lt, .le, .gt, .ge, .and, .or]

/-- The operator's name in documents. -/
def name : BinaryOp → String
  | .add => "add"
  | .sub => "sub"
  | .mul => "mul"
  | .div => "div"
  | .rem => "rem"
  | .eq => "eq"
  | .ne => "ne"
  | .lt => "lt"
  | .le => "le"
  | .gt => "gt"
  | .ge => "ge"
  | .and => "and"
  | .or => "or"

/-- The operator in printed trees and messages. -/
def symbol : BinaryOp → String
  | .add => "+"
  | .sub => "-"
  | .mul => "*"
  | .div => "/"
  | .rem => "%"
  | .eq => "=="
  | .ne => "!="
  | .lt => "<"
  | .le => "<="
  | .gt => ">"
  | .ge => ">="
  | .and => "&&"
  | .or => "||"

/-- The operator of a name. -/
def ofName? (name : String) : Option BinaryOp :=
  all.find? fun op => op.name == name

theorem ofName?_name (op : BinaryOp) : ofName? op.name = some op := by
  cases op <;> decide

/-- The operators that evaluate their right operand only when the left one does
    not settle the result. -/
def isShortCircuit : BinaryOp → Bool
  | .and | .or => true
  | _ => false

/-- The operators on numbers that give a number. -/
def isArithmetic : BinaryOp → Bool
  | .add | .sub | .mul | .div | .rem => true
  | _ => false

/-- The left operand that settles the result of a short circuit; the result is that operand. -/
def settledBy : BinaryOp → Bool → Bool
  | .and, left => !left
  | .or, left => left
  | _, _ => false

end BinaryOp

end ExprTree

import ExprTree.Operator
import ExprTree.Parameter

namespace ExprTree

/-!
# Compiled code

Code is what a tree becomes once every parameter has a place:

* `Slot` — where a call finds a parameter: among its arguments or among the
  values its closure captured;
* `Capture` — a value that a closure takes along when it is created, and where
  the creating call finds it;
* `Code` — the nodes, over a type `κ` of constants.  Some nodes come in two
  forms, a checked one and one that relies on what is known statically.
-/

/-- Where a call finds a parameter. -/
inductive Slot where
  | argument (index : Nat)
  | captured (index : Nat)
  deriving DecidableEq, Repr

/-- A captured parameter: its position among the captures of the closure, its
    name, and its slot in the call that creates the closure. -/
structure Capture where
  index : Nat
  name : String
  source : Slot
  deriving DecidableEq, Repr

/-- Compiled code.

* `literal` and `embedded` hold a constant in place, the first one a primitive;
  `pooled` reads it from the constants shared by the whole function.
* `construct` builds an object without checking its arguments, `instantiate`
  checks them.
* `fieldAt` reads a field by its position in the class that is expected.
* `arithmetic` expects two numbers. -/
inductive Code (κ : Type) where
  | literal (value : κ)
  | embedded (value : κ)
  | pooled (index : Nat)
  | slot (slot : Slot)
  | construct (cls : ClassDef) (args : List (Code κ))
  | instantiate (cls : ClassDef) (args : List (Code κ))
  | fieldAt (target : Code κ) (index : Nat) (name : String)
  | field (target : Code κ) (name : String)
  | unary (op : UnaryOp) (operand : Code κ)
  | shortCircuit (op : BinaryOp) (left right : Code κ)
  | arithmetic (op : BinaryOp) (left right : Code κ)
  | binary (op : BinaryOp) (left right : Code κ)
  | conditional (test yes no : Code κ)
  | closure (params : List Parameter) (captures : List Capture) (body : Code κ)
  | invoke (target : Code κ) (args : List (Code κ))

end ExprTree

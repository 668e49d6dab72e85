import ExprTree.Operator
import ExprTree.Parameter

namespace ExprTree

/-!
# Expression trees

Trees over a type `κ` of constants:

* `Expr` — the nodes: constants, parameters, constructor calls, field accesses,
  operators, conditionals, lambdas, invocations and extension nodes;
* `ExtensionNode` — a node that a function of the host (`HostFunction`) computes;
* `Lambda` — parameters and a body, the unit that is compiled and called;
* `Expr.children` — the direct operands in evaluation order.
-/

/-- A function of the host, over a type `κ` of values: its name, and the values that it
    took along when it was made. -/
structure HostFunction (κ : Type) where
  name : String
  captured : List κ := []

/-- A name stands for a function that took nothing along. -/
instance {κ : Type} : Coe String (HostFunction κ) := ⟨fun name => ⟨name, []⟩⟩

/-- A node defined by the host: `host` is called on its evaluated operands, and its
    result has the type `ty`. -/
structure ExtensionNode (κ : Type) where
  name : String
  ty : Ty
  host : HostFunction κ

/-- An expression tree.  An extension node may come with a reduction, a tree of
    other nodes that computes the same. -/
inductive Expr (κ : Type) where
  | constant (value : κ)
  | parameter (param : Parameter)
  | new (cls : ClassDef) (args : List (Expr κ))
  | field (target : Expr κ) (name : String)
  | unary (op : UnaryOp) (operand : Expr κ)
  | binary (op : BinaryOp) (left right : Expr κ)
  | conditional (test yes no : Expr κ)
  | lambda (params : List Parameter) (body : Expr κ)
  | invoke (target : Expr κ) (args : List (Expr κ))
  | extension (node : ExtensionNode κ) (operands : List (Expr κ)) (reduction : Option (Expr κ))

/-- Parameters and a body. -/
structure Lambda (κ : Type) where
  params : List Parameter
  body : Expr κ

variable {κ : Type}

/-- The number of arguments that a lambda takes. -/
def Lambda.arity (lambda : Lambda κ) : Nat := lambda.params.length

/-- A lambda as a node of a larger tree. -/
def Lambda.toExpr (lambda : Lambda κ) : Expr κ := .lambda lambda.params lambda.body

namespace Expr

/-- The direct operands, in evaluation order.  The body of a lambda is not among
    them: it is evaluated later, in a call. -/
def children : Expr κ → List (Expr κ)
  | constant _ | parameter _ | lambda _ _ => []
  | new _ args => args
  | field target _ => [target]
  | unary _ operand => [operand]
  | binary _ left right => [left, right]
  | conditional test yes no => [test, yes, no]
  | invoke target args => target :: args
  | extension _ operands _ => operands

/-- A tree under `n` more nodes of one kind. -/
def nest (n : Nat) (wrap : Expr κ → Expr κ) (expr : Expr κ) : Expr κ :=
  n.repeat wrap expr

end Expr

end ExprTree

import ExprTree.Code.Basic
import ExprTree.Error.Compile
import ExprTree.Expr.FreeParameters

namespace ExprTree

/-!
# Scopes

While the body of a lambda is compiled, its `Scope` says where each parameter
is: among the arguments of the call, or among the values that the closure
captured.  The captures are the free parameters of the lambda, resolved once, in
the scope of the lambda around it:

* `Scope.root` — the outermost lambda, which cannot capture anything;
* `Scope.nested` — a lambda inside another one.
-/

/-- The places of the parameters inside one lambda. -/
structure Scope where
  params : List Parameter
  captures : List (Parameter × Capture)

/-- The position of the last occurrence. -/
def lastIndexOf? {α : Type} [DecidableEq α] (a : α) : List α → Option Nat
  | [] => none
  | b :: rest =>
    match lastIndexOf? a rest with
    | some index => some (index + 1)
    | none => if b = a then some 0 else none

namespace Scope

variable {κ : Type}

/-- The slot of a parameter.  Of a parameter that is declared twice the later argument counts. -/
def resolve? (scope : Scope) (param : Parameter) : Option Slot :=
  match lastIndexOf? param scope.params with
  | some index => some (.argument index)
  | none => (lastIndexOf? param (scope.captures.map (·.1))).map .captured

/-- The captures of the lambda, in order. -/
def captureList (scope : Scope) : List Capture := scope.captures.map (·.2)

/-- The scope of the outermost lambda: everything it uses must be its own. -/
def root (lambda : Lambda κ) : Except CompileError Scope :=
  match lambda.freeParameters with
  | [] => .ok ⟨lambda.params, []⟩
  | param :: _ => .error (.unboundParameter param.name)

/-- Finds parameters in the scope around a lambda; the first one becomes the
    capture at position `index`. -/
def captureFrom (parent : Scope) (index : Nat) :
    List Parameter → Except CompileError (List (Parameter × Capture))
  | [] => .ok []
  | param :: rest =>
    match parent.resolve? param with
    | none => .error (.unboundParameter param.name)
    | some source => do
      let captures ← captureFrom parent (index + 1) rest
      return (param, ⟨index, param.name, source⟩) :: captures

/-- The scope of a lambda inside another one. -/
def nested (lambda : Lambda κ) (parent : Scope) : Except CompileError Scope := do
  let captures ← captureFrom parent 0 lambda.freeParameters
  return ⟨lambda.params, captures⟩

end Scope

end ExprTree

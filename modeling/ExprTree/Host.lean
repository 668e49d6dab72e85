import ExprTree.Run.Evaluator

namespace ExprTree

/-!
# A standard host

Functions of the host by name: `sum`, `first` and `count`.  Every other name is
a function that always fails, with the name as its message.
-/

namespace Hosts

/-- Adds numbers to a running total, from left to right. -/
def sumFrom (total : Number) : List Value → Except RuntimeError Value
  | [] => .ok (.number total)
  | .number n :: rest => sumFrom (total + n) rest
  | other :: _ => .error (.host ("sum got " ++ other.typeName))

/-- What the standard host answers. -/
def answer (name : String) (args : List Value) : Except RuntimeError Value :=
  match name with
  | "sum" => sumFrom ⟨0⟩ args
  | "first" => .ok (args.head?.getD .none)
  | "count" => .ok (.number (.ofInt args.length))
  | message => .error (.host message)

/-- The standard host.  Its functions capture nothing and take no ids. -/
def standard : Hosts := fun host args supply => (answer host.name args, supply)

end Hosts

end ExprTree

import ExprTree.CallStack
import ExprTree.Expr.Typing

namespace ExprTree

/-!
# Compiler options

What can be chosen about a compilation, and the two strategies.
-/

/-- What can be chosen about a compilation.

* `hoistConstants` — constants other than primitives go to one table, shared by
  all closures of the function, instead of into the code;
* `foldConstants` — operators over primitive constants are evaluated at once;
* `maxCallDepth` — how many calls may be nested when the function runs;
* `maxTreeDepth` — how many nodes may be nested in the tree. -/
structure CompilerOptions where
  hoistConstants : Bool := true
  foldConstants : Bool := true
  maxCallDepth : Nat := CallStack.defaultLimit
  maxTreeDepth : Nat := defaultTreeDepth
  deriving DecidableEq, Repr

/-- How a function runs: by walking its tree, or as compiled code. -/
inductive Strategy where
  | baseline
  | fast
  deriving DecidableEq, Repr

namespace Strategy

/-- The name of a strategy. -/
def name : Strategy → String
  | baseline => "baseline"
  | fast => "fast"

/-- The strategy of a name. -/
def ofName? : String → Option Strategy
  | "baseline" => some .baseline
  | "fast" => some .fast
  | _ => none

end Strategy

end ExprTree

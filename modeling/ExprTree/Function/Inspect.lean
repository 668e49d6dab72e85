import ExprTree.Function
import ExprTree.Value.Printer

namespace ExprTree

/-!
# Compiled functions spelled out

A listing of everything that a function is made of, field by field.  There is
none for compiled code.
-/

/-- A record with its fields spelled out. -/
def recordText (name : String) (fields : List (String × String)) : String :=
  let field (entry : String × String) : String := entry.1 ++ ": " ++ entry.2
  name ++ " \x7b " ++ ", ".intercalate (fields.map field) ++ " \x7d"

/-- A truth value. -/
def truthText (b : Bool) : String := if b then "true" else "false"

/-- What a function runs, spelled out. -/
def Callable.inspect? : Callable Value → Option String
  | .interpreted params body env =>
    some (recordText "InterpretedClosure"
      [("lambda", Text.quote (Lambda.display ⟨params, body⟩)),
        ("captures_env", truthText (!env.isEmpty))])
  | .native name arity _ =>
    some (recordText "NativeFunction" [("name", Text.quote name), ("arity", toString arity)])
  | .compiled .. => none

/-- The name of a strategy in listings. -/
def Strategy.title : Strategy → String
  | .baseline => "Baseline"
  | .fast => "Fast"

/-- A function without a plan, spelled out. -/
def CompiledFn.inspect? (fn : CompiledFn) : Option String :=
  match fn.plan?, fn.callable.inspect? with
  | none, some callable =>
    some (recordText "CompiledFn"
      [("callable", callable), ("strategy", fn.strategy.title),
        ("max_call_depth", toString fn.maxCallDepth), ("plan", "None")])
  | _, _ => none

end ExprTree

namespace ExprTree

/-!
# Errors of compilation

Why a tree is rejected.  Both strategies report the same errors for a tree,
except `notSupported`, which only the fast one raises.
-/

/-- Why a tree is rejected. -/
inductive CompileError where
  | unboundParameter (name : String)
  | duplicateParameter (name : String)
  | argumentCount (name : String) (expected got : Nat)
  | typeMismatch (context expected got : String)
  | unknownField (cls field : String)
  | notSupported (what : String)
  | tooDeep (limit : Nat)
  deriving DecidableEq, Repr

namespace CompileError

/-- The kind of an error, as it appears in error codes. -/
def kind : CompileError → String
  | unboundParameter _ => "UnboundParameter"
  | duplicateParameter _ => "DuplicateParameter"
  | argumentCount .. => "ArgumentCount"
  | typeMismatch .. => "TypeMismatch"
  | unknownField .. => "UnknownField"
  | notSupported _ => "NotSupported"
  | tooDeep _ => "TooDeep"

/-- What an error says. -/
def message : CompileError → String
  | unboundParameter name => s!"Parameter \"{name}\" is not bound by an enclosing lambda"
  | duplicateParameter name => s!"Parameter \"{name}\" is declared more than once"
  | argumentCount name expected got =>
    s!"Invalid number of arguments in \"{name}\", expected {expected}, got {got}"
  | typeMismatch context expected got =>
    s!"Type mismatch in \"{context}\", expected {expected}, got {got}"
  | unknownField cls field => s!"\"{cls}\" has no field \"{field}\""
  | notSupported what => s!"\"{what}\" is not supported by the fast compiler"
  | tooDeep limit => s!"Expression tree is nested deeper than {limit} levels"

end CompileError

end ExprTree

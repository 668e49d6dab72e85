import ExprTree.Error.Compile
import ExprTree.Error.Document
import ExprTree.Error.Runtime

namespace ExprTree

/-!
# Errors

An `Error` is an error of one of the three stages: a document, a compilation or
an invocation.  It has a code, a message and, for some kinds, advice.
-/

/-- An error of any stage. -/
inductive Error where
  | compile (error : CompileError)
  | runtime (error : RuntimeError)
  | document (error : DocumentError)
  deriving DecidableEq, Repr

namespace Error

/-- The stage and the kind of an error. -/
def code : Error → String
  | compile error => "CompileError::" ++ error.kind
  | runtime error => "RuntimeError::" ++ error.kind
  | document error => "DocumentError::" ++ error.kind

/-- What an error says. -/
def message? : Error → Option String
  | compile error => some error.message
  | runtime error => some error.message
  | document error => error.message?

/-- What to do about an error, where there is something to say. -/
def help? : Error → Option String
  | compile (.unboundParameter _) =>
    some "Declare the parameter on the lambda that uses it, or on an enclosing lambda"
  | compile (.notSupported _) =>
    some "Use the baseline compiler, or disable strict mode to fall back to it automatically"
  | compile (.argumentCount ..) | runtime (.arityMismatch ..) =>
    some "Check the number of arguments against the constructor or lambda parameters"
  | compile (.tooDeep _) =>
    some "Raise the maximum tree depth or split the tree into smaller lambdas"
  | runtime (.recursionLimit _) =>
    some "Raise the maximum call depth or remove the self-application"
  | document .malformed =>
    some "The document must be a JSON object with \"classes\", \"constants\" and \"lambda\""
  | _ => none

end Error

end ExprTree

namespace ExprTree

/-!
# Errors of documents

Why a text is no document, or a document cannot be loaded.
-/

/-- Why a document is refused.  `malformed` covers every text that is no JSON or
    does not have the form of a document. -/
inductive DocumentError where
  | malformed
  | unknownClass (name : String)
  | unknownType (name : String)
  | unknownConstant (name : String)
  | unknownParameter (name : String)
  | duplicateClass (name : String)
  | duplicateConstant (name : String)
  | invalidLiteral (text : String)
  deriving DecidableEq, Repr

namespace DocumentError

/-- The kind of an error, as it appears in error codes. -/
def kind : DocumentError → String
  | malformed => "Json"
  | unknownClass _ => "UnknownClass"
  | unknownType _ => "UnknownType"
  | unknownConstant _ => "UnknownConstant"
  | unknownParameter _ => "UnknownParameter"
  | duplicateClass _ => "DuplicateClass"
  | duplicateConstant _ => "DuplicateConstant"
  | invalidLiteral _ => "InvalidLiteral"

/-- What an error says; what is wrong with a malformed text is not told. -/
def message? : DocumentError → Option String
  | malformed => none
  | unknownClass name => some s!"Unknown class \"{name}\""
  | unknownType name => some s!"Unknown type \"{name}\""
  | unknownConstant name => some s!"Unknown constant \"{name}\""
  | unknownParameter name => some s!"Unknown parameter \"{name}\""
  | duplicateClass name => some s!"Class \"{name}\" is defined more than once"
  | duplicateConstant name => some s!"Constant \"{name}\" is defined more than once"
  | invalidLiteral text =>
    some s!"Invalid literal {text}, expected null, a bool, a number or a string"

end DocumentError

end ExprTree

namespace ExprTree

/-!
# Errors of an invocation

Every way in which an invocation can fail, with the message of each.
-/

/-- Why an invocation failed.  `slotOutOfRange` would mean that compiled code
    read a slot that its frame does not have. -/
inductive RuntimeError where
  | arityMismatch (name : String) (expected got : Nat)
  | argumentType (name expected got : String)
  | invalidTypes (name : String) (args : List String)
  | nullReference (field : String)
  | unknownField (cls field : String)
  | notCallable (ty : String)
  | undefinedParameter (name : String)
  | zeroDivision
  | recursionLimit (limit : Nat)
  | host (message : String)
  | slotOutOfRange (index : Nat)
  deriving DecidableEq, Repr

namespace RuntimeError

/-- The kind of an error, as it appears in error codes. -/
def kind : RuntimeError → String
  | arityMismatch .. => "ArityMismatch"
  | argumentType .. => "ArgumentType"
  | invalidTypes .. => "InvalidTypes"
  | nullReference _ => "NullReference"
  | unknownField .. => "UnknownField"
  | notCallable _ => "NotCallable"
  | undefinedParameter _ => "UndefinedParameter"
  | zeroDivision => "ZeroDivision"
  | recursionLimit _ => "RecursionError"
  | host _ => "Extension"
  | slotOutOfRange _ => "SlotOutOfRange"

/-- What an error says. -/
def message : RuntimeError → String
  | arityMismatch name expected got =>
    s!"Invalid number of arguments in \"{name}\", expected {expected}, got {got}"
  | argumentType name expected got =>
    s!"Invalid argument for \"{name}\", expected {expected}, got {got}"
  | invalidTypes name args => s!"Invalid types for \"{name}\", got " ++ ", ".intercalate args
  | nullReference field => s!"Null reference while reading field \"{field}\""
  | unknownField cls field => s!"\"{cls}\" has no field \"{field}\""
  | notCallable ty => s!"Value of type {ty} is not callable"
  | undefinedParameter name => s!"Undefined parameter \"{name}\""
  | zeroDivision => "Divided by 0"
  | recursionLimit limit => s!"Maximum recursion depth exceeded \"{limit}\""
  | host message => message
  | slotOutOfRange index => s!"Slot {index} is out of range"

end RuntimeError

end ExprTree

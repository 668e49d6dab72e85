import ExprTree.Ty.Basic

namespace ExprTree

/-!
# Parameters and their bindings

A parameter is known by its id; the name is only for display, so two parameters
of one name never stand for each other.  An environment holds the bindings of
nested calls, innermost first: `Env.lookup?` finds the value that the innermost
call binding the parameter gave it.
-/

/-- A parameter of a lambda. -/
structure Parameter where
  id : Nat
  name : String
  ty : Ty
  deriving DecidableEq

/-- The bindings of one call. -/
abbrev Frame (κ : Type) := List (Parameter × κ)

/-- The bindings of nested calls, innermost first. -/
abbrev Env (κ : Type) := List (Frame κ)

variable {κ : Type}

namespace Frame

/-- The bindings of a call: of a parameter that is listed twice the later
    argument counts, so later ones come first. -/
def bind (params : List Parameter) (args : List κ) : Frame κ :=
  (params.zip args).reverse

/-- The value of a parameter in one call. -/
def lookup? (frame : Frame κ) (param : Parameter) : Option κ :=
  (List.find? (fun binding => binding.1 == param) frame).map (·.2)

end Frame

namespace Env

/-- The value of a parameter in the innermost call that binds it. -/
def lookup? : Env κ → Parameter → Option κ
  | [], _ => none
  | frame :: outer, param => frame.lookup? param <|> lookup? outer param

/-- The parameters that each of the nested calls binds, innermost first. -/
def scopes (env : Env κ) : List (List Parameter) :=
  env.map fun frame => List.map (·.1) frame

end Env

end ExprTree

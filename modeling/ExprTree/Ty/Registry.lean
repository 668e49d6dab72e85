import ExprTree.Ty.Basic

namespace ExprTree

/-!
# Classes by name

A `ClassRegistry` holds at most one class of each name.  `define` puts a class
in and gives back the one it replaces; `resolve?` reads a type name, where the
names of the built-in types come before those of classes.
-/

/-- The classes that type names can refer to. -/
structure ClassRegistry where
  classes : List ClassDef := []

namespace ClassRegistry

/-- The class of a name. -/
def get? (registry : ClassRegistry) (name : String) : Option ClassDef :=
  registry.classes.find? fun cls => cls.name == name

/-- Puts a class in, in place of the one of its name, which is returned. -/
def define (registry : ClassRegistry) (cls : ClassDef) : Option ClassDef × ClassRegistry :=
  (registry.get? cls.name,
    ⟨cls :: registry.classes.filter fun other => other.name != cls.name⟩)

/-- The number of classes. -/
def size (registry : ClassRegistry) : Nat := registry.classes.length

/-- The type that a built-in name stands for. -/
def builtin? : String → Option Ty
  | "any" => some .any
  | "none" => some .none
  | "bool" => some .bool
  | "number" => some .number
  | "string" => some .string
  | "function" => some (.function .none)
  | _ => .none

/-- The type that a name stands for. -/
def resolve? (registry : ClassRegistry) (name : String) : Option Ty :=
  builtin? name <|> (registry.get? name).map .object

/-- A name that is left out stands for `any`. -/
def resolveOptional? (registry : ClassRegistry) : Option String → Option Ty
  | .none => some .any
  | some name => registry.resolve? name

end ClassRegistry

end ExprTree

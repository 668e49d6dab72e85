namespace ExprTree

/-!
# Static types and classes

A class has one constructor that takes every field in declaration order, and
its fields have types, so types and classes are defined together:

* `Ty` — what is known statically about a value;
* `ClassDef` — a class: its id, its name and its fields;
* `Ty.isAssignableFrom` — whether a value of one type may be stored where the
  other is expected.

Classes are told apart by their ids.  Equality here is equality of the whole
class, id first, which comes to the same as long as no two classes share an id.
-/

/-- A name with a type: a field of a class, over whatever types are. -/
structure Typed (τ : Type) where
  name : String
  ty : τ

/-- A class over whatever types are: an id, a name and the fields in order. -/
structure ClassOver (τ : Type) where
  id : Nat
  name : String
  fields : List (Typed τ)

/-- What is known statically about a value.  The arity of a function may be unknown. -/
inductive Ty where
  | any
  | none
  | bool
  | number
  | string
  | object (cls : ClassOver Ty)
  | function (arity : Option Nat)

/-- A field of a class. -/
abbrev Field := Typed Ty

/-- A class with a single constructor. -/
abbrev ClassDef := ClassOver Ty

/-! ### Equality -/

mutual

/-- Structural equality of types. -/
protected def Ty.beq : Ty → Ty → Bool
  | .any, .any | .none, .none | .bool, .bool | .number, .number | .string, .string => true
  | .object ⟨id, name, fields⟩, .object ⟨id', name', fields'⟩ =>
    id == id' && name == name' && Ty.fieldsBeq fields fields'
  | .function arity, .function arity' => arity == arity'
  | _, _ => false

/-- Structural equality of field lists. -/
protected def Ty.fieldsBeq : List (Typed Ty) → List (Typed Ty) → Bool
  | [], [] => true
  | ⟨name, ty⟩ :: rest, ⟨name', ty'⟩ :: rest' =>
    name == name' && Ty.beq ty ty' && Ty.fieldsBeq rest rest'
  | _, _ => false

end

mutual

theorem Ty.beq_eq_true_iff : ∀ a b : Ty, Ty.beq a b = true ↔ a = b
  | .object ⟨id, name, fields⟩, b => by
    cases b with
    | object cls =>
      obtain ⟨id', name', fields'⟩ := cls
      simp [Ty.beq, Ty.fieldsBeq_eq_true_iff fields fields', and_assoc]
    | _ => simp [Ty.beq]
  | .function arity, b => by cases b <;> simp [Ty.beq]
  | .any, b => by cases b <;> simp [Ty.beq]
  | .none, b => by cases b <;> simp [Ty.beq]
  | .bool, b => by cases b <;> simp [Ty.beq]
  | .number, b => by cases b <;> simp [Ty.beq]
  | .string, b => by cases b <;> simp [Ty.beq]

theorem Ty.fieldsBeq_eq_true_iff :
    ∀ fs gs : List (Typed Ty), Ty.fieldsBeq fs gs = true ↔ fs = gs
  | [], gs => by cases gs <;> simp [Ty.fieldsBeq]
  | ⟨name, ty⟩ :: rest, gs => by
    cases gs with
    | nil => simp [Ty.fieldsBeq]
    | cons g gs =>
      obtain ⟨name', ty'⟩ := g
      simp [Ty.fieldsBeq, Ty.beq_eq_true_iff ty ty', Ty.fieldsBeq_eq_true_iff rest gs]

end

/-- A class that is one object in memory is equal to itself without a walk over
    it; classes of different ids differ at once. -/
instance : DecidableEq ClassDef := fun c d =>
  withPtrEqDecEq c d fun _ =>
    decidable_of_iff (Ty.beq (.object c) (.object d) = true) (by simp [Ty.beq_eq_true_iff])

/-- Equality of types, by way of that of classes. -/
def Ty.same : Ty → Ty → Bool
  | .any, .any | .none, .none | .bool, .bool | .number, .number | .string, .string => true
  | .object c, .object d => c == d
  | .function arity, .function arity' => arity == arity'
  | _, _ => false

theorem Ty.same_eq_true_iff (a b : Ty) : Ty.same a b = true ↔ a = b := by
  cases a <;> cases b <;> simp [Ty.same]

instance : DecidableEq Ty := fun a b => decidable_of_iff _ (Ty.same_eq_true_iff a b)

deriving instance DecidableEq for Typed

namespace ClassOver

variable {τ : Type}

/-- The number of constructor arguments. -/
def arity (cls : ClassOver τ) : Nat := cls.fields.length

/-- The position of the first field of a name. -/
def fieldIndex? (cls : ClassOver τ) (name : String) : Option Nat :=
  cls.fields.findIdx? fun field => field.name == name

/-- The first field of a name, with its position. -/
def field? (cls : ClassOver τ) (name : String) : Option (Nat × Typed τ) := do
  let index ← cls.fieldIndex? name
  let field ← cls.fields[index]?
  return (index, field)

end ClassOver

namespace Ty

/-- How a type is written. -/
def text : Ty → String
  | any => "any"
  | none => "none"
  | bool => "bool"
  | number => "number"
  | string => "string"
  | object cls => cls.name
  | function (some arity) => s!"function/{arity}"
  | function .none => "function"

instance : ToString Ty := ⟨text⟩

/-- Whether a value of type `source` may be stored where `target` is expected.
    `any` goes with everything, an object slot also takes `none`, and an unknown
    arity goes with every arity. -/
def isAssignableFrom (target source : Ty) : Bool :=
  match target, source with
  | any, _ | _, any => true
  | object _, none => true
  | function a, function b => a.isNone || b.isNone || a == b
  | a, b => a == b

/-- The type of either branch of a conditional: what both are, a class where the
    other branch is `none`, and otherwise unknown. -/
def join (yes no : Ty) : Ty :=
  if yes = no then yes
  else match yes, no with
    | object cls, none | none, object cls => object cls
    | _, _ => any

end Ty

end ExprTree

import ExprTree.Code.Basic
import ExprTree.Expr.Basic
import ExprTree.Number.Basic

namespace ExprTree

/-!
# Values

What expressions compute with:

* `Value` — none, bools, numbers, strings, objects and functions.  Objects and
  functions carry the id they got when they were created;
* `Callable` — what is behind a function value: a lambda with the environment it
  was created in, compiled code with the values it captured, or a function of
  the host;
* `Value.typeOf` and `Ty.accepts` — the type of a value and the types it fits;
* `==` — equality by content for scalars and by id for objects and functions.
-/

/-- What a function value runs, over a type `κ` of values.

* An `interpreted` lambda is walked on every call, in the environment `env`.
* A `compiled` body runs on its arguments, the values that were `captured` when
  the closure was created, and the constants of the whole function.
* A `native` function is a function of the host, with the values that this captured. -/
inductive Callable (κ : Type) where
  | interpreted (params : List Parameter) (body : Expr κ) (env : List (List (Parameter × κ)))
  | compiled (params : List Parameter) (body : Code κ) (captured constants : List κ)
  | native (name : String) (arity : Nat) (host : HostFunction κ)

/-- A value.  An object holds its fields in the order of its class. -/
inductive Value where
  | none
  | bool (b : Bool)
  | number (n : Number)
  | string (s : String)
  | object (id : Nat) (cls : ClassDef) (fields : List Value)
  | function (id : Nat) (callable : Callable Value)

/-- The number of arguments that a callable takes. -/
def Callable.arity {κ : Type} : Callable κ → Nat
  | interpreted params _ _ => params.length
  | compiled params _ _ _ => params.length
  | native _ arity _ => arity

namespace Value

/-- None, bools and numbers. -/
def isPrimitive : Value → Bool
  | none | bool _ | number _ => true
  | _ => false

/-- The most precise type of a value. -/
def typeOf : Value → Ty
  | none => .none
  | bool _ => .bool
  | number _ => .number
  | string _ => .string
  | object _ cls _ => .object cls
  | function _ callable => .function (some callable.arity)

/-- The name of the type of a value. -/
def typeName (value : Value) : String := value.typeOf.text

/-- Equality: scalars by content, objects and functions by identity. -/
protected def beq : Value → Value → Bool
  | none, none => true
  | bool a, bool b => a == b
  | number a, number b => a == b
  | string a, string b => a == b
  | object a _ _, object b _ _ => a == b
  | function a _, function b _ => a == b
  | _, _ => false

instance : BEq Value := ⟨Value.beq⟩

mutual

/-- Compares the results of two computations that should agree.

    Objects whose id is below `watermark` existed before either computation and
    must be identical; later ones must be of one class, with equivalent fields.
    Functions are compared by arity only. -/
def equivalent (watermark : Nat) : Value → Value → Bool
  | object a cls fields, object b cls' fields' =>
    a == b
      || (watermark ≤ a && watermark ≤ b && cls == cls'
          && fieldsEquivalent watermark fields fields')
  | function _ f, function _ g => f.arity == g.arity
  | a, b => a == b

/-- Compares two lists of fields pairwise, as far as both go. -/
def fieldsEquivalent (watermark : Nat) : List Value → List Value → Bool
  | a :: as, b :: bs => equivalent watermark a b && fieldsEquivalent watermark as bs
  | _, _ => true

end

/-- The first field of a name of an object, if it is stored. -/
def fieldOf? (cls : ClassDef) (fields : List Value) (name : String) : Option Value := do
  let index ← cls.fieldIndex? name
  fields[index]?

end Value

/-- Whether a value may be stored where a type is expected: the counterpart of
    `Ty.isAssignableFrom` for values. -/
def Ty.accepts (ty : Ty) (value : Value) : Bool :=
  match ty, value with
  | .any, _ => true
  | .none, .none => true
  | .bool, .bool _ => true
  | .number, .number _ => true
  | .string, .string _ => true
  | .object _, .none => true
  | .object cls, .object _ cls' _ => cls' == cls
  | .function .none, .function _ _ => true
  | .function (some arity), .function _ callable => callable.arity == arity
  | _, _ => false

end ExprTree

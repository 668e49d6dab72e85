import ExprTree.Value.Basic
import ExprTree.Error.Runtime

namespace ExprTree

/-!
# Fresh ids

Objects, functions, classes and parameters get consecutive ids.  A `Supply`
holds the next id of each kind; what has an id below it exists already, so the
next object id taken at some moment is the watermark between the objects before
and after it.

* `Supply.object` — a new object;
* `ClassOver.instantiate` — the constructor of a class, which checks its
  arguments and allocates only when all of them fit.
-/

/-- The next id of each kind. -/
structure Supply where
  nextObject : Nat := 1
  nextFunction : Nat := 1
  nextClass : Nat := 1
  nextParameter : Nat := 1
  deriving DecidableEq, Repr

namespace Supply

/-- A new object, its fields taken as they are. -/
def object (supply : Supply) (cls : ClassDef) (fields : List Value) : Value × Supply :=
  (.object supply.nextObject cls fields, { supply with nextObject := supply.nextObject + 1 })

/-- A new function value. -/
def function (supply : Supply) (callable : Callable Value) : Value × Supply :=
  (.function supply.nextFunction callable,
    { supply with nextFunction := supply.nextFunction + 1 })

/-- A new class. -/
def newClass (supply : Supply) (name : String) (fields : List Field) : ClassDef × Supply :=
  (⟨supply.nextClass, name, fields⟩, { supply with nextClass := supply.nextClass + 1 })

/-- A new parameter. -/
def parameter (supply : Supply) (name : String) (ty : Ty) : Parameter × Supply :=
  (⟨supply.nextParameter, name, ty⟩, { supply with nextParameter := supply.nextParameter + 1 })

end Supply

/-- The first place of a list of typed places that does not take its value. -/
def firstMisfit? {τ : Type} (typeOf : τ → Ty) : List τ → List Value → Option (τ × Value)
  | place :: places, value :: values =>
    if (typeOf place).accepts value then firstMisfit? typeOf places values
    else some (place, value)
  | _, _ => none

/-- Whether the arguments of a constructor call fit the fields of the class. -/
def ClassOver.checkArguments (cls : ClassDef) (args : List Value) : Except RuntimeError Unit :=
  if args.length ≠ cls.arity then .error (.arityMismatch cls.name cls.arity args.length)
  else match firstMisfit? Typed.ty cls.fields args with
    | some (field, value) =>
      .error (.argumentType (cls.name ++ "." ++ field.name) field.ty.text value.typeName)
    | none => .ok ()

/-- The constructor of a class. -/
def ClassOver.instantiate (cls : ClassDef) (args : List Value) (supply : Supply) :
    Except RuntimeError Value × Supply :=
  match cls.checkArguments args with
  | .error error => (.error error, supply)
  | .ok () => let (object, supply) := supply.object cls args; (.ok object, supply)

/-- Whether the arguments of a call fit the parameters. -/
def checkParameters (params : List Parameter) (args : List Value) : Except RuntimeError Unit :=
  if params.length ≠ args.length then
    .error (.arityMismatch "lambda" params.length args.length)
  else match firstMisfit? Parameter.ty params args with
    | some (param, value) => .error (.argumentType param.name param.ty.text value.typeName)
    | none => .ok ()

end ExprTree

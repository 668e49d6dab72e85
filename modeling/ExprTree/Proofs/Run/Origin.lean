import ExprTree.Proofs.Value.Operations
import ExprTree.Run.Supply

namespace ExprTree

/-!
# Where references come from

Ids are given out in order, so the supply tells the references that a run makes from
those that it finds:

* `Supply.Before` — one supply has given out what the other one has, and maybe more;
* `Supply.Gives` and `Supply.Covers` — the references with ids that a supply has still
  to give, and those with ids that it has given;
* `Value.Originates` — a reference that was made since a supply, or was known before.
-/

/-- The next ids of one supply are not below those of the other. -/
structure Supply.Before (supply later : Supply) : Prop where
  object : supply.nextObject ≤ later.nextObject
  function : supply.nextFunction ≤ later.nextFunction

namespace Supply

/-- A reference whose id has been given out, or a scalar. -/
def Covers (supply : Supply) : Value → Prop
  | .object id _ _ => id < supply.nextObject
  | .function id _ => id < supply.nextFunction
  | _ => True

/-- A reference whose id has not been given out, or a scalar. -/
def Gives (supply : Supply) : Value → Prop
  | .object id _ _ => supply.nextObject ≤ id
  | .function id _ => supply.nextFunction ≤ id
  | _ => True

variable {supply later : Supply} {value : Value}

/-- A scalar has no id that a supply would have to cover. -/
theorem covers_of_isScalar (h : value.isScalar = true) : supply.Covers value := by
  cases value with
  | object | function => cases h
  | _ => trivial

/-- A scalar has no id, so no supply is needed to give it. -/
theorem gives_of_isScalar (h : value.isScalar = true) : supply.Gives value := by
  cases value with
  | object | function => cases h
  | _ => trivial

/-- What has been given out stays given out. -/
theorem Covers.of_before (hcovers : supply.Covers value) (h : supply.Before later) :
    later.Covers value := by
  cases value with
  | object => exact Nat.lt_of_lt_of_le hcovers h.object
  | function => exact Nat.lt_of_lt_of_le hcovers h.function
  | _ => trivial

/-- What a later supply has still to give, the one before it had still to give. -/
theorem Gives.of_before (hgives : later.Gives value) (h : supply.Before later) :
    supply.Gives value := by
  cases value with
  | object => exact Nat.le_trans h.object hgives
  | function => exact Nat.le_trans h.function hgives
  | _ => trivial

namespace Before

theorem refl (supply : Supply) : supply.Before supply := ⟨Nat.le_refl _, Nat.le_refl _⟩

theorem trans {last : Supply} (h : supply.Before later) (hlater : later.Before last) :
    supply.Before last :=
  ⟨Nat.le_trans h.object hlater.object, Nat.le_trans h.function hlater.function⟩

theorem new_object (supply : Supply) (cls : ClassDef) (fields : List Value) :
    supply.Before (supply.object cls fields).2 :=
  ⟨Nat.le_succ _, Nat.le_refl _⟩

theorem new_function (supply : Supply) (callable : Callable Value) :
    supply.Before (supply.function callable).2 :=
  ⟨Nat.le_refl _, Nat.le_succ _⟩

end Before

end Supply

/-- Where a value of a run comes from that began with `start` and is now at `supply`: it
    is a scalar, it was made by the run, or it was `known` before.  In each case its id
    has been given out by now. -/
structure Value.Originates (start supply : Supply) (known : Value → Prop) (value : Value) :
    Prop where
  origin : start.Gives value ∨ known value
  covered : supply.Covers value

namespace Value

variable {start supply later : Supply} {known : Value → Prop} {value : Value}

theorem originates_of_isScalar (h : value.isScalar = true) :
    value.Originates start supply known :=
  ⟨.inl (Supply.gives_of_isScalar h), Supply.covers_of_isScalar h⟩

/-- A value that has an origin keeps it while the run goes on. -/
theorem Originates.of_before (h : value.Originates start supply known)
    (hlater : supply.Before later) :
    value.Originates start later known :=
  ⟨h.origin, h.covered.of_before hlater⟩

/-- A new object was made by the run. -/
theorem originates_object (h : start.Before supply) (cls : ClassDef) (fields : List Value) :
    (supply.object cls fields).1.Originates start (supply.object cls fields).2 known :=
  ⟨.inl h.object, Nat.lt_succ_self _⟩

/-- A new function was made by the run. -/
theorem originates_function (h : start.Before supply) (callable : Callable Value) :
    (supply.function callable).1.Originates start (supply.function callable).2 known :=
  ⟨.inl h.function, Nat.lt_succ_self _⟩

end Value

end ExprTree

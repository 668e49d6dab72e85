import ExprTree.Proofs.Run.Origin
import ExprTree.Proofs.Run.Preservation

namespace ExprTree

/-!
# Values in play

`InPlay supply known` is what holds of all values that there are at a moment,
taken together: each of them fits, references are told apart by their ids, and
the ids that are in the supply have not been given out.  A run keeps it
(`RunInvariant.inPlay`) if the host makes references only as a program may
(`Hosts.Builds`): objects by their constructors, functions of its own, and all of that
from what it has been given.
-/

/-- The values in play at a moment when `supply` has the next ids.  Scalars always are. -/
structure InPlay (supply : Supply) (known : Value → Prop) : Prop where
  fits {value : Value} : known value → value.Fits
  scalar {value : Value} : value.isScalar = true → known value
  coherent : Value.Coherent known
  object_lt {id : Nat} {cls : ClassDef} {fields : List Value} :
    known (.object id cls fields) → id < supply.nextObject
  function_lt {id : Nat} {callable : Callable Value} :
    known (.function id callable) → id < supply.nextFunction

namespace InPlay

variable {supply supply' : Supply} {known : Value → Prop}

/-- Before anything is created there are only scalars. -/
theorem start (supply : Supply) : InPlay supply fun value => value.isScalar = true where
  fits := Value.fits_of_isScalar
  scalar := id
  coherent := ⟨nofun, nofun⟩
  object_lt := nofun
  function_lt := nofun

/-- Ids may be given out to other things. -/
theorem of_before (h : InPlay supply known) (hbefore : supply.Before supply') :
    InPlay supply' known :=
  ⟨h.fits, h.scalar, h.coherent,
    fun hknown => Nat.lt_of_lt_of_le (h.object_lt hknown) hbefore.object,
    fun hknown => Nat.lt_of_lt_of_le (h.function_lt hknown) hbefore.function⟩

/-- A reference with an id from the supply comes into play. -/
theorem insert (h : InPlay supply known) {new : Value} (hfits : new.Fits)
    (hobjects : supply.nextObject ≤ supply'.nextObject)
    (hfunctions : supply.nextFunction ≤ supply'.nextFunction)
    (hobject : ∀ {id cls fields}, new = .object id cls fields →
      supply.nextObject ≤ id ∧ id < supply'.nextObject)
    (hfunction : ∀ {id callable}, new = .function id callable →
      supply.nextFunction ≤ id ∧ id < supply'.nextFunction) :
    InPlay supply' fun value => known value ∨ value = new where
  fits := by
    rintro value (hvalue | rfl)
    · exact h.fits hvalue
    · exact hfits
  scalar hvalue := .inl (h.scalar hvalue)
  coherent := by
    constructor
    · -- an id that is in play has been given out before, and that of the new value has not
      rintro id cls cls' fields fields' (ha | ha) (hb | hb)
      · exact h.coherent.object ha hb
      · exact absurd (h.object_lt ha) (Nat.not_lt.2 (hobject hb.symm).1)
      · exact absurd (h.object_lt hb) (Nat.not_lt.2 (hobject ha.symm).1)
      · exact ha.trans hb.symm
    · rintro id callable callable' (ha | ha) (hb | hb)
      · exact h.coherent.function ha hb
      · exact absurd (h.function_lt ha) (Nat.not_lt.2 (hfunction hb.symm).1)
      · exact absurd (h.function_lt hb) (Nat.not_lt.2 (hfunction ha.symm).1)
      · exact ha.trans hb.symm
  object_lt := by
    rintro id cls fields (hknown | hnew)
    · exact Nat.lt_of_lt_of_le (h.object_lt hknown) hobjects
    · exact (hobject hnew.symm).2
  function_lt := by
    rintro id callable (hknown | hnew)
    · exact Nat.lt_of_lt_of_le (h.function_lt hknown) hfunctions
    · exact (hfunction hnew.symm).2

/-- A new object whose fields fit comes into play. -/
theorem insert_object (h : InPlay supply known) {cls : ClassDef} {fields : List Value}
    (hfields : List.Forall₂ (fun (field : Field) value => field.ty.accepts value = true)
      cls.fields fields) :
    InPlay (supply.object cls fields).2
      fun value => known value ∨ value = (supply.object cls fields).1 := by
  refine h.insert hfields (Nat.le_succ _) (Nat.le_refl _) (fun heq => ?_) fun heq => ?_
  · cases heq
    exact ⟨Nat.le_refl _, Nat.lt_succ_self _⟩
  · cases heq

/-- A new function comes into play. -/
theorem insert_function (h : InPlay supply known) {callable : Callable Value}
    (hfits : callable.Fits) :
    InPlay (supply.function callable).2
      fun value => known value ∨ value = (supply.function callable).1 := by
  refine h.insert hfits (Nat.le_refl _) (Nat.le_succ _) (fun heq => ?_) fun heq => ?_
  · cases heq
  · cases heq
    exact ⟨Nat.le_refl _, Nat.lt_succ_self _⟩

end InPlay

/-! ### Hosts -/

/-- What a host makes of the values that are `known` to it, with ids from `supply`:
    `supply.Makes known later φ` says that `later` is left of the supply, and that `φ`
    holds of what was known and of what has been made.

* `nothing` — it makes nothing;
* `object` — it calls the constructor of a class, which accepts the fields;
* `native` — it makes a function of its own, which captures values that there are;
* `skip` — it takes ids for what it does not keep. -/
inductive Supply.Makes (known : Value → Prop) (supply : Supply) : Supply → (Value → Prop) → Prop
  | nothing : Makes known supply supply known
  | object {later : Supply} {φ : Value → Prop} {cls : ClassDef} {fields : List Value} :
      Makes known supply later φ → (∀ field ∈ fields, φ field) →
      cls.checkArguments fields = .ok () →
      Makes known supply (later.object cls fields).2
        fun value => φ value ∨ value = (later.object cls fields).1
  | native {later : Supply} {φ : Value → Prop} {name : String} {arity : Nat}
      {host : HostFunction Value} :
      Makes known supply later φ → (∀ value ∈ host.captured, φ value) →
      Makes known supply (later.function (.native name arity host)).2
        fun value => φ value ∨ value = (later.function (.native name arity host)).1
  | skip {later last : Supply} {φ : Value → Prop} :
      Makes known supply later φ → later.Before last → Makes known supply last φ

namespace Supply.Makes

variable {supply later : Supply} {known φ P : Value → Prop}

/-- What holds of the known values, of objects that constructors accept and of functions
    of the host holds of all that a host makes. -/
theorem forall_made (h : supply.Makes known later φ) (hknown : ∀ value, known value → P value)
    (hobject : ∀ {id : Nat} {cls : ClassDef} {fields : List Value},
      cls.checkArguments fields = .ok () → P (.object id cls fields))
    (hnative : ∀ {id arity : Nat} {name : String} {host : HostFunction Value},
      P (.function id (.native name arity host))) : ∀ value, φ value → P value := by
  induction h with
  | nothing => exact hknown
  | object _ _ hcheck ih =>
    rintro value (hvalue | rfl)
    · exact ih value hvalue
    · exact hobject hcheck
  | native _ _ ih =>
    rintro value (hvalue | rfl)
    · exact ih value hvalue
    · exact hnative
  | skip _ _ ih => exact ih

/-- What a host makes comes into play, next to the values that were in play before. -/
theorem inPlay {played : Value → Prop} (h : supply.Makes known later φ)
    (hplay : InPlay supply played) (hknown : ∀ value, known value → played value) :
    ∃ played', (∀ value, played value → played' value) ∧ InPlay later played'
      ∧ ∀ value, φ value → played' value := by
  induction h with
  | nothing => exact ⟨played, fun _ h => h, hplay, hknown⟩
  | object _ _ hcheck ih =>
    obtain ⟨played', hle, hplay, hmade⟩ := ih
    -- an object that a constructor takes fits, and its id was the next one
    exact ⟨_, fun value hvalue => .inl (hle value hvalue),
      hplay.insert_object (ClassOver.checkArguments_eq_ok.1 hcheck),
      fun value => Or.imp_left (hmade value)⟩
  | native _ _ ih =>
    obtain ⟨played', hle, hplay, hmade⟩ := ih
    exact ⟨_, fun value hvalue => .inl (hle value hvalue),
      hplay.insert_function (.inl ⟨_, _, _, rfl⟩), fun value => Or.imp_left (hmade value)⟩
  | skip _ hbefore ih =>
    obtain ⟨played', hle, hplay, hmade⟩ := ih
    exact ⟨played', hle, hplay.of_before hbefore, hmade⟩

end Supply.Makes

/-- What a function of the host may build on: scalars, what is `known`, and what it
    captured or got as an argument, with everything that these hold. -/
def HostFunction.Finds (known : Value → Prop) (host : HostFunction Value) (args : List Value)
    (value : Value) : Prop :=
  value.isScalar = true ∨ known value ∨ ∃ origin ∈ host.captured ++ args, origin.Holds value

/-- What holds of everything at hand holds of all that a function of the host finds. -/
theorem HostFunction.Finds.of_all {host : HostFunction Value} {args : List Value}
    {known P : Value → Prop} {value : Value} (h : host.Finds known args value)
    (hscalar : ∀ value : Value, value.isScalar = true → P value)
    (hknown : ∀ value, known value → P value) (hcaptured : Value.AllOf P host.captured)
    (hargs : Value.AllOf P args) : P value := by
  obtain hvalue | hvalue | ⟨origin, horigin, hvalue⟩ := h
  · exact hscalar value hvalue
  · exact hknown value hvalue
  · exact Value.AllOf.append.2 ⟨hcaptured, hargs⟩ origin horigin value hvalue

/-- A host that makes references only as a program may: it passes on what it finds, and
    it makes objects and functions of the host from that.  It makes no closures, since
    the code of a closure is not the host's to write.  What it gets by calling functions
    itself counts as made by it, so left out is a host that takes a new closure from there. -/
def Hosts.Builds (hosts : Hosts) (known : Value → Prop) : Prop :=
  ∀ host args supply, ∃ φ, supply.Makes (host.Finds known args) (hosts host args supply).2 φ
    ∧ ∀ value, (hosts host args supply).1 = .ok value → value.All φ

/-- What holds of everything that a host finds, and of what it may make, holds of what it gives. -/
theorem Hosts.Builds.all {hosts : Hosts} {known P : Value → Prop} (h : hosts.Builds known)
    (hscalar : ∀ value : Value, value.isScalar = true → P value)
    (hknown : ∀ value, known value → P value)
    (hobject : ∀ {id : Nat} {cls : ClassDef} {fields : List Value},
      cls.checkArguments fields = .ok () → P (.object id cls fields))
    (hnative : ∀ {id arity : Nat} {name : String} {host : HostFunction Value},
      P (.function id (.native name arity host)))
    {host : HostFunction Value} {args : List Value} {supply : Supply} {value : Value}
    (hcaptured : Value.AllOf P host.captured) (hargs : Value.AllOf P args)
    (hvalue : (hosts host args supply).1 = .ok value) : value.All P := by
  obtain ⟨φ, hmakes, hresult⟩ := h host args supply
  exact (hresult value hvalue).mono (hmakes.forall_made
    (fun _ hfinds => hfinds.of_all hscalar hknown hcaptured hargs) hobject hnative)

/-- A host that builds on what fits makes what fits. -/
theorem Hosts.Builds.sound {hosts : Hosts} {known : Value → Prop} (h : hosts.Builds known)
    (hknown : ∀ value, known value → value.Fits) : hosts.Sound :=
  fun _ _ _ _ hcaptured hargs hvalue => h.all (fun _ => Value.fits_of_isScalar) hknown
    ClassOver.checkArguments_eq_ok.1 (.inl ⟨_, _, _, rfl⟩) hcaptured hargs hvalue

/-- Runs keep the values in play, those among them that the host knows. -/
def RunInvariant.inPlay {hosts : Hosts} {known : Value → Prop} (hhosts : hosts.Builds known) :
    RunInvariant hosts where
  Holds supply φ := InPlay supply φ ∧ ∀ value, known value → φ value
  fits h hvalue := h.1.fits hvalue
  scalar h hvalue := h.1.scalar hvalue
  object h _ hfields :=
    ⟨_, fun _ => .inl, ⟨h.1.insert_object hfields, fun value hvalue => .inl (h.2 value hvalue)⟩,
      .inr rfl⟩
  function h hfits _ :=
    ⟨_, fun _ => .inl, ⟨h.1.insert_function hfits, fun value hvalue => .inl (h.2 value hvalue)⟩,
      .inr rfl⟩
  host {supply _ host args} h hcaptured hargs := by
    obtain ⟨φ, hmakes, hresult⟩ := hhosts host args supply
    obtain ⟨played, hle, hplay, hmade⟩ := hmakes.inPlay h.1 fun _ hfinds =>
      hfinds.of_all (fun _ => h.1.scalar) h.2 hcaptured hargs
    exact ⟨played, hle, ⟨hplay, fun value hvalue => hle value (h.2 value hvalue)⟩,
      fun value hvalue => (hresult value hvalue).mono hmade⟩

end ExprTree

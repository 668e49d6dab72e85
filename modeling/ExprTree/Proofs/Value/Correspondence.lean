import ExprTree.Proofs.Code.Uses
import ExprTree.Proofs.Value.Alike
import ExprTree.Proofs.Value.Soundness

namespace ExprTree

/-!
# Corresponding values

Two runs of one tree do not give the same values: a closure of one run holds
code, that of the other one the tree.  `Value.Corresponds ρ` compares values up
to that.  Scalars are the same, objects have one id and one class and their
fields correspond, and functions are the same function of the host or closures
of one lambda that know corresponding values.

Functions are compared by identity, which `ρ` keeps track of: it relates the ids
of functions that stand for each other.  A `Matching` relates no id to two
others, so that both runs agree on which functions are equal; ids that are not
taken yet are related to themselves.

Operations on corresponding values give corresponding results, and the same
errors.
-/

/-- Ids of functions that stand for each other: one to one, and ids from `start` on
    for themselves. -/
structure Matching (ρ : Nat → Nat → Prop) (start : Nat) : Prop where
  injective {i i' j j' : Nat} : ρ i i' → ρ j j' → (i = j ↔ i' = j')
  fresh {i : Nat} : start ≤ i → ρ i i

/-- Where every function stands for itself alone, both runs are given the same functions. -/
theorem Matching.same (start : Nat) : Matching (· = ·) start :=
  ⟨fun hi hj => by rw [hi, hj], fun _ => rfl⟩

/-- What a lambda uses is held by every function that denotes it. -/
theorem Callable.Denotes.mem_of_uses {callable : Callable Value} {lambda : Lambda Value}
    {val : Valuation} (h : callable.Denotes lambda val) :
    ∀ c ∈ lambda.body.uses, c.isPrimitive = true ∨ c ∈ callable.parts := by
  intro c hc
  cases h with
  | interpreted _ =>
    exact .inr (List.mem_append_left _
      (Expr.literals_subset_parts _ (Expr.uses_subset_literals _ hc)))
  | compiled htranslates _ =>
    rw [Callable.parts, List.mem_append, List.mem_append]
    exact (htranslates.mem_of_uses c hc).imp_right (Or.imp_left .inl)

/-- Two results agree: related values, or one error. -/
inductive ResultsAgree {α : Type} (R : α → α → Prop) :
    Except RuntimeError α → Except RuntimeError α → Prop
  | ok {a a' : α} : R a a' → ResultsAgree R (.ok a) (.ok a')
  | error {error : RuntimeError} : ResultsAgree R (.error error) (.error error)

/-- A result agrees with itself if its value does. -/
theorem ResultsAgree.of_eq {α : Type} {R : α → α → Prop} {result : Except RuntimeError α}
    (h : ∀ a, result = .ok a → R a a) : ResultsAgree R result result := by
  cases result with
  | error error => exact .error
  | ok a => exact .ok (h a rfl)

/-- Related lists have related elements at every position, or both end before it. -/
theorem forall₂_getElem? {α β : Type} {R : α → β → Prop} {as : List α} {bs : List β}
    (h : List.Forall₂ R as bs) (index : Nat) : Option.Rel R as[index]? bs[index]? := by
  induction h generalizing index with
  | nil => exact .none
  | cons hhead _ ih =>
    cases index with
    | zero => exact .some hhead
    | succ index => exact ih index

namespace Value

/-- Fields of objects of one class are related as their fields are, and cannot be read for the
    same reason. -/
theorem field_rel_of_fields {R : Value → Value → Prop} {id id' : Nat} {cls : ClassDef}
    {fields fields' : List Value} (h : List.Forall₂ R fields fields') (name : String) :
    ResultsAgree R ((object id cls fields).field name) ((object id' cls fields').field name) := by
  rw [Value.field, Value.field, fieldOf?, fieldOf?]
  cases cls.fieldIndex? name with
  | none => exact .error
  | some index =>
    have hrel := forall₂_getElem? h index
    simp only [Option.bind_eq_bind, Option.bind_some]
    generalize fields[index]? = value at hrel ⊢
    generalize fields'[index]? = value' at hrel ⊢
    cases hrel with
    | none => exact .error
    | some hvalue => exact .ok hvalue

/-- Values that two runs of one tree may have in each other's place. -/
inductive Corresponds (ρ : Nat → Nat → Prop) : Value → Value → Prop
  | scalar {value : Value} : value.isScalar = true → Corresponds ρ value value
  | object {id : Nat} {cls : ClassDef} {fields fields' : List Value} :
      List.Forall₂ (Corresponds ρ) fields fields' →
      Corresponds ρ (.object id cls fields) (.object id cls fields')
  | native {id id' : Nat} {name : String} {arity : Nat} {host : HostFunction Value} : ρ id id' →
      Corresponds ρ (.function id (.native name arity host))
        (.function id' (.native name arity host))
  | closure {id id' : Nat} {callable callable' : Callable Value} {lambda : Lambda Value}
      {val val' : Valuation} : ρ id id' →
      callable.Denotes lambda val → callable'.Denotes lambda val' →
      (∀ c ∈ lambda.body.uses, Corresponds ρ c c) →
      (∀ param ∈ lambda.reads, Option.Rel (Corresponds ρ) (val param) (val' param)) →
      Corresponds ρ (.function id callable) (.function id' callable')

/-- A function that stands for itself. -/
def IsMatched (ρ : Nat → Nat → Prop) : Value → Prop
  | function id _ => ρ id id
  | _ => True

namespace Corresponds

variable {ρ : Nat → Nat → Prop} {a a' b b' : Value}

/-- A sound value corresponds to itself where all functions that it holds do. -/
theorem refl (hsound : a.Sound) (hmatched : a.All (IsMatched ρ)) : Corresponds ρ a a := by
  induction a using inductionOnParts with
  | step value ih =>
    have ih : ∀ part ∈ value.parts, Corresponds ρ part part := fun part hpart =>
      ih part hpart (hsound.part hpart) (hmatched.part hpart)
    cases value with
    | none | bool | number | string => exact .scalar rfl
    | object id cls fields => exact .object (List.forall₂_same.2 ih)
    | function id callable =>
      have hid : ρ id id := hmatched.self
      rcases hsound.self with ⟨name, arity, host, rfl⟩ | ⟨lambda, val, hdenotes⟩
      · exact .native hid
      · refine .closure hid hdenotes hdenotes (fun c hc => ?_) fun param _ => ?_
        · -- what the lambda uses is a primitive, or held by the closure
          rcases hdenotes.mem_of_uses c hc with hprim | hpart
          · exact .scalar (isScalar_of_isPrimitive hprim)
          · exact ih c hpart
        · cases hvalue : val param with
          | none => exact .none
          | some value => exact .some (ih value (hdenotes.mem_parts hvalue))

/-- A scalar corresponds to itself only. -/
theorem eq_of_isScalar (h : Corresponds ρ a a') (ha : a.isScalar = true) : a' = a := by
  cases h with
  | scalar _ => rfl
  | _ => cases ha

/-- Corresponding values have one type. -/
theorem typeOf_eq (h : Corresponds ρ a a') : a.typeOf = a'.typeOf := by
  cases h with
  | scalar _ | object _ | native _ => rfl
  | closure _ hdenotes hdenotes' _ _ => rw [typeOf, typeOf, hdenotes.arity_eq, hdenotes'.arity_eq]

/-- Only identity tells corresponding values apart. -/
theorem alike (h : Corresponds ρ a a') : Alike a a' :=
  ⟨h.typeOf_eq, h.eq_of_isScalar⟩

/-- Both runs agree on which values are equal. -/
theorem beq_eq {start : Nat} (hmatching : Matching ρ start) (ha : Corresponds ρ a a')
    (hb : Corresponds ρ b b') : (a == b) = (a' == b') := by
  have hfunction : ∀ {i i' j j' : Nat} {f f' g g' : Callable Value}, ρ i i' → ρ j j' →
      (function i f == function j g) = (function i' f' == function j' g') :=
    fun hi hj => decide_eq_decide.2 (hmatching.injective hi hj)
  -- scalars are compared by value, objects by id, and functions by ids that are matched
  cases ha with
  | scalar hscalar =>
    cases hb with
    | scalar _ => rfl
    | object _ | native _ | closure =>
      cases a with
      | object | function => cases hscalar
      | _ => rfl
  | object _ =>
    cases hb with
    | scalar hscalar =>
      cases b with
      | object | function => cases hscalar
      | _ => rfl
    | object _ | native _ | closure => rfl
  | native hi =>
    cases hb with
    | scalar hscalar =>
      cases b with
      | object | function => cases hscalar
      | _ => rfl
    | object _ => rfl
    | native hj => exact hfunction hi hj
    | closure hj => exact hfunction hi hj
  | closure hi =>
    cases hb with
    | scalar hscalar =>
      cases b with
      | object | function => cases hscalar
      | _ => rfl
    | object _ => rfl
    | native hj => exact hfunction hi hj
    | closure hj => exact hfunction hi hj

/-- Operators give the same on corresponding operands. -/
theorem binary_eq {start : Nat} (hmatching : Matching ρ start) (ha : Corresponds ρ a a')
    (hb : Corresponds ρ b b') (op : BinaryOp) : op.apply a b = op.apply a' b' :=
  ha.alike.binary_eq hb.alike (beq_eq hmatching ha hb) op

end Corresponds

/-! ### Results -/

/-- Fields of corresponding targets correspond, and cannot be read for the same reason. -/
theorem Corresponds.field_rel {ρ : Nat → Nat → Prop} {a a' : Value} (h : Corresponds ρ a a')
    (name : String) : ResultsAgree (Corresponds ρ) (a.field name) (a'.field name) := by
  have herror : ∀ {id id' : Nat} {f f' : Callable Value}, Alike (function id f) (function id' f') →
      ResultsAgree (Corresponds ρ) ((function id f).field name) ((function id' f').field name) :=
    fun halike => by
      simp only [Value.field, RuntimeError.ofOperands_eq (.cons halike .nil)]
      exact .error
  have halike := h.alike
  cases h with
  | scalar hscalar =>
    refine .of_eq fun value hvalue => ?_
    -- only objects have fields
    obtain ⟨_, _, _, _, rfl, _⟩ := field_eq_ok.1 hvalue
    cases hscalar
  | object hfields => exact field_rel_of_fields hfields name
  | native _ | closure _ _ _ _ _ => exact herror halike

end Value

end ExprTree

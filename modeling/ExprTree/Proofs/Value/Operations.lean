import ExprTree.Code.Emit
import ExprTree.Proofs.Value.Parts
import ExprTree.Run.Evaluator
import Mathlib.Data.List.Forall2

namespace ExprTree

/-!
# Types of results

Static types against what operations really give:

* `UnaryOp.accepts_apply`, `BinaryOp.accepts_apply` — the type inferred for an
  operator accepts its result;
* `Ty.accepts_join`, `Ty.accepts_of_surelyTakes` — the types of conditionals, and
  the test that lets a constructor go without checks;
* `ClassOver.checkArguments_eq_ok`, `checkParameters_eq_ok` — what the checks of
  constructor calls and of calls make sure of;
* `Value.fieldAt_eq_field` — reading a field by its position in the expected
  class is reading it by name.
-/

/-! ### Scalars -/

namespace Value

/-- Values that are neither objects nor functions. -/
def isScalar : Value → Bool
  | object .. | function .. => false
  | _ => true

theorem isScalar_of_isPrimitive {value : Value} (h : value.isPrimitive = true) :
    value.isScalar = true := by
  cases value <;> simp_all [isPrimitive, isScalar]

theorem parts_of_isScalar {value : Value} (h : value.isScalar = true) : value.parts = [] := by
  cases value <;> simp_all [isScalar, parts]

/-- A test accepts bools only. -/
theorem test_eq_ok {name : String} {value : Value} {b : Bool} :
    value.test name = .ok b ↔ value = .bool b := by
  cases value <;> simp [test]

/-- Objects and functions are no bools. -/
theorem test_of_not_isScalar {name : String} {value : Value} (h : value.isScalar = false) :
    value.test name = .error (.ofOperands name [value]) := by
  cases value with
  | object | function => rfl
  | _ => cases h

/-- The result of a short circuit that needs both operands. -/
theorem exists_of_map_test {name : String} {value result : Value}
    (h : (value.test name).map .bool = .ok result) : ∃ b, value = .bool b ∧ result = .bool b := by
  cases htest : value.test name with
  | error error =>
    rw [htest] at h
    cases h
  | ok b =>
    rw [htest] at h
    cases h
    exact ⟨b, test_eq_ok.1 htest, rfl⟩

end Value

/-! ### Operators -/

namespace Ty

theorem fits_iff {actual expected : Ty} :
    actual.fits expected = true ↔ actual = .any ∨ actual = expected := by
  simp [fits]

/-- The type of a conditional accepts what either branch accepts. -/
theorem accepts_join {yes no : Ty} {value : Value}
    (h : yes.accepts value = true ∨ no.accepts value = true) :
    (yes.join no).accepts value = true := by
  unfold join
  split
  · rename_i heq
    subst heq
    exact h.elim id id
  · split
    · rcases h with h | h
      · exact h
      · cases value <;> simp_all [accepts]
    · rcases h with h | h
      · cases value <;> simp_all [accepts]
      · exact h
    · rfl

/-- What a type accepts depends on the type of the value alone. -/
theorem accepts_congr {a b : Value} (h : a.typeOf = b.typeOf) (ty : Ty) :
    ty.accepts a = ty.accepts b := by
  cases a with
  | function id callable =>
    cases b with
    | function id' callable' =>
      -- of a function the type says the arity and no more
      have harity : callable.arity = callable'.arity := by simpa [Value.typeOf] using h
      cases ty with
      | function arity => cases arity <;> simp [accepts, harity]
      | _ => rfl
    | _ => cases h
  | _ =>
    cases b <;> cases h
    all_goals
      cases ty with
      | function arity => cases arity <;> rfl
      | _ => rfl

/-- A type that surely takes another accepts every value of it. -/
theorem accepts_of_surelyTakes {field arg : Ty} {value : Value}
    (h : field.surelyTakes arg = true) (hvalue : arg.accepts value = true) :
    field.accepts value = true := by
  unfold surelyTakes at h
  split at h
  · rfl
  · cases value <;> simp_all [accepts]
  · rw [beq_iff_eq] at h
    rw [h]
    exact hvalue

/-- Arguments of types that the fields of a class surely take fit the fields. -/
theorem forall₂_accepts_of_surelyTakes {fields : List Field} {emitted : List Emitted}
    {values : List Value}
    (hfields : List.Forall₂ (fun field (e : Emitted) => field.ty.surelyTakes e.ty = true)
      fields emitted)
    (hvalues : List.Forall₂ (fun (e : Emitted) value => e.ty.accepts value = true)
      emitted values) :
    List.Forall₂ (fun (field : Field) value => field.ty.accepts value = true) fields values := by
  induction hfields generalizing values with
  | nil =>
    cases hvalues
    exact .nil
  | cons hfield _ ih =>
    cases hvalues with
    | cons hvalue hrest => exact .cons (accepts_of_surelyTakes hfield hvalue) (ih hrest)

end Ty

namespace UnaryOp

/-- A unary operator takes scalars only. -/
theorem apply_of_not_isScalar {op : UnaryOp} {operand : Value} (h : operand.isScalar = false) :
    op.apply operand = .error (.ofOperands op.symbol [operand]) := by
  cases operand with
  | object | function => cases op <;> rfl
  | _ => cases h

/-- What a unary operator takes is of its operand type, and what it gives is a scalar. -/
theorem apply_eq_ok {op : UnaryOp} {operand value : Value} (h : op.apply operand = .ok value) :
    op.operandTy.accepts value = true ∧ value.isScalar = true := by
  unfold apply at h
  split at h <;> cases h <;> exact ⟨rfl, rfl⟩

/-- The type inferred for a unary operator accepts its result. -/
theorem accepts_apply {op : UnaryOp} {operand value : Value} {ty : Ty}
    (h : op.apply operand = .ok value) :
    ((op.resultTy? ty).getD .any).accepts value = true := by
  unfold resultTy?
  split
  · exact (apply_eq_ok h).1
  · rfl

end UnaryOp

namespace BinaryOp

/-- Arithmetic is what the operators do to two numbers. -/
theorem apply_number {op : BinaryOp} (h : op.isArithmetic = true) (a b : Number) :
    op.apply (.number a) (.number b) = (op.arithmetic a b).map .number := by
  cases op <;> first | rfl | cases h

/-- Objects and functions can only be compared for equality. -/
theorem apply_of_not_isScalar {op : BinaryOp} (heq : op ≠ .eq) (hne : op ≠ .ne)
    {left right : Value} (h : left.isScalar = false ∨ right.isScalar = false) :
    op.apply left right = .error (.ofOperands op.symbol [left, right]) := by
  rcases h with h | h
  · cases left with
    | object | function => cases op <;> first | rfl | exact absurd rfl heq | exact absurd rfl hne
    | _ => cases h
  · cases right with
    | object | function =>
      cases op <;> first | exact absurd rfl heq | exact absurd rfl hne | (cases left <;> rfl)
    | _ => cases h

/-- What a binary operator can give: a bool, a number made of two numbers, or a
    string made of two strings. -/
theorem apply_eq_ok {op : BinaryOp} {left right value : Value}
    (h : op.apply left right = .ok value) :
    (op.isArithmetic = false ∧ ∃ b, value = .bool b)
      ∨ (op.isArithmetic = true ∧ ∃ a b n, left = .number a ∧ right = .number b ∧ value = .number n)
      ∨ (op = .add ∧ ∃ a b s, left = .string a ∧ right = .string b ∧ value = .string s) := by
  cases op <;> simp only [apply] at h
  case add =>
    split at h
    · cases h
      exact .inr (.inl ⟨rfl, _, _, _, rfl, rfl, rfl⟩)
    · cases h
      exact .inr (.inr ⟨rfl, _, _, _, rfl, rfl, rfl⟩)
    · cases h
  -- these are done on two numbers, and a zero divisor is an error
  case sub | mul | div | rem =>
    split at h
    · rw [Except.map.eq_def] at h
      split at h
      · cases h
      · cases h
        exact .inr (.inl ⟨rfl, _, _, _, rfl, rfl, rfl⟩)
    · cases h
  case eq | ne =>
    cases h
    exact .inl ⟨rfl, _, rfl⟩
  all_goals
    split at h <;> cases h
    all_goals exact .inl ⟨rfl, _, rfl⟩

/-- A binary operator gives a scalar. -/
theorem isScalar_of_apply {op : BinaryOp} {left right value : Value}
    (h : op.apply left right = .ok value) : value.isScalar = true := by
  rcases apply_eq_ok h with ⟨_, _, rfl⟩ | ⟨_, _, _, _, _, _, rfl⟩ | ⟨_, _, _, _, _, _, rfl⟩ <;> rfl

/-- What direct arithmetic gives: numbers are not handed to the operator. -/
def direct (op : BinaryOp) (left right : Value) : Except RuntimeError Value :=
  match left, right with
  | .number a, .number b => (op.arithmetic a b).map .number
  | left, right => op.apply left right

/-- Arithmetic that is done directly is the operator. -/
theorem direct_eq_apply {op : BinaryOp} (h : op.isArithmetic = true) : op.direct = op.apply := by
  funext left right
  unfold direct
  split
  · rw [apply_number h]
  · rfl

/-- There is a shortcut for numbers only. -/
theorem direct_of_not_isScalar {op : BinaryOp} {left right : Value}
    (h : left.isScalar = false ∨ right.isScalar = false) :
    op.direct left right = op.apply left right := by
  unfold direct
  split
  · rcases h with h | h <;> cases h
  · rfl

/-- Arithmetic that is done directly gives a scalar. -/
theorem isScalar_of_direct {op : BinaryOp} {left right value : Value}
    (h : op.direct left right = .ok value) : value.isScalar = true := by
  unfold direct at h
  split at h
  · rename_i a b
    cases hresult : op.arithmetic a b with
    | error error =>
      rw [hresult] at h
      cases h
    | ok n =>
      rw [hresult] at h
      cases h
      rfl
  · exact isScalar_of_apply h

/-- A short circuit is settled to the operand that settles it. -/
theorem settled?_eq_some {op : BinaryOp} {left : Bool} {value : Value}
    (h : op.settled? left = some value) : value = .bool left := by
  unfold settled? at h
  split at h <;> cases h
  rfl

/-- Arithmetic operators do not short-circuit. -/
theorem isShortCircuit_of_isArithmetic {op : BinaryOp} (h : op.isArithmetic = true) :
    op.isShortCircuit = false := by
  cases op <;> first | rfl | cases h

/-- A short circuit on two bools is the left one if that settles it, and otherwise the right one. -/
theorem apply_shortCircuit {op : BinaryOp} (hop : op.isShortCircuit = true)
    {left right value : Value} (h : op.apply left right = .ok value) :
    ∃ a b, left = .bool a ∧ right = .bool b ∧ value = (op.settled? a).getD (.bool b) := by
  cases op <;> cases hop
  all_goals
    simp only [apply] at h
    split at h
    · rename_i a b
      cases h
      refine ⟨a, b, rfl, rfl, ?_⟩
      cases a <;> rfl
    · cases h

/-- The type inferred for a binary operator accepts its result. -/
theorem accepts_apply {op : BinaryOp} {left right value : Value} {leftTy rightTy : Ty}
    (hleft : leftTy.accepts left = true) (hright : rightTy.accepts right = true)
    (h : op.apply left right = .ok value) :
    ((op.resultTy? leftTy rightTy).getD .any).accepts value = true := by
  rcases apply_eq_ok h with ⟨hop, b, rfl⟩ | ⟨hop, a, b, n, rfl, rfl, rfl⟩
      | ⟨rfl, a, b, s, rfl, rfl, rfl⟩
  · cases op with
    | add | sub | mul | div | rem => cases hop
    | eq | ne => rfl
    | lt | le | gt | ge | and | or =>
      simp only [resultTy?]
      split <;> rfl
  · cases op with
    | eq | ne | lt | le | gt | ge | and | or => cases hop
    | sub | mul | div | rem =>
      simp only [resultTy?]
      split <;> rfl
    | add =>
      simp only [resultTy?]
      split
      · rfl
      · rfl
      · -- the operands are numbers and fit as strings, so their types are any
        rename_i hstring
        simp only [Bool.and_eq_true, Ty.fits_iff] at hstring
        rcases hstring with ⟨rfl | rfl, rfl | rfl⟩ <;> simp_all [Ty.accepts, Ty.fits]
      · rfl
  · simp only [resultTy?]
    split
    · rfl
    · rename_i hnumber _
      simp only [Bool.and_eq_true, Ty.fits_iff] at hnumber
      rcases hnumber with ⟨rfl | rfl, rfl | rfl⟩ <;> simp_all [Ty.accepts, Ty.fits]
    · rfl
    · rfl

/-- The type of a short circuit, whatever its operands are. -/
theorem resultTy?_shortCircuit {op : BinaryOp} (h : op.isShortCircuit = true) {left right ty : Ty}
    (hty : op.resultTy? left right = some ty) : ty = .bool := by
  cases op <;> cases h
  all_goals
    simp only [resultTy?, Option.ite_none_right_eq_some] at hty
    cases hty.2
    rfl

/-- The type of arithmetic on numbers. -/
theorem resultTy?_number {op : BinaryOp} (h : op.isArithmetic = true) :
    op.resultTy? .number .number = some .number := by
  cases op <;> first | rfl | cases h

end BinaryOp

/-! ### Checks of arguments -/

section

variable {τ : Type} {typeOf : τ → Ty}

/-- Nothing is amiss when every place takes its value. -/
theorem firstMisfit?_eq_none {places : List τ} {values : List Value}
    (hlength : places.length = values.length) :
    firstMisfit? typeOf places values = none
      ↔ List.Forall₂ (fun place value => (typeOf place).accepts value = true) places values := by
  induction places generalizing values with
  | nil =>
    rw [List.eq_nil_of_length_eq_zero hlength.symm]
    simp [firstMisfit?]
  | cons place places ih =>
    cases values with
    | nil => cases hlength
    | cons value values =>
      rw [List.forall₂_cons, ← ih (Nat.succ.inj hlength), firstMisfit?]
      split <;> simp_all

end

/-- A constructor call passes its check when every field takes its argument. -/
theorem ClassOver.checkArguments_eq_ok {cls : ClassDef} {args : List Value} :
    cls.checkArguments args = .ok ()
      ↔ List.Forall₂ (fun (field : Field) value => field.ty.accepts value = true)
          cls.fields args := by
  rw [checkArguments, arity]
  split
  · rename_i hlength
    exact iff_of_false (by simp) fun h => hlength h.length_eq.symm
  · rename_i hlength
    rw [← firstMisfit?_eq_none (not_not.1 hlength).symm]
    split <;> simp_all

/-- What the constructor of a class gives is of that class. -/
theorem ClassOver.accepts_of_instantiate {cls : ClassDef} {args : List Value} {supply : Supply}
    {value : Value} (h : (cls.instantiate args supply).1 = .ok value) :
    (Ty.object cls).accepts value = true := by
  unfold instantiate at h
  split at h
  · cases h
  · cases h
    simp [Ty.accepts]

/-- Arguments that fit make the constructor of a class the plain new object. -/
theorem ClassOver.instantiate_of_accepts {cls : ClassDef} {args : List Value} {supply : Supply}
    (h : List.Forall₂ (fun (field : Field) value => field.ty.accepts value = true)
      cls.fields args) :
    cls.instantiate args supply = (.ok (supply.object cls args).1, (supply.object cls args).2) := by
  rw [instantiate, checkArguments_eq_ok.2 h]

/-- A call passes its check when every parameter takes its argument. -/
theorem checkParameters_eq_ok {params : List Parameter} {args : List Value} :
    checkParameters params args = .ok ()
      ↔ List.Forall₂ (fun (param : Parameter) value => param.ty.accepts value = true)
          params args := by
  rw [checkParameters]
  split
  · rename_i hlength
    exact iff_of_false (by simp) fun h => hlength h.length_eq
  · rename_i hlength
    rw [← firstMisfit?_eq_none (not_not.1 hlength)]
    split <;> simp_all

/-! ### Fields -/

namespace ClassOver

/-- A field that is found stands at the position it is found at. -/
theorem field?_eq_some {cls : ClassDef} {name : String} {index : Nat} {field : Field} :
    cls.field? name = some (index, field)
      ↔ cls.fieldIndex? name = some index ∧ cls.fields[index]? = some field := by
  simp only [field?, Option.bind_eq_bind, Option.pure_def, Option.bind_eq_some_iff,
    Option.some.injEq, Prod.mk.injEq]
  constructor
  · rintro ⟨_, hindex, _, hfield, rfl, rfl⟩
    exact ⟨hindex, hfield⟩
  · rintro ⟨hindex, hfield⟩
    exact ⟨index, hindex, field, hfield, rfl, rfl⟩

end ClassOver

namespace Value

/-- A field that is read is one of an object. -/
theorem field_eq_ok {target value : Value} {name : String} :
    target.field name = .ok value
      ↔ ∃ id cls fields index, target = .object id cls fields
          ∧ cls.fieldIndex? name = some index ∧ fields[index]? = some value := by
  cases target with
  | object id cls fields =>
    simp only [field, fieldOf?, Option.bind_eq_bind]
    cases hindex : cls.fieldIndex? name with
    | none => simp [hindex]
    | some index =>
      simp only [Option.bind_some]
      cases hvalue : fields[index]? <;> simp [hindex, hvalue]
  | _ => simp [field]

/-- What holds of everything in an object holds of everything in a field of it. -/
theorem All.of_field {P : Value → Prop} {target value : Value} {name : String}
    (h : target.All P) (hvalue : target.field name = .ok value) : value.All P := by
  obtain ⟨_, _, _, _, rfl, _, hget⟩ := field_eq_ok.1 hvalue
  exact h.part (List.mem_of_getElem? hget)

/-- Where the class is the expected one, a position stands for the name. -/
theorem fieldAt_eq_field {cls : ClassDef} {target : Value} {name : String} {index : Nat}
    {field : Field} (htarget : (Ty.object cls).accepts target = true)
    (hfield : cls.field? name = some (index, field)) :
    target.fieldAt index name = target.field name := by
  cases target with
  | object id cls' fields =>
    rw [Ty.accepts, beq_iff_eq] at htarget
    subst htarget
    rw [fieldAt]
    split
    · rename_i value hvalue
      exact (field_eq_ok.2 ⟨_, _, _, _, rfl, (ClassOver.field?_eq_some.1 hfield).1, hvalue⟩).symm
    · rfl
  | _ => rfl

end Value

end ExprTree

import ExprTree.Proofs.Tree.Inference
import ExprTree.Proofs.Value.Soundness

namespace ExprTree

/-!
# Fully typed trees

`any` fits everywhere, so a well-typed tree may still fail on the types of its
values.  In a fully typed tree no node has the type `any`, nor that of a function
of unknown arity (`Expr.isFullyTyped`).  A type that is left says what its values
are, and what typing allows is then what values do:

* `Ty.accepts_of_isAssignableFrom` — a value of a type that may be stored somewhere
  is accepted there;
* `UnaryOp.exists_apply`, `BinaryOp.apply_eq_error`, `Value.field_eq_error` — an
  operation that typing accepts succeeds, but for a zero divisor and for a field of
  `none`.
-/

/-- A type that is known: neither `any` nor a function of unknown arity. -/
def Ty.isKnown : Ty → Bool
  | any | function .none => false
  | _ => true

/-! ### Trees -/

/-- Whether a node has a known type, if it is well typed at all. -/
def Expr.hasKnownTy (limit : Nat) (scopes : List (List Parameter)) (depth : Nat)
    (expr : Expr Value) : Bool :=
  match expr.infer limit scopes depth with
  | .ok ty => ty.isKnown
  | .error _ => true

mutual

/-- Whether every node of a tree has a known type, bodies of nested lambdas
    included.  The arguments are those of `Expr.infer`. -/
def Expr.isFullyTyped (limit : Nat) (scopes : List (List Parameter)) (depth : Nat)
    (expr : Expr Value) : Bool :=
  expr.hasKnownTy limit scopes depth &&
    match expr with
    | .constant _ | .parameter _ => true
    | .new _ args => Expr.areFullyTyped limit scopes (depth + 1) args
    | .field target _ => target.isFullyTyped limit scopes (depth + 1)
    | .unary _ operand => operand.isFullyTyped limit scopes (depth + 1)
    | .binary _ left right =>
      left.isFullyTyped limit scopes (depth + 1) && right.isFullyTyped limit scopes (depth + 1)
    | .conditional test yes no =>
      test.isFullyTyped limit scopes (depth + 1) && yes.isFullyTyped limit scopes (depth + 1)
        && no.isFullyTyped limit scopes (depth + 1)
    | .lambda params body => body.isFullyTyped limit (params :: scopes) (depth + 1)
    | .invoke (.lambda params body) args =>
      body.isFullyTyped limit (params :: scopes) (depth + 1)
        && Expr.areFullyTyped limit scopes (depth + 1) args
    | .invoke target args =>
      target.isFullyTyped limit scopes (depth + 1)
        && Expr.areFullyTyped limit scopes (depth + 1) args
    | .extension _ operands _ => Expr.areFullyTyped limit scopes (depth + 1) operands
termination_by structural expr

/-- Whether every node of several trees has a known type. -/
def Expr.areFullyTyped (limit : Nat) (scopes : List (List Parameter)) (depth : Nat) :
    List (Expr Value) → Bool
  | [] => true
  | expr :: rest =>
    expr.isFullyTyped limit scopes depth && Expr.areFullyTyped limit scopes depth rest
termination_by structural exprs => exprs

end

/-- Whether every node of a lambda has a known type, where `limit` nodes may be nested. -/
def Lambda.isFullyTyped (lambda : Lambda Value) (limit : Nat) : Bool :=
  lambda.body.isFullyTyped limit [lambda.params] 0

namespace Expr

variable {limit depth : Nat} {scopes : List (List Parameter)}

/-- The type of a fully typed tree is known. -/
theorem isKnown_of_isFullyTyped {expr : Expr Value} {ty : Ty}
    (h : expr.isFullyTyped limit scopes depth = true)
    (hty : expr.infer limit scopes depth = .ok ty) : ty.isKnown = true := by
  rw [isFullyTyped.eq_def, Bool.and_eq_true, hasKnownTy, hty] at h
  exact h.1

end Expr

/-! ### Places -/

/-- A value of a known type fits wherever its type may be stored. -/
theorem Ty.accepts_of_isAssignableFrom {target source : Ty} {value : Value}
    (h : target.isAssignableFrom source = true) (hknown : source.isKnown = true)
    (hvalue : source.accepts value = true) : target.accepts value = true := by
  unfold isAssignableFrom at h
  split at h
  · rfl
  · cases hknown
  · -- `none` in the place of an object
    cases value <;> first | rfl | cases hvalue
  · -- a function of any arity may be expected, but a known type has one
    rename_i expected actual
    cases actual with
    | none => cases hknown
    | some arity =>
      cases expected with
      | none => cases value <;> first | rfl | cases hvalue
      | some arity' =>
        have harity : arity' = arity := by simpa using h
        exact harity ▸ hvalue
  · rw [beq_iff_eq] at h
    exact h ▸ hvalue

/-! ### Operations -/

namespace Ty

variable {value : Value}

theorem exists_of_accepts_bool (h : bool.accepts value = true) : ∃ b, value = .bool b := by
  cases value <;> first | exact ⟨_, rfl⟩ | cases h

theorem exists_of_accepts_number (h : number.accepts value = true) : ∃ n, value = .number n := by
  cases value <;> first | exact ⟨_, rfl⟩ | cases h

theorem exists_of_accepts_string (h : string.accepts value = true) : ∃ s, value = .string s := by
  cases value <;> first | exact ⟨_, rfl⟩ | cases h

/-- What fits an operand and is known is what the operator expects. -/
theorem eq_of_fits {actual expected : Ty} (h : actual.fits expected = true)
    (hknown : actual.isKnown = true) : actual = expected := by
  rcases fits_iff.1 h with rfl | h
  · cases hknown
  · exact h

end Ty

/-- A unary operator on an operand of its type succeeds. -/
theorem UnaryOp.exists_apply {op : UnaryOp} {operandTy ty : Ty} {operand : Value}
    (hty : op.resultTy? operandTy = some ty) (hknown : operandTy.isKnown = true)
    (h : operandTy.accepts operand = true) : ∃ value, op.apply operand = .ok value := by
  rw [resultTy?, Option.ite_none_right_eq_some] at hty
  rw [Ty.eq_of_fits hty.1 hknown] at h
  cases op with
  | negate =>
    obtain ⟨n, rfl⟩ := Ty.exists_of_accepts_number h
    exact ⟨_, rfl⟩
  | not =>
    obtain ⟨b, rfl⟩ := Ty.exists_of_accepts_bool h
    exact ⟨_, rfl⟩

namespace BinaryOp

variable {op : BinaryOp} {leftTy rightTy ty : Ty} {left right : Value}

/-- A short circuit takes bools only. -/
theorem operandTys_of_shortCircuit (hop : op.isShortCircuit = true)
    (hty : op.resultTy? leftTy rightTy = some ty) (hleft : leftTy.isKnown = true)
    (hright : rightTy.isKnown = true) : leftTy = .bool ∧ rightTy = .bool := by
  cases op <;> cases hop
  all_goals
    simp only [resultTy?, Option.ite_none_right_eq_some, Bool.and_eq_true] at hty
    exact ⟨Ty.eq_of_fits hty.1.1 hleft, Ty.eq_of_fits hty.1.2 hright⟩

/-- What the operands of any other operator are: two numbers or two strings, unless
    it is a test for equality, which takes everything. -/
theorem operands_of_resultTy? (hop : op.isShortCircuit = false)
    (hty : op.resultTy? leftTy rightTy = some ty) (hleft : leftTy.isKnown = true)
    (hright : rightTy.isKnown = true) (hl : leftTy.accepts left = true)
    (hr : rightTy.accepts right = true) :
    (op = .eq ∨ op = .ne) ∨ (∃ a b, left = .number a ∧ right = .number b)
      ∨ (op = .add ∨ op.isArithmetic = false) ∧ ∃ s t, left = .string s ∧ right = .string t := by
  have numbers : leftTy.fits .number = true ∧ rightTy.fits .number = true →
      ∃ a b, left = .number a ∧ right = .number b := fun h => by
    rw [Ty.eq_of_fits h.1 hleft] at hl
    rw [Ty.eq_of_fits h.2 hright] at hr
    obtain ⟨a, rfl⟩ := Ty.exists_of_accepts_number hl
    obtain ⟨b, rfl⟩ := Ty.exists_of_accepts_number hr
    exact ⟨a, b, rfl, rfl⟩
  have strings : leftTy.fits .string = true ∧ rightTy.fits .string = true →
      ∃ s t, left = .string s ∧ right = .string t := fun h => by
    rw [Ty.eq_of_fits h.1 hleft] at hl
    rw [Ty.eq_of_fits h.2 hright] at hr
    obtain ⟨s, rfl⟩ := Ty.exists_of_accepts_string hl
    obtain ⟨t, rfl⟩ := Ty.exists_of_accepts_string hr
    exact ⟨s, t, rfl, rfl⟩
  -- each operator leaves one or both of these, and equality takes anything
  cases op with
  | and | or => cases hop
  | eq | ne => simp
  | sub | mul | div | rem =>
    simp only [resultTy?, Option.ite_none_right_eq_some, Bool.and_eq_true] at hty
    exact .inr (.inl (numbers hty.1))
  | lt | le | gt | ge =>
    simp only [resultTy?, Option.ite_none_right_eq_some, Bool.or_eq_true, Bool.and_eq_true] at hty
    exact .inr (hty.1.imp numbers fun h => ⟨.inr rfl, strings h⟩)
  | add =>
    simp only [resultTy?] at hty
    split at hty
    · rename_i h _
      exact .inr (.inl (numbers (Bool.and_eq_true_iff.1 h)))
    · rename_i h _
      exact .inr (.inl (numbers (Bool.and_eq_true_iff.1 h)))
    · rename_i h
      exact .inr (.inr ⟨.inl rfl, strings (Bool.and_eq_true_iff.1 h)⟩)
    · cases hty

/-- On two numbers only a division can fail. -/
theorem apply_numbers_eq_error (hop : op.isShortCircuit = false) {a b : Number}
    {error : RuntimeError} (h : op.apply (.number a) (.number b) = .error error) :
    error = .zeroDivision := by
  cases op with
  | and | or => cases hop
  | eq | ne | lt | le | gt | ge | add | sub | mul => cases h
  | div | rem =>
    simp only [apply, arithmetic] at h
    split at h <;> cases h
    rfl

/-- A binary operator on operands of its types fails on a zero divisor only. -/
theorem apply_eq_error (hop : op.isShortCircuit = false)
    (hty : op.resultTy? leftTy rightTy = some ty) (hleft : leftTy.isKnown = true)
    (hright : rightTy.isKnown = true) (hl : leftTy.accepts left = true)
    (hr : rightTy.accepts right = true) {error : RuntimeError}
    (h : op.apply left right = .error error) : error = .zeroDivision := by
  rcases operands_of_resultTy? hop hty hleft hright hl hr with
    (rfl | rfl) | ⟨a, b, rfl, rfl⟩ | ⟨hstring, s, t, rfl, rfl⟩
  · cases h
  · cases h
  · exact apply_numbers_eq_error hop h
  · -- the operators that take strings
    rcases hstring with rfl | harith
    · cases h
    · cases op with
      | and | or => cases hop
      | add | sub | mul | div | rem => cases harith
      | _ => cases h

end BinaryOp

/-- A field that the class of the target has can be read, unless the target is `none`. -/
theorem Value.field_eq_error {cls : ClassDef} {target : Value} {name : String} {index : Nat}
    {field : Field} {error : RuntimeError} (hfits : target.Fits)
    (htarget : (Ty.object cls).accepts target = true)
    (hfield : cls.field? name = some (index, field))
    (h : target.field name = .error error) : error = .nullReference name := by
  cases target with
  | none =>
    cases h
    rfl
  | object id cls' fields =>
    rw [Ty.accepts, beq_iff_eq] at htarget
    subst htarget
    obtain ⟨hindex, hget⟩ := ClassOver.field?_eq_some.1 hfield
    have hfits : List.Forall₂ (fun (field : Field) value => field.ty.accepts value = true)
        cls'.fields fields := hfits
    -- the object has as many fields as its class, so this one is there
    have hlt : index < fields.length :=
      hfits.length_eq ▸ (List.getElem?_eq_some_iff.1 hget).1
    rw [field_eq_ok.2 ⟨_, _, _, _, rfl, hindex, List.getElem?_eq_getElem hlt⟩] at h
    cases h
  | _ => cases htarget

end ExprTree

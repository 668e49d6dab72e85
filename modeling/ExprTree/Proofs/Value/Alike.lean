import ExprTree.Proofs.Value.Operations

namespace ExprTree

/-!
# Values that only identity tells apart

Of an object or a function, most of evaluation looks at the type alone.
`Value.Alike a b` holds of values of one type that are equal if they are scalars: tests
and unary operators cannot tell them apart, nor can the checks of arguments, and a binary
operator can only by `==` (`Value.Alike.binary_eq`).
-/

namespace Value

/-- Two values of one type, the same if they are scalars. -/
structure Alike (a a' : Value) : Prop where
  typeOf_eq : a.typeOf = a'.typeOf
  eq_of_isScalar : a.isScalar = true → a' = a

namespace Alike

variable {a a' b b' : Value}

/-- Either both are scalars or neither is. -/
theorem isScalar_eq (h : Alike a a') : a.isScalar = a'.isScalar := by
  have htype := h.typeOf_eq
  cases a <;> cases a' <;> first | rfl | cases htype

theorem typeName_eq (h : Alike a a') : a.typeName = a'.typeName := by
  rw [typeName, typeName, h.typeOf_eq]

/-- What a type accepts depends on the type of the value alone. -/
theorem accepts_eq (h : Alike a a') (ty : Ty) : ty.accepts a = ty.accepts a' :=
  Ty.accepts_congr h.typeOf_eq ty

end Alike

end Value

/-- The error of an operation names the types of the operands only. -/
theorem RuntimeError.ofOperands_eq {operands operands' : List Value}
    (h : List.Forall₂ Value.Alike operands operands') (name : String) :
    ofOperands name operands = ofOperands name operands' := by
  have hnames : operands.map (·.typeName) = operands'.map (·.typeName) := by
    induction h with
    | nil => rfl
    | cons hhead _ ih => rw [List.map_cons, List.map_cons, hhead.typeName_eq, ih]
  rw [ofOperands, ofOperands, hnames]

namespace Value.Alike

variable {a a' b b' : Value}

/-- A test takes both for the same truth value, or fails the same way. -/
theorem test_eq (h : Alike a a') (name : String) : a.test name = a'.test name := by
  cases hscalar : a.isScalar with
  | true => rw [h.eq_of_isScalar hscalar]
  | false =>
    rw [test_of_not_isScalar hscalar, test_of_not_isScalar (h.isScalar_eq ▸ hscalar)]
    rw [RuntimeError.ofOperands_eq (.cons h .nil)]

/-- A unary operator gives the same of both. -/
theorem unary_eq (h : Alike a a') (op : UnaryOp) : op.apply a = op.apply a' := by
  cases hscalar : a.isScalar with
  | true => rw [h.eq_of_isScalar hscalar]
  | false =>
    rw [UnaryOp.apply_of_not_isScalar hscalar,
      UnaryOp.apply_of_not_isScalar (h.isScalar_eq ▸ hscalar)]
    rw [RuntimeError.ofOperands_eq (.cons h .nil)]

/-- Operators give the same where equality does: nothing else looks at objects and functions. -/
theorem binary_eq (ha : Alike a a') (hb : Alike b b') (hbeq : (a == b) = (a' == b'))
    (op : BinaryOp) : op.apply a b = op.apply a' b' := by
  by_cases heq : op = .eq
  · subst heq
    rw [BinaryOp.apply, BinaryOp.apply, hbeq]
  by_cases hne : op = .ne
  · subst hne
    rw [BinaryOp.apply, BinaryOp.apply, bne, bne, hbeq]
  -- scalars that are alike are equal, and all else is refused by its type
  by_cases hscalar : a.isScalar = true ∧ b.isScalar = true
  · rw [ha.eq_of_isScalar hscalar.1, hb.eq_of_isScalar hscalar.2]
  · have hscalar : a.isScalar = false ∨ b.isScalar = false := by
      rw [← Bool.not_eq_true, ← Bool.not_eq_true]
      exact not_and_or.1 hscalar
    rw [BinaryOp.apply_of_not_isScalar heq hne hscalar, BinaryOp.apply_of_not_isScalar heq hne
      (by rwa [← ha.isScalar_eq, ← hb.isScalar_eq])]
    rw [RuntimeError.ofOperands_eq (.cons ha (.cons hb .nil))]

/-- Arithmetic that is done on numbers directly gives the same of values that are alike. -/
theorem direct_eq (ha : Alike a a') (hb : Alike b b') (hbeq : (a == b) = (a' == b'))
    (op : BinaryOp) : op.direct a b = op.direct a' b' := by
  by_cases hscalar : a.isScalar = true ∧ b.isScalar = true
  · rw [ha.eq_of_isScalar hscalar.1, hb.eq_of_isScalar hscalar.2]
  · have hscalar : a.isScalar = false ∨ b.isScalar = false := by
      rw [← Bool.not_eq_true, ← Bool.not_eq_true]
      exact not_and_or.1 hscalar
    rw [BinaryOp.direct_of_not_isScalar hscalar, BinaryOp.direct_of_not_isScalar
      (by rwa [← ha.isScalar_eq, ← hb.isScalar_eq]), binary_eq ha hb hbeq]

end Value.Alike

/-! ### Checks of arguments -/

section

variable {values values' : List Value} (h : List.Forall₂ Value.Alike values values')

include h

/-- The same place does not take its value, or all do. -/
theorem firstMisfit?_rel {τ : Type} (typeOf : τ → Ty) (places : List τ) :
    Option.Rel (fun (p q : τ × Value) => p.1 = q.1 ∧ Value.Alike p.2 q.2)
      (firstMisfit? typeOf places values) (firstMisfit? typeOf places values') := by
  induction h generalizing places with
  | nil => cases places <;> exact .none
  | cons hhead _ ih =>
    cases places with
    | nil => exact .none
    | cons place places =>
      rw [firstMisfit?, firstMisfit?, hhead.accepts_eq]
      split
      · exact ih places
      · exact .some ⟨rfl, hhead⟩

/-- Calls on arguments alike pass the check together, or fail with the same error. -/
theorem checkParameters_eq (params : List Parameter) :
    checkParameters params values = checkParameters params values' := by
  have hrel := firstMisfit?_rel h Parameter.ty params
  rw [checkParameters, checkParameters, h.length_eq]
  generalize firstMisfit? Parameter.ty params values = misfit at hrel ⊢
  generalize firstMisfit? Parameter.ty params values' = misfit' at hrel ⊢
  cases hrel with
  | none => rfl
  | some hmisfit => simp only [hmisfit.1, hmisfit.2.typeName_eq]

/-- Constructor calls on arguments alike pass the check together, or fail with the same error. -/
theorem checkArguments_eq (cls : ClassDef) :
    cls.checkArguments values = cls.checkArguments values' := by
  have hrel := firstMisfit?_rel h Typed.ty cls.fields
  rw [ClassOver.checkArguments, ClassOver.checkArguments, h.length_eq]
  generalize firstMisfit? Typed.ty cls.fields values = misfit at hrel ⊢
  generalize firstMisfit? Typed.ty cls.fields values' = misfit' at hrel ⊢
  cases hrel with
  | none => rfl
  | some hmisfit => simp only [hmisfit.1, hmisfit.2.typeName_eq]

end

end ExprTree

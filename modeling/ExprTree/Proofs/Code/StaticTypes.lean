import ExprTree.Proofs.Code.Derivation
import ExprTree.Proofs.Tree.Inference
import ExprTree.Proofs.Value.Operations

namespace ExprTree

/-!
# Static types

Validation infers a type for each node of a tree, and emission computes one of its own, from
the code of the operands.  Without folding, and without extension nodes, the two are the same
wherever validation succeeds (`Emits.ty_eq`).

Emission relies on its types for the nodes that read a field by its position or expect
numbers.  `Expr.Specialises` says that these are the nodes for which validation finds a known
class or known numbers.
-/

/-! ### Nodes that rely on types -/

namespace Code

variable {κ : Type}

/-- A field that is read by its position. -/
def isFieldAt : Code κ → Bool
  | fieldAt .. => true
  | _ => false

/-- An operator that expects two numbers. -/
def isArithmetic : Code κ → Bool
  | arithmetic .. => true
  | _ => false

end Code

/-- The code of a node relies on types where typing finds them: on the class of the target of a
    field access, and on the operands of arithmetic.  The arguments are those of
    `Expr.infer`. -/
structure Expr.Specialises (limit : Nat) (scopes : List (List Parameter)) (depth : Nat)
    (expr : Expr Value) (code : Code Value) : Prop where
  fieldAt : code.isFieldAt = true ↔ ∃ target name cls, expr = .field target name
    ∧ target.infer limit scopes (depth + 1) = .ok (.object cls)
  arithmetic : code.isArithmetic = true ↔ ∃ op left right, expr = .binary op left right
    ∧ op.isArithmetic = true ∧ left.infer limit scopes (depth + 1) = .ok .number
    ∧ right.infer limit scopes (depth + 1) = .ok .number

/-- Code that relies on nothing, for a node that gives no reason to. -/
theorem Expr.Specialises.plain {limit : Nat} {scopes : List (List Parameter)} {depth : Nat}
    {expr : Expr Value} {code : Code Value} (hfield : code.isFieldAt = false)
    (harithmetic : code.isArithmetic = false)
    (hnotField : ∀ target name, expr ≠ .field target name)
    (hnotBinary : ∀ op left right, expr ≠ .binary op left right) :
    expr.Specialises limit scopes depth code := by
  -- neither side of either equivalence holds
  refine ⟨⟨fun h => ?_, ?_⟩, ⟨fun h => ?_, ?_⟩⟩
  · rw [hfield] at h
    cases h
  · rintro ⟨target, name, _, rfl, _⟩
    exact absurd rfl (hnotField target name)
  · rw [harithmetic] at h
    cases h
  · rintro ⟨op, left, right, rfl, _⟩
    exact absurd rfl (hnotBinary op left right)

/-! ### Types of code -/

/-- The type of a field access is the one that typing gives for the type of the target. -/
theorem emitField_ty {target : Emitted} {name : String} {ty : Ty}
    (h : target.ty.fieldTy name = .ok ty) : (emitField target name).ty = ty := by
  unfold Ty.fieldTy at h
  unfold emitField
  split at h
  · rename_i cls hty
    split at h
    · -- a field of a known class has the type that the class declares
      rename_i index field hfield
      cases h
      rw [hty]
      simp only [hfield]
    · cases h
  · rename_i hty
    cases h
    rw [hty]
  · cases h

/-- A field is read by its position if typing knows the class of the target. -/
theorem isFieldAt_emitField {target : Emitted} {name : String} {ty : Ty}
    (h : target.ty.fieldTy name = .ok ty) :
    (emitField target name).code.isFieldAt = true ↔ ∃ cls, target.ty = .object cls := by
  unfold Ty.fieldTy at h
  unfold emitField
  split at h
  · rename_i cls hty
    split at h
    · -- only a known class has an index for the field
      rename_i index field hfield
      rw [hty]
      simp [hfield, Code.isFieldAt]
    · cases h
  · rename_i hty
    rw [hty]
    exact ⟨nofun, nofun⟩
  · cases h

/-- The type of an operator does not depend on whether its operands are checked. -/
theorem emitBinary_ty {op : BinaryOp} {left right : Emitted} :
    (emitBinary op left right).ty = (op.resultTy? left.ty right.ty).getD .any := by
  unfold emitBinary
  dsimp only
  split <;> rfl

/-- Checks are left out for arithmetic on two numbers only. -/
theorem isArithmetic_emitBinary {op : BinaryOp} {left right : Emitted} :
    (emitBinary op left right).code.isArithmetic = true
      ↔ op.isArithmetic = true ∧ left.ty = .number ∧ right.ty = .number := by
  unfold emitBinary
  dsimp only
  split
  · rename_i h
    exact ⟨fun _ => ⟨h.2.2, h.1, h.2.1⟩, fun _ => rfl⟩
  · rename_i h
    exact ⟨nofun, fun ⟨hop, hleft, hright⟩ => absurd ⟨hleft, hright, hop⟩ h⟩

namespace Emits

variable {options : CompilerOptions} {spot : Spot} {state after : EmitState}
  {expr : Expr Value} {emitted : Emitted}

/-- **The two inferences agree.**  Without folding, the type that comes with the code of a tree
    without extension nodes is the one that validation infers. -/
theorem ty_eq (hfold : options.foldConstants = false)
    (h : Emits options spot state expr emitted after) (hfree : expr.isExtensionFree = true)
    {limit : Nat} {scopes : List (List Parameter)} {depth : Nat} {ty : Ty}
    (hty : expr.infer limit scopes depth = .ok ty) : emitted.ty = ty := by
  refine induction (motive := fun _ _ expr emitted _ => ∀ scopes depth ty,
    expr.isExtensionFree = true → expr.infer limit scopes depth = .ok ty → emitted.ty = ty)
    ?_ h scopes depth ty hfree hty
  intro spot state expr emitted after hrule scopes depth ty hfree hty
  -- one case for each kind of node: the operands have the types that validation found for them,
  -- and what each inference makes of these is the same
  cases hrule with
  | literal | pooled | embedded => exact (Expr.infer_constant hty).symm
  | slot => exact (Expr.infer_parameter hty).2.symm
  | new => exact (Expr.infer_new hty).1.symm
  | field htarget =>
    obtain ⟨targetTy, htargetTy, hfield⟩ := Expr.infer_field hty
    rw [← htarget.2 _ _ _ hfree htargetTy] at hfield
    exact emitField_ty hfield
  | unary hoperand =>
    obtain ⟨operandTy, hoperandTy, hresult⟩ := Expr.infer_unary hty
    rw [emitUnary, hoperand.2 _ _ _ hfree hoperandTy, hresult]
    rfl
  | shortCircuit _ _ _ _ hop =>
    obtain ⟨_, _, _, _, hresult⟩ := Expr.infer_binary hty
    exact (BinaryOp.resultTy?_shortCircuit hop hresult).symm
  | binary hleft _ hright =>
    obtain ⟨leftTy, rightTy, hleftTy, hrightTy, hresult⟩ := Expr.infer_binary hty
    obtain ⟨hleftFree, hrightFree⟩ := Bool.and_eq_true_iff.1 hfree
    rw [emitBinary_ty, hleft.2 _ _ _ hleftFree hleftTy, hright.2 _ _ _ hrightFree hrightTy, hresult]
    rfl
  | conditional _ _ hyes hno =>
    obtain ⟨_, yesTy, noTy, hyesTy, hnoTy, rfl⟩ := Expr.infer_conditional hty
    obtain ⟨hfree, hnoFree⟩ := Bool.and_eq_true_iff.1 hfree
    obtain ⟨_, hyesFree⟩ := Bool.and_eq_true_iff.1 hfree
    show Ty.join _ _ = _
    rw [hyes.2 _ _ _ hyesFree hyesTy, hno.2 _ _ _ hnoFree hnoTy]
  | lambda => exact (Expr.infer_lambda hty).2.symm
  | direct _ hbody =>
    exact hbody.2 _ _ _ (Bool.and_eq_true_iff.1 hfree).1 (Expr.infer_direct hty).1
  | invoke hlambda => exact (Expr.infer_invoke hlambda hty).2.2.symm
  | foldedUnary _ hsome | settled _ hsome | foldedBinary _ _ _ hsome | taken _ hsome =>
    exact absurd hsome (Emit.folding_ne_some hfold)
  | extension => cases hfree

/-- **Code relies on types where validation finds them**, and nowhere else. -/
theorem specialises (hfold : options.foldConstants = false)
    (h : Emits options spot state expr emitted after) (hfree : expr.isExtensionFree = true)
    {limit : Nat} {scopes : List (List Parameter)} {depth : Nat} {ty : Ty}
    (hty : expr.infer limit scopes depth = .ok ty) :
    expr.Specialises limit scopes depth emitted.code := by
  cases emits_iff.1 h with
  | literal | pooled | embedded | slot | unary | conditional | lambda | direct | invoke =>
    exact .plain rfl rfl nofun nofun
  | new =>
    exact .plain (read_emitNew Code.isFieldAt fun _ => rfl)
      (read_emitNew Code.isArithmetic fun _ => rfl) nofun nofun
  | field htarget =>
    obtain ⟨targetTy, htargetTy, hfield⟩ := Expr.infer_field hty
    -- emission has inferred the same type for the object as validation
    obtain rfl := htarget.ty_eq hfold hfree htargetTy
    refine ⟨(isFieldAt_emitField hfield).trans ⟨?_, ?_⟩, ?_⟩
    · rintro ⟨cls, hcls⟩
      exact ⟨_, _, cls, rfl, hcls ▸ htargetTy⟩
    · rintro ⟨_, _, cls, heq, hcls⟩
      cases heq
      exact ⟨cls, Except.ok.inj (htargetTy.symm.trans hcls)⟩
    · rw [read_emitField Code.isArithmetic fun _ _ => rfl]
      exact ⟨nofun, nofun⟩
  | shortCircuit _ _ _ _ hop =>
    refine ⟨⟨nofun, nofun⟩, nofun, ?_⟩
    rintro ⟨_, _, _, heq, harithmetic, _⟩
    cases heq
    rw [BinaryOp.isShortCircuit_of_isArithmetic harithmetic] at hop
    cases hop
  | binary hleft _ hright =>
    obtain ⟨leftTy, rightTy, hleftTy, hrightTy, _⟩ := Expr.infer_binary hty
    obtain ⟨hleftFree, hrightFree⟩ := Bool.and_eq_true_iff.1 hfree
    obtain rfl := hleft.ty_eq hfold hleftFree hleftTy
    obtain rfl := hright.ty_eq hfold hrightFree hrightTy
    refine ⟨?_, isArithmetic_emitBinary.trans ⟨?_, ?_⟩⟩
    · rw [read_emitBinary Code.isFieldAt fun _ _ => rfl]
      exact ⟨nofun, nofun⟩
    · rintro ⟨hop, hleftNumber, hrightNumber⟩
      exact ⟨_, _, _, rfl, hop, hleftNumber ▸ hleftTy, hrightNumber ▸ hrightTy⟩
    · rintro ⟨_, _, _, heq, hop, hleftNumber, hrightNumber⟩
      cases heq
      exact ⟨hop, Except.ok.inj (hleftTy.symm.trans hleftNumber),
        Except.ok.inj (hrightTy.symm.trans hrightNumber)⟩
  -- without folding nothing is folded
  | foldedUnary _ hsome | settled _ hsome | foldedBinary _ _ _ hsome | taken _ hsome =>
    exact absurd hsome (Emit.folding_ne_some hfold)
  | extension => cases hfree

end Emits

end ExprTree

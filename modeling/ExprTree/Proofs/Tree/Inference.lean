import ExprTree.Expr.Typing
import ExprTree.Proofs.Tree.Basic
import Mathlib.Data.List.Forall2

namespace ExprTree

/-!
# What typing checks

A type that is inferred for a node comes with types for its operands.  There is
one lemma for each kind of node that takes a successful inference apart, and
from these `Expr.bound_of_infer`: what a well-typed tree reads is declared around
it.
-/

-- Inference is opened one node at a time, here and wherever a type is known.
attribute [grind =] Expr.infer Expr.inferAll Expr.checkAll

/-- A sequence of steps succeeds when both do. -/
theorem bind_eq_ok {ε α β : Type} {first : Except ε α} {next : α → Except ε β} {b : β} :
    (first >>= next) = .ok b ↔ ∃ a, first = .ok a ∧ next a = .ok b := by
  cases first with
  | error error => simp [bind, Except.bind]
  | ok a => simp [bind, Except.bind]

/-- A check that goes on has found no name twice. -/
theorem declaringOnce_eq_ok {α : Type} {params : List Parameter} {next : Except CompileError α}
    {a : α} (h : declaringOnce params next = .ok a) : next = .ok a := by
  unfold declaringOnce at h
  split at h
  · cases h
  · exact h

namespace Expr

variable {limit depth : Nat} {scopes : List (List Parameter)} {ty : Ty}

/-! ### Lists of trees -/

/-- Operands that are typed together are typed each. -/
theorem infer_of_inferAll {exprs : List (Expr Value)} {tys : List Ty}
    (h : inferAll limit scopes depth exprs = .ok tys) :
    ∀ expr ∈ exprs, ∃ ty, expr.infer limit scopes depth = .ok ty := by
  induction exprs generalizing tys with
  | nil => simp
  | cons expr rest ih =>
    rw [inferAll] at h
    obtain ⟨ty, hhead, h⟩ := bind_eq_ok.1 h
    obtain ⟨others, hrest, _⟩ := bind_eq_ok.1 h
    exact List.forall_mem_cons.2 ⟨⟨ty, hhead⟩, ih hrest⟩

/-- Arguments that pass their checks have types that may be stored where they are expected. -/
theorem assignable_of_checkAll {places : List Place} {args : List (Expr Value)}
    (hlength : args.length = places.length)
    (h : checkAll limit scopes depth places args = .ok ()) :
    List.Forall₂ (fun (place : Place) arg => ∃ ty, arg.infer limit scopes depth = .ok ty
      ∧ place.2.isAssignableFrom ty = true) places args := by
  induction args generalizing places with
  | nil => exact List.eq_nil_of_length_eq_zero hlength.symm ▸ .nil
  | cons arg rest ih =>
    cases places with
    | nil => cases hlength
    | cons place places =>
      rw [checkAll] at h
      -- arguments are checked in order, each against the place it is given for
      obtain ⟨ty, hhead, h⟩ := bind_eq_ok.1 h
      split at h
      · rename_i hassignable
        exact .cons ⟨ty, hhead, hassignable⟩ (ih (Nat.succ.inj hlength) h)
      · cases h

/-- Where every argument has a type that fits its place, all of them have types. -/
theorem infer_of_assignable {places : List Place} {args : List (Expr Value)}
    (h : List.Forall₂ (fun (place : Place) arg => ∃ ty, arg.infer limit scopes depth = .ok ty
      ∧ place.2.isAssignableFrom ty = true) places args) :
    ∀ arg ∈ args, ∃ ty, arg.infer limit scopes depth = .ok ty := by
  induction h with
  | nil => simp
  | cons hhead _ ih =>
    obtain ⟨ty, hty, _⟩ := hhead
    exact List.forall_mem_cons.2 ⟨⟨ty, hty⟩, ih⟩

/-! ### Nodes -/

/-- A constant has the type of its value. -/
theorem infer_constant {value : Value} (h : (constant value).infer limit scopes depth = .ok ty) :
    ty = value.typeOf := by
  rw [infer] at h
  split at h <;> cases h
  rfl

/-- A parameter is declared around, and has the type that it is declared with. -/
theorem infer_parameter {param : Parameter}
    (h : (parameter param).infer limit scopes depth = .ok ty) :
    (∃ scope ∈ scopes, param ∈ scope) ∧ ty = param.ty := by
  rw [infer] at h
  split at h
  · cases h
  · split at h
    · rename_i hbound
      cases h
      simpa using hbound
    · cases h

/-- The arguments of a constructor call may be stored in the fields of the class. -/
theorem assignable_of_new {cls : ClassDef} {args : List (Expr Value)}
    (h : (new cls args).infer limit scopes depth = .ok ty) :
    List.Forall₂ (fun (place : Place) arg => ∃ ty, arg.infer limit scopes (depth + 1) = .ok ty
      ∧ place.2.isAssignableFrom ty = true) cls.places args ∧ ty = .object cls := by
  rw [infer] at h
  split at h
  · cases h
  · split at h
    · cases h
    · rename_i hlength
      obtain ⟨⟨⟩, hargs, h⟩ := bind_eq_ok.1 h
      cases h
      refine ⟨assignable_of_checkAll ?_ hargs, rfl⟩
      rw [ClassOver.places, List.length_map]
      exact Decidable.not_not.1 hlength

/-- An object is of its class, and its arguments are typed. -/
theorem infer_new {cls : ClassDef} {args : List (Expr Value)}
    (h : (new cls args).infer limit scopes depth = .ok ty) :
    ty = .object cls ∧ ∀ arg ∈ args, ∃ ty, arg.infer limit scopes (depth + 1) = .ok ty :=
  ⟨(assignable_of_new h).2, infer_of_assignable (assignable_of_new h).1⟩

/-- The type of a field is asked of the type of its target. -/
theorem infer_field {target : Expr Value} {name : String}
    (h : (field target name).infer limit scopes depth = .ok ty) :
    ∃ targetTy, target.infer limit scopes (depth + 1) = .ok targetTy
      ∧ targetTy.fieldTy name = .ok ty := by
  rw [infer] at h
  split at h
  · cases h
  · exact bind_eq_ok.1 h

/-- An operator takes the type of its operand. -/
theorem infer_unary {op : UnaryOp} {operand : Expr Value}
    (h : (unary op operand).infer limit scopes depth = .ok ty) :
    ∃ operandTy, operand.infer limit scopes (depth + 1) = .ok operandTy
      ∧ op.resultTy? operandTy = some ty := by
  rw [infer] at h
  split at h
  · cases h
  · obtain ⟨operandTy, hoperand, h⟩ := bind_eq_ok.1 h
    split at h
    · rename_i found hfound
      cases h
      exact ⟨operandTy, hoperand, hfound⟩
    · cases h

/-- A binary operator takes the types of both operands. -/
theorem infer_binary {op : BinaryOp} {left right : Expr Value}
    (h : (binary op left right).infer limit scopes depth = .ok ty) :
    ∃ leftTy rightTy, left.infer limit scopes (depth + 1) = .ok leftTy
      ∧ right.infer limit scopes (depth + 1) = .ok rightTy
      ∧ op.resultTy? leftTy rightTy = some ty := by
  rw [infer] at h
  split at h
  · cases h
  · obtain ⟨leftTy, hleft, h⟩ := bind_eq_ok.1 h
    obtain ⟨rightTy, hright, h⟩ := bind_eq_ok.1 h
    split at h
    · rename_i found hfound
      cases h
      exact ⟨leftTy, rightTy, hleft, hright, hfound⟩
    · cases h

/-- The test of a conditional may be stored where a bool is expected, and the type is
    that of both branches. -/
theorem assignable_of_conditional {test yes no : Expr Value}
    (h : (conditional test yes no).infer limit scopes depth = .ok ty) :
    (∃ testTy, test.infer limit scopes (depth + 1) = .ok testTy
        ∧ Ty.isAssignableFrom .bool testTy = true)
      ∧ ∃ yesTy noTy, yes.infer limit scopes (depth + 1) = .ok yesTy
        ∧ no.infer limit scopes (depth + 1) = .ok noTy ∧ ty = yesTy.join noTy := by
  rw [infer] at h
  split at h
  · cases h
  · obtain ⟨testTy, htest, h⟩ := bind_eq_ok.1 h
    split at h
    · rename_i hassignable
      obtain ⟨yesTy, hyes, h⟩ := bind_eq_ok.1 h
      obtain ⟨noTy, hno, h⟩ := bind_eq_ok.1 h
      cases h
      exact ⟨⟨testTy, htest, hassignable⟩, yesTy, noTy, hyes, hno, rfl⟩
    · cases h

/-- A conditional has what its branches have in common. -/
theorem infer_conditional {test yes no : Expr Value}
    (h : (conditional test yes no).infer limit scopes depth = .ok ty) :
    (∃ testTy, test.infer limit scopes (depth + 1) = .ok testTy)
      ∧ ∃ yesTy noTy, yes.infer limit scopes (depth + 1) = .ok yesTy
        ∧ no.infer limit scopes (depth + 1) = .ok noTy ∧ ty = yesTy.join noTy := by
  obtain ⟨⟨testTy, htest, _⟩, hbranches⟩ := assignable_of_conditional h
  exact ⟨⟨testTy, htest⟩, hbranches⟩

/-- A lambda is a function of so many parameters, and its body is typed behind them. -/
theorem infer_lambda {params : List Parameter} {body : Expr Value}
    (h : (lambda params body).infer limit scopes depth = .ok ty) :
    (∃ bodyTy, body.infer limit (params :: scopes) (depth + 1) = .ok bodyTy)
      ∧ ty = .function (some params.length) := by
  rw [infer] at h
  split at h
  · cases h
  · obtain ⟨bodyTy, hbody, h⟩ := bind_eq_ok.1 h
    cases h
    exact ⟨⟨bodyTy, declaringOnce_eq_ok hbody⟩, rfl⟩

/-- The arguments of a direct invocation may be stored in the parameters, and the type
    is that of the body. -/
theorem assignable_of_direct {params : List Parameter} {body : Expr Value}
    {args : List (Expr Value)}
    (h : (invoke (lambda params body) args).infer limit scopes depth = .ok ty) :
    List.Forall₂ (fun (place : Place) arg => ∃ ty, arg.infer limit scopes (depth + 1) = .ok ty
      ∧ place.2.isAssignableFrom ty = true) (parameterPlaces params) args
      ∧ body.infer limit (params :: scopes) (depth + 1) = .ok ty := by
  rw [infer] at h
  split at h
  · cases h
  · split at h
    · cases h
    · rename_i hlength
      obtain ⟨⟨⟩, hargs, h⟩ := bind_eq_ok.1 h
      refine ⟨assignable_of_checkAll ?_ hargs, declaringOnce_eq_ok h⟩
      rw [parameterPlaces, List.length_map]
      exact (Decidable.not_not.1 hlength).symm

/-- A direct call has the type of the body. -/
theorem infer_direct {params : List Parameter} {body : Expr Value} {args : List (Expr Value)}
    (h : (invoke (lambda params body) args).infer limit scopes depth = .ok ty) :
    body.infer limit (params :: scopes) (depth + 1) = .ok ty
      ∧ ∀ arg ∈ args, ∃ ty, arg.infer limit scopes (depth + 1) = .ok ty :=
  ⟨(assignable_of_direct h).2, infer_of_assignable (assignable_of_direct h).1⟩

/-- How an invocation is typed whose target is not a lambda. -/
theorem infer_invoke_eq {target : Expr Value}
    (hlambda : ∀ params body, target ≠ .lambda params body) {args : List (Expr Value)} :
    (invoke target args).infer limit scopes depth
      = if limit ≤ depth then .error (.tooDeep limit)
        else target.infer limit scopes (depth + 1) >>= fun targetTy =>
          inferAll limit scopes (depth + 1) args >>= fun _ =>
            targetTy.invocationTy args.length := by
  cases target with
  | lambda params body => exact absurd rfl (hlambda params body)
  | _ => rfl

/-- Every other target leaves the type of the result unknown. -/
theorem infer_invoke {target : Expr Value} (hlambda : ∀ params body, target ≠ .lambda params body)
    {args : List (Expr Value)} (h : (invoke target args).infer limit scopes depth = .ok ty) :
    (∃ targetTy, target.infer limit scopes (depth + 1) = .ok targetTy)
      ∧ (∀ arg ∈ args, ∃ ty, arg.infer limit scopes (depth + 1) = .ok ty) ∧ ty = .any := by
  rw [infer_invoke_eq hlambda] at h
  split at h
  · cases h
  · obtain ⟨targetTy, htarget, h⟩ := bind_eq_ok.1 h
    obtain ⟨tys, hargs, h⟩ := bind_eq_ok.1 h
    refine ⟨⟨targetTy, htarget⟩, infer_of_inferAll hargs, ?_⟩
    -- whichever function it is, nothing is known of what it gives
    unfold Ty.invocationTy at h
    split at h
    · split at h <;> cases h
      rfl
    · cases h
      rfl
    · cases h
      rfl
    · cases h

/-- The operands of an extension node are typed. -/
theorem infer_extension {node : ExtensionNode Value} {operands : List (Expr Value)}
    {reduction : Option (Expr Value)}
    (h : (extension node operands reduction).infer limit scopes depth = .ok ty) :
    ∀ operand ∈ operands, ∃ ty, operand.infer limit scopes (depth + 1) = .ok ty := by
  rw [infer] at h
  split at h
  · cases h
  · obtain ⟨tys, hoperands, _⟩ := bind_eq_ok.1 h
    exact infer_of_inferAll hoperands

/-! ### Operands -/

/-- The operands of a node are typed with it, but for a lambda that is invoked at once. -/
theorem infer_of_child {expr sub : Expr Value} (h : expr.infer limit scopes depth = .ok ty)
    (hsub : sub ∈ expr.children)
    (hdirect : ∀ params body args, expr ≠ .invoke (.lambda params body) args) :
    ∃ subTy, sub.infer limit scopes (depth + 1) = .ok subTy := by
  cases expr with
  | constant | parameter | lambda => cases hsub
  | new => exact (infer_new h).2 sub hsub
  | field =>
    obtain ⟨targetTy, htarget, _⟩ := infer_field h
    exact ⟨targetTy, List.mem_singleton.1 hsub ▸ htarget⟩
  | unary =>
    obtain ⟨operandTy, hoperand, _⟩ := infer_unary h
    exact ⟨operandTy, List.mem_singleton.1 hsub ▸ hoperand⟩
  | binary =>
    obtain ⟨leftTy, rightTy, hleft, hright, _⟩ := infer_binary h
    rcases List.mem_pair.1 hsub with rfl | rfl
    · exact ⟨leftTy, hleft⟩
    · exact ⟨rightTy, hright⟩
  | conditional =>
    obtain ⟨htest, yesTy, noTy, hyes, hno, _⟩ := infer_conditional h
    simp only [children, List.mem_cons, List.not_mem_nil, or_false] at hsub
    rcases hsub with rfl | rfl | rfl
    · exact htest
    · exact ⟨yesTy, hyes⟩
    · exact ⟨noTy, hno⟩
  | invoke target args =>
    obtain ⟨htarget, hargs, _⟩ := infer_invoke (fun params body heq =>
      hdirect params body args (heq ▸ rfl)) h
    rcases List.mem_cons.1 hsub with rfl | hsub
    · exact htarget
    · exact hargs sub hsub
  | extension => exact infer_extension h sub hsub

/-! ### Parameters -/

/-- **Everything that a well-typed tree reads is declared around it.** -/
theorem bound_of_infer {expr : Expr Value} (h : expr.infer limit scopes depth = .ok ty) :
    ∀ param ∈ expr.reads, ∃ scope ∈ scopes, param ∈ scope := by
  induction expr generalizing scopes depth ty with
  | constant value => simp [reads]
  | parameter param =>
    simpa only [reads, List.mem_singleton, forall_eq] using (infer_parameter h).1
  | new cls args ih =>
    intro param hparam
    obtain ⟨arg, harg, hparam⟩ := mem_readsOfAll.1 hparam
    obtain ⟨_, hty⟩ := (infer_new h).2 arg harg
    exact ih arg harg hty param hparam
  | field target name ih =>
    obtain ⟨_, htarget, _⟩ := infer_field h
    exact ih htarget
  | unary op operand ih =>
    obtain ⟨_, hoperand, _⟩ := infer_unary h
    exact ih hoperand
  | binary op left right ihl ihr =>
    obtain ⟨_, _, hleft, hright, _⟩ := infer_binary h
    exact List.forall_mem_append.2 ⟨ihl hleft, ihr hright⟩
  | conditional test yes no iht ihy ihn =>
    obtain ⟨⟨_, htest⟩, _, _, hyes, hno, _⟩ := infer_conditional h
    exact List.forall_mem_append.2 ⟨List.forall_mem_append.2 ⟨iht htest, ihy hyes⟩, ihn hno⟩
  | lambda params body ih =>
    intro param hparam
    obtain ⟨hparam, hfree⟩ := mem_reads_lambda.1 hparam
    obtain ⟨⟨_, hbody⟩, _⟩ := infer_lambda h
    simpa [hfree] using ih hbody param hparam
  | invoke target args iht ihb ih =>
    -- arguments stand in the scopes of the call, also where the lambda is called directly
    have hargs : (∀ arg ∈ args, ∃ ty, arg.infer limit scopes (depth + 1) = .ok ty) →
        ∀ param ∈ readsOfAll args, ∃ scope ∈ scopes, param ∈ scope := fun htys param hparam => by
      obtain ⟨arg, harg, hparam⟩ := mem_readsOfAll.1 hparam
      obtain ⟨_, hty⟩ := htys arg harg
      exact ih arg harg hty param hparam
    obtain ⟨params, body, rfl⟩ | hlambda := target.lambda_or_ne
    · obtain ⟨hbody, htys⟩ := infer_direct h
      refine List.forall_mem_append.2 ⟨fun param hparam => ?_, hargs htys⟩
      obtain ⟨hparam, hfree⟩ := mem_reads_lambda.1 hparam
      simpa [hfree] using ihb params body rfl hbody param hparam
    · obtain ⟨⟨_, htarget⟩, htys, _⟩ :=
        infer_invoke hlambda h
      exact List.forall_mem_append.2 ⟨iht htarget, hargs htys⟩
  | extension node operands reduction ih _ =>
    intro param hparam
    obtain ⟨operand, hoperand, hparam⟩ := mem_readsOfAll.1 hparam
    obtain ⟨_, hty⟩ := infer_extension h operand hoperand
    exact ih operand hoperand hty param hparam

end Expr

/-- The body of a valid lambda reads only what the lambda declares. -/
theorem Lambda.reads_body_of_validate {lambda : Lambda Value} {limit : Nat} {ty : Ty}
    (h : lambda.validate limit = .ok ty) : lambda.body.reads ⊆ lambda.params := by
  intro param hparam
  obtain ⟨scope, hscope, hmem⟩ := Expr.bound_of_infer (declaringOnce_eq_ok h) param hparam
  rwa [List.mem_singleton.1 hscope] at hmem

end ExprTree

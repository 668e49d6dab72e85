import ExprTree.Proofs.Tree.Occurrence

namespace ExprTree

/-!
# Well-bound trees

In a well-bound tree every parameter is declared by a lambda around it, and no lambda
declares a parameter twice (`Expr.WellBound`).

What validation can find wrong with a tree depends on that (`Expr.raises_infer`).  Any tree
may be nested too deeply, or have types and counts that do not fit.  Only one that is not
well bound has other errors, and none has `notSupported`.  The parameter that is reported as
unbound is one that the tree reads.
-/

variable {κ : Type}

namespace Expr

mutual

/-- Parameters are declared around them, and declared once, where `scopes` lists what the
    lambdas around the tree declare. -/
def WellBound (scopes : List (List Parameter)) : Expr κ → Prop
  | constant _ => True
  | parameter param => ∃ scope ∈ scopes, param ∈ scope
  | new _ args => AllWellBound scopes args
  | field target _ => target.WellBound scopes
  | unary _ operand => operand.WellBound scopes
  | binary _ left right => left.WellBound scopes ∧ right.WellBound scopes
  | conditional test yes no =>
    test.WellBound scopes ∧ yes.WellBound scopes ∧ no.WellBound scopes
  | lambda params body => params.Nodup ∧ body.WellBound (params :: scopes)
  | invoke target args => target.WellBound scopes ∧ AllWellBound scopes args
  | extension _ operands _ => AllWellBound scopes operands

/-- The same for several trees. -/
def AllWellBound (scopes : List (List Parameter)) : List (Expr κ) → Prop
  | [] => True
  | expr :: rest => expr.WellBound scopes ∧ AllWellBound scopes rest

end

theorem allWellBound_iff {scopes : List (List Parameter)} {exprs : List (Expr κ)} :
    AllWellBound scopes exprs ↔ ∀ expr ∈ exprs, expr.WellBound scopes := by
  induction exprs with
  | nil => simp [AllWellBound]
  | cons expr rest ih => simp [AllWellBound, ih]

/-- The operands of a well-bound tree are well bound. -/
theorem WellBound.child {scopes : List (List Parameter)} {expr sub : Expr κ}
    (h : expr.WellBound scopes) (hsub : sub ∈ expr.children) : sub.WellBound scopes := by
  -- a lambda has no operands: its body is well bound in one more scope
  cases expr with
  | constant | parameter | lambda => cases hsub
  | new | extension => exact allWellBound_iff.1 h sub hsub
  | field | unary => exact List.mem_singleton.1 hsub ▸ h
  | binary =>
    rcases List.mem_pair.1 hsub with rfl | rfl
    · exact h.1
    · exact h.2
  | conditional =>
    simp only [children, List.mem_cons, List.not_mem_nil, or_false] at hsub
    rcases hsub with rfl | rfl | rfl
    · exact h.1
    · exact h.2.1
    · exact h.2.2
  | invoke =>
    rcases List.mem_cons.1 hsub with rfl | hsub
    · exact h.1
    · exact allWellBound_iff.1 h.2 sub hsub

/-- What a well-bound tree reads is declared around it. -/
theorem WellBound.declared {scopes : List (List Parameter)} {expr : Expr κ}
    (h : expr.WellBound scopes) : ∀ param ∈ expr.reads, ∃ scope ∈ scopes, param ∈ scope := by
  have all : ∀ {args : List (Expr κ)} {scopes : List (List Parameter)},
      (∀ arg ∈ args, ∀ {scopes}, arg.WellBound scopes →
        ∀ param ∈ arg.reads, ∃ scope ∈ scopes, param ∈ scope) →
      AllWellBound scopes args → ∀ param ∈ readsOfAll args, ∃ scope ∈ scopes, param ∈ scope := by
    intro args scopes ih h param hparam
    obtain ⟨arg, harg, hparam⟩ := mem_readsOfAll.1 hparam
    exact ih arg harg (allWellBound_iff.1 h arg harg) param hparam
  induction expr generalizing scopes with
  | constant value => exact nofun
  | parameter param => exact List.forall_mem_singleton.2 h
  | new cls args ih => exact all (fun arg harg _ => ih arg harg) h
  | field target name ih => exact ih h
  | unary op operand ih => exact ih h
  | binary op left right ihl ihr => exact List.forall_mem_append.2 ⟨ihl h.1, ihr h.2⟩
  | conditional test yes no iht ihy ihn =>
    obtain ⟨htest, hyes, hno⟩ := h
    exact List.forall_mem_append.2 ⟨List.forall_mem_append.2 ⟨iht htest, ihy hyes⟩, ihn hno⟩
  | lambda params body ih =>
    intro param hparam
    -- what the body reads is declared by this lambda, or by one around it
    obtain ⟨hparam, hfree⟩ := mem_reads_lambda.1 hparam
    simpa [hfree] using ih h.2 param hparam
  | invoke target args iht _ ih =>
    exact List.forall_mem_append.2 ⟨iht h.1, all (fun arg harg _ => ih arg harg) h.2⟩
  | extension node operands reduction ih _ => exact all (fun arg harg _ => ih arg harg) h

end Expr

/-! ### Errors -/

/-- An error that validation raises: every one but `notSupported`. -/
def CompileError.IsValidation : CompileError → Prop
  | .notSupported _ => False
  | _ => True

/-- An error of typing: something is nested too deeply, or types or counts do not fit. -/
def CompileError.IsTyping : CompileError → Prop
  | .unboundParameter _ | .duplicateParameter _ | .notSupported _ => False
  | _ => True

/-- A check raises only errors of one kind. -/
def Raises (kind : CompileError → Prop) {α : Type} (check : Except CompileError α) : Prop :=
  ∀ error, check = .error error → kind error

/-- A check raises no other errors than those of validation. -/
def Checks {α : Type} (check : Except CompileError α) : Prop :=
  ∀ error, check = .error error → error.IsValidation

section

variable {kind : CompileError → Prop} {α β : Type}

theorem raises_ok {a : α} : Raises kind (.ok a) := nofun

theorem raises_error {error : CompileError} (h : kind error) :
    Raises kind (.error error : Except CompileError α) := fun _ heq => by
  cases heq
  exact h

/-- What comes of two checks is of the kinds of both. -/
theorem Raises.bind {first : Except CompileError α} {next : α → Except CompileError β}
    (hfirst : Raises kind first) (hnext : ∀ a, Raises kind (next a)) :
    Raises kind (first >>= next) := by
  cases first with
  | error error => exact raises_error (hfirst error rfl)
  | ok a => exact hnext a

/-- What is checked first raises one error, and what comes after it may raise others. -/
theorem Raises.guard {refused : Prop} [Decidable refused] {error : CompileError}
    {next : Except CompileError α} (herror : kind error) (h : Raises kind next) :
    Raises kind (if refused then .error error else next) := by
  split
  · exact raises_error herror
  · exact h

/-- Parameters are declared once, or there may be an error if they are not. -/
theorem raises_declaringOnce {params : List Parameter} {next : Except CompileError α}
    (honce : (∀ name, kind (.duplicateParameter name)) ∨ params.Nodup) (h : Raises kind next) :
    Raises kind (declaringOnce params next) := by
  unfold declaringOnce
  split
  · rename_i hrepeated
    rcases honce with hkind | hnodup
    · exact raises_error (hkind _)
    · cases hrepeated.symm.trans (firstRepeated?_eq_none.2 hnodup)
  · exact h

end

/-- A tree need not be well bound for errors of this kind: parameters may be declared twice,
    and those that it reads need not be declared around it. -/
structure Expr.Unbinding (kind : CompileError → Prop) (scopes : List (List Parameter))
    (expr : Expr κ) : Prop where
  duplicate : ∀ name, kind (.duplicateParameter name)
  unbound : ∀ param ∈ expr.reads, (∀ scope ∈ scopes, param ∉ scope) →
    kind (.unboundParameter param.name)

namespace Expr.Unbinding

variable {kind : CompileError → Prop} {scopes : List (List Parameter)} {expr sub : Expr κ}

/-- An operand is looked at in the scopes of its node, and reads no more. -/
theorem child (h : expr.Unbinding kind scopes) (hsub : sub ∈ expr.children) :
    sub.Unbinding kind scopes :=
  ⟨h.duplicate, fun param hparam => h.unbound param (reads_subset_of_child hsub hparam)⟩

/-- What the body of a lambda reads and nothing around it declares, the lambda reads. -/
theorem inside {params : List Parameter} {body : Expr κ}
    (h : (Expr.lambda params body).Unbinding kind scopes) :
    body.Unbinding kind (params :: scopes) := by
  refine ⟨h.duplicate, fun param hparam hfree => ?_⟩
  obtain ⟨hparams, hscopes⟩ := List.forall_mem_cons.1 hfree
  exact h.unbound param (mem_reads_lambda.2 ⟨hparam, hparams⟩) hscopes

end Expr.Unbinding

section

variable {kind : CompileError → Prop} (htyping : ∀ error, error.IsTyping → kind error)

include htyping

/-- A field that is missing or asked of the wrong type is an error of typing. -/
theorem Ty.raises_fieldTy (target : Ty) (name : String) : Raises kind (target.fieldTy name) := by
  unfold fieldTy
  split
  · split
    · exact raises_ok
    · exact raises_error (htyping _ trivial)
  · exact raises_ok
  · exact raises_error (htyping _ trivial)

/-- A call of something else than a function, or with another number of arguments, is an error
    of typing. -/
theorem Ty.raises_invocationTy (target : Ty) (argCount : Nat) :
    Raises kind (target.invocationTy argCount) := by
  unfold invocationTy
  split
  · split
    · exact raises_error (htyping _ trivial)
    · exact raises_ok
  · exact raises_ok
  · exact raises_ok
  · exact raises_error (htyping _ trivial)

namespace Expr

variable {limit depth : Nat} {scopes : List (List Parameter)}

omit htyping in
/-- Operands raise what each of them raises. -/
theorem raises_inferAll {exprs : List (Expr Value)}
    (h : ∀ expr ∈ exprs, Raises kind (expr.infer limit scopes depth)) :
    Raises kind (inferAll limit scopes depth exprs) := by
  induction exprs with
  | nil => exact raises_ok
  | cons expr rest ih =>
    rw [List.forall_mem_cons] at h
    rw [inferAll]
    exact h.1.bind fun ty => (ih h.2).bind fun tys => raises_ok

/-- Arguments raise what each of them raises, or do not fit their places. -/
theorem raises_checkAll {args : List (Expr Value)}
    (h : ∀ arg ∈ args, Raises kind (arg.infer limit scopes depth)) (places : List Place) :
    Raises kind (checkAll limit scopes depth places args) := by
  induction args generalizing places with
  | nil => cases places <;> exact raises_ok
  | cons arg rest ih =>
    rw [List.forall_mem_cons] at h
    cases places with
    | nil => exact raises_ok
    | cons place places =>
      rw [checkAll]
      refine h.1.bind fun ty => ?_
      split
      · exact ih h.2 places
      · exact raises_error (htyping _ trivial)

/-- **What is wrong with a tree.**  All errors of typing may come up; the others of validation
    only if the tree is not well bound, and then for a parameter that it reads. -/
theorem raises_infer {expr : Expr Value}
    (hbound : expr.Unbinding kind scopes ∨ expr.WellBound scopes) (depth : Nat) :
    Raises kind (expr.infer limit scopes depth) := by
  have child : ∀ {expr sub : Expr Value} {scopes : List (List Parameter)},
      expr.Unbinding kind scopes ∨ expr.WellBound scopes → sub ∈ expr.children →
      sub.Unbinding kind scopes ∨ sub.WellBound scopes :=
    fun hbound hsub => hbound.imp (·.child hsub) (·.child hsub)
  -- every node looks at its depth first, and may find it nested too deeply
  induction expr generalizing scopes depth with
  | constant value =>
    rw [infer]
    refine .guard (htyping _ trivial) ?_
    exact raises_ok
  | parameter param =>
    rw [infer]
    refine .guard (htyping _ trivial) ?_
    split
    · exact raises_ok
    · rename_i hunbound
      rcases hbound with hkind | hdeclared
      · refine raises_error (hkind.unbound param (List.mem_singleton_self _) ?_)
        simpa using hunbound
      · exact absurd (by simpa [WellBound] using hdeclared) hunbound
  | new cls args ih =>
    have hargs := fun arg harg => ih arg harg (child hbound harg) (depth + 1)
    rw [infer]
    refine .guard (htyping _ trivial) ?_
    refine .guard (htyping _ trivial) ?_
    exact (raises_checkAll htyping hargs _).bind fun _ => raises_ok
  | field target name ih =>
    have htarget := ih (child hbound (List.mem_singleton_self target)) (depth + 1)
    rw [infer]
    refine .guard (htyping _ trivial) ?_
    exact htarget.bind fun targetTy => targetTy.raises_fieldTy htyping name
  | unary op operand ih =>
    have hoperand := ih (child hbound (List.mem_singleton_self operand)) (depth + 1)
    rw [infer]
    refine .guard (htyping _ trivial) ?_
    refine hoperand.bind fun operandTy => ?_
    split
    · exact raises_ok
    · exact raises_error (htyping _ trivial)
  | binary op left right ihl ihr =>
    have hleft := ihl (child hbound (by simp [children])) (depth + 1)
    have hright := ihr (child hbound (by simp [children])) (depth + 1)
    rw [infer]
    refine .guard (htyping _ trivial) ?_
    refine hleft.bind fun leftTy => hright.bind fun rightTy => ?_
    split
    · exact raises_ok
    · exact raises_error (htyping _ trivial)
  | conditional test yes no iht ihy ihn =>
    have htest := iht (child hbound (by simp [children])) (depth + 1)
    have hyes := ihy (child hbound (by simp [children])) (depth + 1)
    have hno := ihn (child hbound (by simp [children])) (depth + 1)
    rw [infer]
    refine .guard (htyping _ trivial) ?_
    refine htest.bind fun testTy => ?_
    split
    · exact hyes.bind fun yesTy => hno.bind fun noTy => raises_ok
    · exact raises_error (htyping _ trivial)
  | lambda params body ih =>
    have honce := hbound.imp Unbinding.duplicate And.left
    have hbody := hbound.imp Unbinding.inside And.right
    rw [infer]
    refine .guard (htyping _ trivial) ?_
    exact (raises_declaringOnce honce (ih hbody _)).bind fun _ => raises_ok
  | invoke target args iht ihb ih =>
    have htarget := child hbound (List.mem_cons_self (a := target) (l := args))
    have hargs := fun arg harg => ih arg harg
      (child hbound (List.mem_cons_of_mem target harg)) (depth + 1)
    obtain ⟨params, body, rfl⟩ | hlambda := target.lambda_or_ne
    · -- a lambda that is invoked at once is not a node of its own
      have honce := htarget.imp Unbinding.duplicate And.left
      have hbody := htarget.imp Unbinding.inside And.right
      rw [infer]
      refine .guard (htyping _ trivial) ?_
      refine .guard (htyping _ trivial) ?_
      exact (raises_checkAll htyping hargs _).bind fun _ =>
        raises_declaringOnce honce (ihb params body rfl hbody _)
    · rw [infer_invoke_eq hlambda]
      refine .guard (htyping _ trivial) ?_
      exact (iht htarget _).bind fun targetTy => (raises_inferAll hargs).bind
        fun _ => targetTy.raises_invocationTy htyping _
  | extension node operands reduction ih _ =>
    have hoperands := fun operand hoperand => ih operand hoperand
      (child hbound hoperand) (depth + 1)
    rw [infer]
    refine .guard (htyping _ trivial) ?_
    exact (raises_inferAll hoperands).bind fun _ => raises_ok

end Expr

end

/-! ### Lambdas -/

namespace Lambda

variable {lambda : Lambda Value}

/-- **Validation raises no other errors than its own**, whatever is wrong with a lambda. -/
theorem checks_validate (lambda : Lambda Value) (limit : Nat) : Checks (lambda.validate limit) :=
  have htyping : ∀ error : CompileError, error.IsTyping → error.IsValidation := fun error h => by
    cases error <;> trivial
  raises_declaringOnce (.inl fun _ => trivial)
    (Expr.raises_infer htyping (.inl ⟨fun _ => trivial, fun _ _ _ => trivial⟩) 0)

/-- **A parameter that is reported as unbound** is one that the lambda reads and does not
    declare. -/
theorem unbound_of_validate {limit : Nat} {name : String}
    (h : lambda.validate limit = .error (.unboundParameter name)) :
    ∃ param ∈ lambda.reads, param.name = name := by
  have hraises : Raises (fun error => ∀ name, error = .unboundParameter name →
      ∃ param ∈ lambda.reads, param.name = name) (lambda.validate limit) := by
    -- an error that a name is declared twice is none of these
    have hduplicate : ∀ name' name, CompileError.duplicateParameter name' = .unboundParameter name →
        ∃ param ∈ lambda.reads, param.name = name := fun _ _ heq => by cases heq
    refine raises_declaringOnce (.inl hduplicate)
      (Expr.raises_infer ?_ (.inl ⟨hduplicate, ?_⟩) 0)
    · rintro _ htyping name rfl
      cases htyping
    · intro param hparam hfree name hname
      cases hname
      exact ⟨param, mem_reads.2 ⟨hparam, hfree _ (List.mem_singleton_self _)⟩, rfl⟩
  exact hraises _ h name rfl

/-- **Nothing but its types is wrong with a well-bound lambda.** -/
theorem types_validate (h : lambda.toExpr.WellBound []) (limit : Nat) :
    Raises CompileError.IsTyping (lambda.validate limit) :=
  raises_declaringOnce (.inr h.1) (Expr.raises_infer (fun _ h => h) (.inr h.2) 0)

/-- Nothing is free in a well-bound lambda. -/
theorem reads_subset_of_wellBound (h : lambda.toExpr.WellBound []) :
    lambda.body.reads ⊆ lambda.params := by
  intro param hparam
  obtain ⟨scope, hscope, hparam⟩ := h.2.declared param hparam
  exact List.mem_singleton.1 hscope ▸ hparam

end Lambda

end ExprTree

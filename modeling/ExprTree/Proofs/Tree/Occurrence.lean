import ExprTree.Proofs.Tree.Inference

namespace ExprTree

/-!
# Where trees stand

The body of a closure runs long after the lambda around it, and all that is left of
that lambda then is an environment.  `Lambda.Occurs` names the place in the source: the
trees that stand in a lambda, each with what the lambdas around it declare, innermost
first.

Validation has gone over every one of them (`Lambda.Occurs.checked`).  So the lambdas
around a tree declare nothing twice (`Lambda.Occurs.nodup`), and a parameter is one
that they declare (`Lambda.Occurs.declared`).
-/

/-- The trees in a lambda, with what the lambdas around each of them declare.  Trees
    that extension nodes could be reduced to are not among them. -/
inductive Lambda.Occurs (lambda : Lambda Value) : List (List Parameter) → Expr Value → Prop
  | root : Occurs lambda [] lambda.toExpr
  | operand {scopes : List (List Parameter)} {expr sub : Expr Value} :
      Occurs lambda scopes expr → sub ∈ expr.children → Occurs lambda scopes sub
  | body {scopes : List (List Parameter)} {params : List Parameter} {body : Expr Value} :
      Occurs lambda scopes (.lambda params body) → Occurs lambda (params :: scopes) body

/-! ### Parameters declared once -/

/-- Nothing is repeated in a list without duplicates, and only there. -/
theorem firstRepeated?_eq_none {params : List Parameter} :
    firstRepeated? params = none ↔ params.Nodup := by
  -- for any parameters that were seen before
  have hgo : ∀ seen, firstRepeated?.go seen params = none
      ↔ (∀ param ∈ params, param ∉ seen) ∧ params.Nodup := by
    induction params with
    | nil => simp [firstRepeated?.go]
    | cons param rest ih =>
      intro seen
      rw [firstRepeated?.go]
      split
      · rename_i hseen
        simp [hseen]
      · rename_i hseen
        rw [ih, List.forall_mem_cons, List.nodup_cons]
        constructor
        · rintro ⟨hrest, hnodup⟩
          exact ⟨⟨hseen, fun other hother hin => hrest other hother (List.mem_cons_of_mem _ hin)⟩,
            fun hin => hrest param hin (List.mem_cons_self ..), hnodup⟩
        · rintro ⟨⟨_, hrest⟩, hparam, hnodup⟩
          refine ⟨fun other hother hin => ?_, hnodup⟩
          rcases List.mem_cons.1 hin with rfl | hin
          · exact hparam hother
          · exact hrest other hother hin
  simpa [firstRepeated?] using hgo []

/-- A check that goes on has found the names distinct. -/
theorem nodup_of_declaringOnce {α : Type} {params : List Parameter}
    {next : Except CompileError α} {a : α} (h : declaringOnce params next = .ok a) :
    params.Nodup := by
  unfold declaringOnce at h
  split at h
  · cases h
  · rename_i hnone
    exact firstRepeated?_eq_none.1 hnone

/-! ### Checked trees -/

namespace Expr

variable {limit depth : Nat} {scopes : List (List Parameter)}

/-- Validation has gone over a tree inside `scopes`.  It does not stop at a lambda that
    is invoked at once, but declares its parameters and goes on with its body, as it
    does for any other. -/
def Checked (limit : Nat) (scopes : List (List Parameter)) : Expr Value → Prop
  | lambda params body =>
    params.Nodup ∧ ∃ depth ty, body.infer limit (params :: scopes) depth = .ok ty
  | expr => ∃ depth ty, expr.infer limit scopes depth = .ok ty

/-- A typed lambda declares no name twice. -/
theorem nodup_of_lambda {params : List Parameter} {body : Expr Value} {ty : Ty}
    (h : (lambda params body).infer limit scopes depth = .ok ty) : params.Nodup := by
  rw [infer] at h
  split at h
  · cases h
  · obtain ⟨_, hbody, _⟩ := bind_eq_ok.1 h
    exact nodup_of_declaringOnce hbody

/-- A lambda that is called directly declares no name twice. -/
theorem nodup_of_direct {params : List Parameter} {body : Expr Value} {args : List (Expr Value)}
    {ty : Ty} (h : (invoke (lambda params body) args).infer limit scopes depth = .ok ty) :
    params.Nodup := by
  rw [infer] at h
  split at h
  · cases h
  · split at h
    · cases h
    · obtain ⟨⟨⟩, _, hbody⟩ := bind_eq_ok.1 h
      exact nodup_of_declaringOnce hbody

/-- What is typed has been checked. -/
theorem checked_of_infer {expr : Expr Value} {ty : Ty}
    (h : expr.infer limit scopes depth = .ok ty) : expr.Checked limit scopes := by
  cases expr with
  | lambda params body =>
    obtain ⟨⟨bodyTy, hbody⟩, _⟩ := infer_lambda h
    exact ⟨nodup_of_lambda h, _, bodyTy, hbody⟩
  | _ => exact ⟨depth, ty, h⟩

/-- The operands of a tree are checked with it. -/
theorem Checked.of_mem_children {expr sub : Expr Value} (h : expr.Checked limit scopes)
    (hsub : sub ∈ expr.children) : sub.Checked limit scopes := by
  cases expr with
  | lambda => cases hsub
  | invoke target args =>
    obtain ⟨_, _, h⟩ := h
    -- a lambda that is called directly is not typed itself, but its body is
    obtain ⟨params, body, rfl⟩ | hlambda := target.lambda_or_ne
    · obtain ⟨hbody, hargs⟩ := infer_direct h
      rcases List.mem_cons.1 hsub with rfl | hsub
      · exact ⟨nodup_of_direct h, _, _, hbody⟩
      · obtain ⟨_, hty⟩ := hargs sub hsub
        exact checked_of_infer hty
    · obtain ⟨_, hty⟩ := infer_of_child h hsub (invoke_ne_direct hlambda args)
      exact checked_of_infer hty
  | _ =>
    obtain ⟨_, _, h⟩ := h
    obtain ⟨_, hty⟩ := infer_of_child h hsub nofun
    exact checked_of_infer hty

end Expr

/-! ### Valid lambdas -/

namespace Lambda

variable {lambda : Lambda Value} {limit : Nat} {scopes : List (List Parameter)} {ty : Ty}

/-- **Every tree in a valid lambda has been checked where it stands.** -/
theorem Occurs.checked {expr : Expr Value} (h : lambda.Occurs scopes expr)
    (hvalid : lambda.validate limit = .ok ty) : expr.Checked limit scopes := by
  induction h with
  | root => exact ⟨nodup_of_declaringOnce hvalid, 0, ty, declaringOnce_eq_ok hvalid⟩
  | operand _ hsub ih => exact ih.of_mem_children hsub
  | body _ ih =>
    obtain ⟨_, _, _, hbody⟩ := ih
    exact Expr.checked_of_infer hbody

/-- A lambda around a tree declares nothing twice. -/
theorem Occurs.nodup {expr : Expr Value} (h : lambda.Occurs scopes expr)
    (hvalid : lambda.validate limit = .ok ty) : ∀ params ∈ scopes, params.Nodup := by
  induction h with
  | root => nofun
  | operand _ _ ih => exact ih
  | body hlambda ih => exact List.forall_mem_cons.2 ⟨(hlambda.checked hvalid).1, ih⟩

/-- A parameter is declared by one of the lambdas around it. -/
theorem Occurs.declared {param : Parameter} (h : lambda.Occurs scopes (.parameter param))
    (hvalid : lambda.validate limit = .ok ty) : ∃ params ∈ scopes, param ∈ params := by
  obtain ⟨_, _, hty⟩ := h.checked hvalid
  exact (Expr.infer_parameter hty).1

end Lambda

end ExprTree

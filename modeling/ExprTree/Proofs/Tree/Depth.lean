import ExprTree.Proofs.Tree.Inference

namespace ExprTree

/-!
# Nesting

`Expr.nesting` counts the nodes that stand one inside the other on the way to the
deepest one, where an extension node has its reduction inside.  Validation looks at the
operands of an extension node instead, so of a valid tree only the part outside of
reductions is known to be within the limit (`Expr.nesting_of_infer`); `Expr.reach` is how
far the reductions go beyond it.

`Lambda.validate_of_le` compares two limits: with the lower one validation either exceeds
it or comes to the same result.
-/

variable {κ : Type}

/-! ### Depths of trees -/

namespace Expr

mutual

/-- The number of nodes, one inside the other, above and including the deepest one.  An
    extension node has its reduction inside, and a lambda that is invoked directly is not
    a node of its own. -/
def nesting : Expr κ → Nat
  | constant _ | parameter _ => 1
  | new _ args => nestingOfAll args + 1
  | field target _ => target.nesting + 1
  | unary _ operand => operand.nesting + 1
  | binary _ left right => max left.nesting right.nesting + 1
  | conditional test yes no => max test.nesting (max yes.nesting no.nesting) + 1
  | lambda _ body => body.nesting + 1
  | invoke (lambda _ body) args => max body.nesting (nestingOfAll args) + 1
  | invoke target args => max target.nesting (nestingOfAll args) + 1
  | extension _ _ (some reduced) => reduced.nesting + 1
  | extension _ _ none => 1

/-- The nesting of the deepest of several trees. -/
def nestingOfAll : List (Expr κ) → Nat
  | [] => 0
  | expr :: rest => max expr.nesting (nestingOfAll rest)

end

mutual

/-- How deep the reductions in a tree below `depth` other nodes go. -/
def reach (depth : Nat) : Expr κ → Nat
  | constant _ | parameter _ => 0
  | new _ args => reachOfAll (depth + 1) args
  | field target _ => target.reach (depth + 1)
  | unary _ operand => operand.reach (depth + 1)
  | binary _ left right => max (left.reach (depth + 1)) (right.reach (depth + 1))
  | conditional test yes no =>
    max (test.reach (depth + 1)) (max (yes.reach (depth + 1)) (no.reach (depth + 1)))
  | lambda _ body => body.reach (depth + 1)
  | invoke (lambda _ body) args => max (body.reach (depth + 1)) (reachOfAll (depth + 1) args)
  | invoke target args => max (target.reach (depth + 1)) (reachOfAll (depth + 1) args)
  | extension _ _ (some reduced) => depth + 1 + reduced.nesting
  | extension _ _ none => 0

/-- How deep the reductions in several trees go. -/
def reachOfAll (depth : Nat) : List (Expr κ) → Nat
  | [] => 0
  | expr :: rest => max (expr.reach depth) (reachOfAll depth rest)

end

variable {depth : Nat} {target : Expr κ} {args : List (Expr κ)}

theorem nesting_invoke (h : ∀ params body, target ≠ .lambda params body) :
    (invoke target args).nesting = max target.nesting (nestingOfAll args) + 1 := by
  cases target with
  | lambda params body => exact absurd rfl (h params body)
  | _ => rfl

theorem reach_invoke (h : ∀ params body, target ≠ .lambda params body) :
    (invoke target args).reach depth
      = max (target.reach (depth + 1)) (reachOfAll (depth + 1) args) := by
  cases target with
  | lambda params body => exact absurd rfl (h params body)
  | _ => rfl

end Expr

/-- How deep the reductions in the body of a lambda go. -/
def Lambda.reach (lambda : Lambda κ) : Nat := lambda.body.reach 0

/-! ### Valid trees -/

namespace Expr

variable {limit depth : Nat} {scopes : List (List Parameter)} {ty : Ty}

/-- A node that has a type is within the limit. -/
theorem lt_of_infer {expr : Expr Value} (h : expr.infer limit scopes depth = .ok ty) :
    depth < limit := by
  unfold infer at h
  split at h
  · cases h
  · rename_i hdepth
    exact Nat.lt_of_not_le hdepth

/-- Several trees are within a bound if there is room for one more node and each of them is. -/
theorem nestingOfAll_le {bound : Nat} {exprs : List (Expr κ)} (hdepth : depth ≤ bound)
    (h : ∀ expr ∈ exprs, depth + expr.nesting ≤ max bound (expr.reach depth)) :
    depth + nestingOfAll exprs ≤ max bound (reachOfAll depth exprs) := by
  induction exprs with
  | nil =>
    rw [nestingOfAll, Nat.add_zero]
    exact Nat.le_trans hdepth (Nat.le_max_left ..)
  | cons expr rest ih =>
    rw [List.forall_mem_cons] at h
    have hrest := ih h.2
    have hhead := h.1
    rw [nestingOfAll, reachOfAll]
    omega

/-- **Validation bounds the nesting of a tree, up to its reductions.** -/
theorem nesting_of_infer {expr : Expr Value} (h : expr.infer limit scopes depth = .ok ty) :
    depth + expr.nesting ≤ max limit (expr.reach depth) := by
  have hdepth := lt_of_infer h
  induction expr generalizing scopes depth ty with
  | constant | parameter =>
    rw [nesting]
    omega
  | new cls args ih =>
    have hargs : depth + 1 + nestingOfAll args ≤ max limit (reachOfAll (depth + 1) args) := by
      refine nestingOfAll_le hdepth fun arg harg => ?_
      obtain ⟨_, hty⟩ := (infer_new h).2 arg harg
      exact ih arg harg hty (lt_of_infer hty)
    rw [nesting, reach]
    omega
  | field target name ih =>
    obtain ⟨_, htarget, _⟩ := infer_field h
    have := ih htarget (lt_of_infer htarget)
    rw [nesting, reach]
    omega
  | unary op operand ih =>
    obtain ⟨_, hoperand, _⟩ := infer_unary h
    have := ih hoperand (lt_of_infer hoperand)
    rw [nesting, reach]
    omega
  | binary op left right ihl ihr =>
    obtain ⟨_, _, hleft, hright, _⟩ := infer_binary h
    have hleft := ihl hleft (lt_of_infer hleft)
    have hright := ihr hright (lt_of_infer hright)
    rw [nesting, reach]
    omega
  | conditional test yes no iht ihy ihn =>
    obtain ⟨⟨_, htest⟩, _, _, hyes, hno, _⟩ := infer_conditional h
    have htest := iht htest (lt_of_infer htest)
    have hyes := ihy hyes (lt_of_infer hyes)
    have hno := ihn hno (lt_of_infer hno)
    rw [nesting, reach]
    omega
  | lambda params body ih =>
    obtain ⟨⟨_, hbody⟩, _⟩ := infer_lambda h
    have := ih hbody (lt_of_infer hbody)
    rw [nesting, reach]
    omega
  | invoke target args iht ihb ih =>
    have hargs : (∀ arg ∈ args, ∃ ty, arg.infer limit scopes (depth + 1) = .ok ty) →
        depth + 1 + nestingOfAll args ≤ max limit (reachOfAll (depth + 1) args) := fun htys => by
      refine nestingOfAll_le hdepth fun arg harg => ?_
      obtain ⟨_, hty⟩ := htys arg harg
      exact ih arg harg hty (lt_of_infer hty)
    -- the body of a direct call stands as deep as its arguments
    obtain ⟨params, body, rfl⟩ | hlambda := target.lambda_or_ne
    · obtain ⟨hbody, htys⟩ := infer_direct h
      have hbody := ihb params body rfl hbody (lt_of_infer hbody)
      have hargs := hargs htys
      rw [nesting, reach]
      omega
    · obtain ⟨⟨_, htarget⟩, htys, _⟩ := infer_invoke hlambda h
      have htarget := iht htarget (lt_of_infer htarget)
      have hargs := hargs htys
      rw [nesting_invoke hlambda, reach_invoke hlambda]
      omega
  | extension node operands reduction =>
    cases reduction with
    | none =>
      rw [nesting]
      omega
    | some reduced =>
      rw [nesting, reach]
      omega

end Expr

/-! ### Two limits -/

/-- What a check comes to with a lower limit, compared with a higher one: the limit is
    exceeded, or nothing changes. -/
def Lowered {α : Type} (limit : Nat) (low high : Except CompileError α) : Prop :=
  low = .error (.tooDeep limit) ∨ low = high

namespace Lowered

variable {α β : Type} {limit : Nat}

theorem refl {check : Except CompileError α} : Lowered limit check check := .inr rfl

/-- The first check exceeds the lower limit, or the second one is met under both. -/
theorem bind {low high : Except CompileError α} {next next' : α → Except CompileError β}
    (h : Lowered limit low high) (hnext : ∀ a, Lowered limit (next a) (next' a)) :
    Lowered limit (low >>= next) (high >>= next') := by
  rcases h with rfl | rfl
  · exact .inl rfl
  · cases low with
    | error error => exact .inr rfl
    | ok a => exact hnext a

/-- Whether names are declared twice does not depend on the limit. -/
theorem declaringOnce {params : List Parameter} {low high : Except CompileError α}
    (h : Lowered limit low high) :
    Lowered limit (declaringOnce params low) (declaringOnce params high) := by
  unfold ExprTree.declaringOnce
  split
  · exact refl
  · exact h

/-- A node is too deep for the lower limit first. -/
theorem guard {limit' depth : Nat} {low high : Except CompileError α} (hlimit : limit ≤ limit')
    (h : Lowered limit low high) :
    Lowered limit (if limit ≤ depth then .error (.tooDeep limit) else low)
      (if limit' ≤ depth then .error (.tooDeep limit') else high) := by
  split
  · exact .inl rfl
  · rw [if_neg (by omega)]
    exact h

end Lowered

namespace Expr

variable {limit limit' : Nat}

/-- Operands exceed the lower limit if one of them does. -/
theorem inferAll_of_le {scopes : List (List Parameter)} {depth : Nat} {exprs : List (Expr Value)}
    (h : ∀ expr ∈ exprs,
      Lowered limit (expr.infer limit scopes depth) (expr.infer limit' scopes depth)) :
    Lowered limit (inferAll limit scopes depth exprs) (inferAll limit' scopes depth exprs) := by
  induction exprs with
  | nil => exact .refl
  | cons expr rest ih =>
    rw [List.forall_mem_cons] at h
    rw [inferAll, inferAll]
    exact h.1.bind fun _ => (ih h.2).bind fun _ => .refl

/-- Arguments exceed the lower limit if one of them does, whatever their places are. -/
theorem checkAll_of_le {scopes : List (List Parameter)} {depth : Nat} {exprs : List (Expr Value)}
    (h : ∀ expr ∈ exprs,
      Lowered limit (expr.infer limit scopes depth) (expr.infer limit' scopes depth))
    (places : List Place) :
    Lowered limit (checkAll limit scopes depth places exprs)
      (checkAll limit' scopes depth places exprs) := by
  induction exprs generalizing places with
  | nil => cases places <;> exact .refl
  | cons expr rest ih =>
    rw [List.forall_mem_cons] at h
    cases places with
    | nil => exact .refl
    | cons place places =>
      rw [checkAll, checkAll]
      refine h.1.bind fun ty => ?_
      split
      · exact ih h.2 places
      · exact .refl

/-- **A lower limit changes nothing but to be exceeded.** -/
theorem infer_of_le (hlimit : limit ≤ limit') (expr : Expr Value)
    (scopes : List (List Parameter)) (depth : Nat) :
    Lowered limit (expr.infer limit scopes depth) (expr.infer limit' scopes depth) := by
  induction expr generalizing scopes depth with
  | constant | parameter =>
    rw [infer, infer]
    -- of each node the depth is compared first, so the lower limit is exceeded before
    -- anything else is found
    exact .guard hlimit .refl
  | new cls args ih =>
    rw [infer, infer]
    refine .guard hlimit ?_
    split
    · exact .refl
    · exact (checkAll_of_le (fun arg harg => ih arg harg _ _) _).bind fun _ => .refl
  | field target name ih =>
    rw [infer, infer]
    exact .guard hlimit ((ih _ _).bind fun _ => .refl)
  | unary op operand ih =>
    rw [infer, infer]
    exact .guard hlimit ((ih _ _).bind fun _ => .refl)
  | binary op left right ihl ihr =>
    rw [infer, infer]
    exact .guard hlimit ((ihl _ _).bind fun _ => (ihr _ _).bind fun _ => .refl)
  | conditional test yes no iht ihy ihn =>
    rw [infer, infer]
    refine .guard hlimit ((iht _ _).bind fun _ => ?_)
    split
    · exact (ihy _ _).bind fun _ => (ihn _ _).bind fun _ => .refl
    · exact .refl
  | lambda params body ih =>
    rw [infer, infer]
    exact .guard hlimit ((ih _ _).declaringOnce.bind fun _ => .refl)
  | invoke target args iht ihb ih =>
    obtain ⟨params, body, rfl⟩ | hlambda := target.lambda_or_ne
    · rw [infer, infer]
      refine .guard hlimit ?_
      split
      · exact .refl
      · refine (checkAll_of_le (fun arg harg => ih arg harg _ _) _).bind fun _ => ?_
        exact (ihb params body rfl _ _).declaringOnce
    · rw [infer_invoke_eq hlambda, infer_invoke_eq hlambda]
      refine .guard hlimit ((iht _ _).bind fun _ => ?_)
      exact (inferAll_of_le fun arg harg => ih arg harg _ _).bind fun _ => .refl
  | extension node operands reduction ih =>
    rw [infer, infer]
    refine .guard hlimit ?_
    exact (inferAll_of_le fun operand hoperand => ih operand hoperand _ _).bind fun _ => .refl

end Expr

/-- With a lower limit a lambda is too deep or validates as before. -/
theorem Lambda.validate_of_le {limit limit' : Nat} (hlimit : limit ≤ limit')
    (lambda : Lambda Value) :
    Lowered limit (lambda.validate limit) (lambda.validate limit') :=
  (Expr.infer_of_le hlimit lambda.body _ _).declaringOnce

end ExprTree

import ExprTree.Proofs.Tree.Depth

namespace ExprTree

/-!
# The height of a tree is its depth limit

`Expr.height` counts the nodes of a tree that validation meets one inside the other: it goes
into the bodies of lambdas and into the operands of extension nodes, not into reductions.

A limit is compared with the depth of a node and with nothing else.  So limits that no node
exceeds all give the same result (`Expr.infer_eq_of_height`), and whatever has a type is
within its limit (`Expr.height_of_infer`).  By `Lambda.validate_threshold` the height of the
body is the threshold between the two.
-/

variable {κ : Type}

/-! ### Heights -/

namespace Expr

mutual

/-- The largest number of nodes of a tree that stand one inside the other.  The body of a
    lambda is inside the lambda, but a lambda that is invoked directly is not a node of its
    own, and of an extension node the operands count. -/
def height : Expr κ → Nat
  | constant _ | parameter _ => 1
  | new _ args => heightOfAll args + 1
  | field target _ => target.height + 1
  | unary _ operand => operand.height + 1
  | binary _ left right => max left.height right.height + 1
  | conditional test yes no => max test.height (max yes.height no.height) + 1
  | lambda _ body => body.height + 1
  | invoke (lambda _ body) args => max body.height (heightOfAll args) + 1
  | invoke target args => max target.height (heightOfAll args) + 1
  | extension _ operands _ => heightOfAll operands + 1

/-- The height of the highest of several trees. -/
def heightOfAll : List (Expr κ) → Nat
  | [] => 0
  | expr :: rest => max expr.height (heightOfAll rest)

end

theorem height_invoke {target : Expr κ} (h : ∀ params body, target ≠ .lambda params body)
    (args : List (Expr κ)) :
    (invoke target args).height = max target.height (heightOfAll args) + 1 := by
  cases target with
  | lambda params body => exact absurd rfl (h params body)
  | _ => rfl

/-- A tree has at least one node. -/
theorem height_pos (expr : Expr κ) : 0 < expr.height := by
  unfold height
  split <;> omega

/-- Trees are within a bound if each of them is. -/
theorem heightOfAll_le_iff {exprs : List (Expr κ)} {bound : Nat} :
    heightOfAll exprs ≤ bound ↔ ∀ expr ∈ exprs, expr.height ≤ bound := by
  induction exprs with
  | nil => simp [heightOfAll]
  | cons expr rest ih => rw [heightOfAll, Nat.max_le, ih, List.forall_mem_cons]

/-- Under one more node several trees are within a limit if each of them is. -/
theorem add_heightOfAll_le {exprs : List (Expr κ)} {depth limit : Nat} (hdepth : depth < limit)
    (h : ∀ expr ∈ exprs, depth + 1 + expr.height ≤ limit) :
    depth + (heightOfAll exprs + 1) ≤ limit := by
  have hall : heightOfAll exprs ≤ limit - (depth + 1) :=
    heightOfAll_le_iff.2 fun expr hexpr => Nat.le_sub_of_add_le' (h expr hexpr)
  omega

/-- Where the operands stay within a limit, each of them does. -/
theorem add_height_le_of_mem {exprs : List (Expr κ)} {depth limit : Nat} {expr : Expr κ}
    (h : depth + (heightOfAll exprs + 1) ≤ limit) (hexpr : expr ∈ exprs) :
    depth + 1 + expr.height ≤ limit := by
  have hmem : expr.height ≤ heightOfAll exprs := heightOfAll_le_iff.1 (Nat.le_refl _) expr hexpr
  omega

/-! ### Accepted trees -/

variable {limit limit' depth : Nat} {scopes : List (List Parameter)} {ty : Ty}

/-- **What has a type is within the limit.** -/
theorem height_of_infer {expr : Expr Value} (h : expr.infer limit scopes depth = .ok ty) :
    depth + expr.height ≤ limit := by
  -- every part has a type of its own, one level below, and none of them is beyond the limit
  have hdepth := lt_of_infer h
  induction expr generalizing scopes depth ty with
  | constant | parameter =>
    rw [height]
    omega
  | new cls args ih =>
    refine add_heightOfAll_le hdepth fun arg harg => ?_
    obtain ⟨_, hty⟩ := (infer_new h).2 arg harg
    exact ih arg harg hty (lt_of_infer hty)
  | field target name ih =>
    obtain ⟨_, htarget, _⟩ := infer_field h
    have := ih htarget (lt_of_infer htarget)
    rw [height]
    omega
  | unary op operand ih =>
    obtain ⟨_, hoperand, _⟩ := infer_unary h
    have := ih hoperand (lt_of_infer hoperand)
    rw [height]
    omega
  | binary op left right ihl ihr =>
    obtain ⟨_, _, hleft, hright, _⟩ := infer_binary h
    have hleft := ihl hleft (lt_of_infer hleft)
    have hright := ihr hright (lt_of_infer hright)
    rw [height]
    omega
  | conditional test yes no iht ihy ihn =>
    obtain ⟨⟨_, htest⟩, _, _, hyes, hno, _⟩ := infer_conditional h
    have htest := iht htest (lt_of_infer htest)
    have hyes := ihy hyes (lt_of_infer hyes)
    have hno := ihn hno (lt_of_infer hno)
    rw [height]
    omega
  | lambda params body ih =>
    obtain ⟨⟨_, hbody⟩, _⟩ := infer_lambda h
    have := ih hbody (lt_of_infer hbody)
    rw [height]
    omega
  | invoke target args iht ihb ih =>
    have hargs : (∀ arg ∈ args, ∃ ty, arg.infer limit scopes (depth + 1) = .ok ty) →
        depth + (heightOfAll args + 1) ≤ limit := fun htys => by
      refine add_heightOfAll_le hdepth fun arg harg => ?_
      obtain ⟨_, hty⟩ := htys arg harg
      exact ih arg harg hty (lt_of_infer hty)
    obtain ⟨params, body, rfl⟩ | hlambda := target.lambda_or_ne
    · obtain ⟨hbody, htys⟩ := infer_direct h
      have hbody := ihb params body rfl hbody (lt_of_infer hbody)
      have hargs := hargs htys
      rw [height]
      omega
    · obtain ⟨⟨_, htarget⟩, htys, _⟩ := infer_invoke hlambda h
      have htarget := iht htarget (lt_of_infer htarget)
      have hargs := hargs htys
      rw [height_invoke hlambda]
      omega
  | extension node operands reduction ih =>
    refine add_heightOfAll_le hdepth fun operand hoperand => ?_
    obtain ⟨_, hty⟩ := infer_extension h operand hoperand
    exact ih operand hoperand hty (lt_of_infer hty)

/-! ### Sufficient limits -/

/-- Operands are typed alike if each of them is. -/
theorem inferAll_congr {exprs : List (Expr Value)}
    (h : ∀ expr ∈ exprs, expr.infer limit scopes depth = expr.infer limit' scopes depth) :
    inferAll limit scopes depth exprs = inferAll limit' scopes depth exprs := by
  induction exprs with
  | nil => rfl
  | cons expr rest ih =>
    rw [List.forall_mem_cons] at h
    rw [inferAll, inferAll, h.1, ih h.2]

/-- Arguments are checked alike if each of them is typed alike. -/
theorem checkAll_congr {exprs : List (Expr Value)}
    (h : ∀ expr ∈ exprs, expr.infer limit scopes depth = expr.infer limit' scopes depth)
    (places : List Place) :
    checkAll limit scopes depth places exprs = checkAll limit' scopes depth places exprs := by
  induction exprs generalizing places with
  | nil => cases places <;> rfl
  | cons expr rest ih =>
    rw [List.forall_mem_cons] at h
    cases places with
    | nil => rfl
    | cons place places => rw [checkAll, checkAll, h.1, ih h.2]

theorem not_le_of_height {expr : Expr κ} (h : depth + expr.height ≤ limit) : ¬ limit ≤ depth := by
  have hpos := expr.height_pos
  omega

/-- **Limits that no node exceeds give the same result**, be it a type or an error. -/
theorem infer_eq_of_height {expr : Expr Value} (h : depth + expr.height ≤ limit)
    (h' : depth + expr.height ≤ limit') :
    expr.infer limit scopes depth = expr.infer limit' scopes depth := by
  -- a node compares the limit with its own depth only, and neither limit is reached there
  induction expr generalizing scopes depth with
  | constant | parameter =>
    rw [infer, infer, if_neg (not_le_of_height h), if_neg (not_le_of_height h')]
  | new cls args ih =>
    rw [infer, infer, if_neg (not_le_of_height h), if_neg (not_le_of_height h'),
      checkAll_congr fun arg harg =>
        ih arg harg (add_height_le_of_mem h harg) (add_height_le_of_mem h' harg)]
  | field target name ih =>
    rw [infer, infer, if_neg (not_le_of_height h), if_neg (not_le_of_height h')]
    rw [height] at h h'
    rw [ih (by omega) (by omega)]
  | unary op operand ih =>
    rw [infer, infer, if_neg (not_le_of_height h), if_neg (not_le_of_height h')]
    rw [height] at h h'
    rw [ih (by omega) (by omega)]
  | binary op left right ihl ihr =>
    rw [infer, infer, if_neg (not_le_of_height h), if_neg (not_le_of_height h')]
    rw [height] at h h'
    rw [ihl (by omega) (by omega), ihr (by omega) (by omega)]
  | conditional test yes no iht ihy ihn =>
    rw [infer, infer, if_neg (not_le_of_height h), if_neg (not_le_of_height h')]
    rw [height] at h h'
    rw [iht (by omega) (by omega), ihy (by omega) (by omega), ihn (by omega) (by omega)]
  | lambda params body ih =>
    rw [infer, infer, if_neg (not_le_of_height h), if_neg (not_le_of_height h')]
    rw [height] at h h'
    rw [ih (by omega) (by omega)]
  | invoke target args iht ihb ih =>
    have hargs : depth + (heightOfAll args + 1) ≤ limit →
        depth + (heightOfAll args + 1) ≤ limit' → ∀ arg ∈ args,
        arg.infer limit scopes (depth + 1) = arg.infer limit' scopes (depth + 1) :=
      fun h h' arg harg =>
        ih arg harg (add_height_le_of_mem h harg) (add_height_le_of_mem h' harg)
    obtain ⟨params, body, rfl⟩ | hlambda := target.lambda_or_ne
    · -- the body is checked at the depth of the arguments
      rw [infer, infer, if_neg (not_le_of_height h), if_neg (not_le_of_height h')]
      rw [height] at h h'
      rw [checkAll_congr (hargs (by omega) (by omega)),
        ihb params body rfl (by omega) (by omega)]
    · rw [infer_invoke_eq hlambda, infer_invoke_eq hlambda, if_neg (not_le_of_height h),
        if_neg (not_le_of_height h')]
      rw [height_invoke hlambda] at h h'
      rw [iht (by omega) (by omega), inferAll_congr (hargs (by omega) (by omega))]
  | extension node operands reduction ih =>
    rw [infer, infer, if_neg (not_le_of_height h), if_neg (not_le_of_height h'),
      inferAll_congr fun operand hoperand => ih operand hoperand
        (add_height_le_of_mem h hoperand) (add_height_le_of_mem h' hoperand)]

end Expr

/-! ### The threshold -/

namespace Lambda

/-- The largest number of nodes in the body of a lambda that stand one inside the other. -/
def height (lambda : Lambda κ) : Nat := lambda.body.height

/-- **The depth limit is a pure threshold**, the height of the lambda.

* From the height on, every limit gives the same result, a type or an error.
* Below it every limit rejects the lambda, and for being too deep if the height accepts it.
* So what one limit accepts, every higher one accepts with the same type. -/
theorem validate_threshold (lambda : Lambda Value) (limit : Nat) :
    (lambda.height ≤ limit → ∀ limit', limit ≤ limit' →
      lambda.validate limit' = lambda.validate limit)
    ∧ (limit < lambda.height →
      (∃ error, lambda.validate limit = .error error)
      ∧ ∀ ty, lambda.validate lambda.height = .ok ty →
        lambda.validate limit = .error (.tooDeep limit))
    ∧ ∀ ty, lambda.validate limit = .ok ty → ∀ limit', limit ≤ limit' →
      lambda.validate limit' = .ok ty := by
  have hsame : lambda.height ≤ limit → ∀ limit', limit ≤ limit' →
      lambda.validate limit' = lambda.validate limit := by
    intro hheight limit' hle
    have hheight : 0 + lambda.body.height ≤ limit := (Nat.zero_add _).symm ▸ hheight
    rw [validate, validate, Expr.infer_eq_of_height (Nat.le_trans hheight hle) hheight]
  have hwithin : ∀ ty, lambda.validate limit = .ok ty → lambda.height ≤ limit := by
    intro ty hty
    have hbody := Expr.height_of_infer (declaringOnce_eq_ok hty)
    rwa [Nat.zero_add] at hbody
  refine ⟨hsame, fun hlow => ⟨?_, fun ty hty => ?_⟩, fun ty hty limit' hle => ?_⟩
  · cases hvalidate : lambda.validate limit with
    | error error => exact ⟨error, rfl⟩
    | ok ty => exact absurd (hwithin ty hvalidate) (Nat.not_le_of_lt hlow)
  · -- the lower limit is exceeded, or it would accept the lambda like the height does
    rcases lambda.validate_of_le (Nat.le_of_lt hlow) with htoo | hequal
    · exact htoo
    · exact absurd (hwithin ty (hequal.trans hty)) (Nat.not_le_of_lt hlow)
  · rw [hsame (hwithin ty hty) limit' hle, hty]

/-- A lambda that is invoked directly on a lambda: neither the one that is invoked nor the
    tree around it is a node more than the other branch of the invocation. -/
def appliedDirectly : Lambda Value :=
  ⟨[], .invoke (.lambda [⟨1, "f", .any⟩] (.invoke (.parameter ⟨1, "f", .any⟩) []))
    [.lambda [] (.unary .not (.constant (.bool true)))]⟩

/-- The invocation, its argument, the negation and the constant are four levels; the lambda that
    is invoked adds none. -/
theorem validate_threshold_appliedDirectly :
    appliedDirectly.height = 4
      ∧ appliedDirectly.validate 3 = .error (.tooDeep 3)
      ∧ appliedDirectly.validate 4 = .ok .any
      ∧ appliedDirectly.validate 100 = .ok .any := by
  have hheight : appliedDirectly.height = 4 := rfl
  have hvalid : appliedDirectly.validate appliedDirectly.height = .ok .any := rfl
  obtain ⟨_, hlow, _⟩ := validate_threshold appliedDirectly 3
  obtain ⟨hsame, _, hraise⟩ := validate_threshold appliedDirectly 4
  refine ⟨hheight, (hlow (by decide)).2 .any hvalid, hvalid, ?_⟩
  exact (hsame (by decide) 100 (by decide)).trans (hraise .any hvalid 4 (Nat.le_refl 4))

end Lambda

end ExprTree

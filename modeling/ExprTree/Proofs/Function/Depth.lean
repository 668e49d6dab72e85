import ExprTree.Function
import ExprTree.Proofs.Code.Derivation
import ExprTree.Proofs.Tree.Depth

namespace ExprTree

/-!
# How deep emission goes

`Lambda.emissionDepth` is the largest number of nodes that are being emitted at once,
whether emission succeeds or fails.  The limit on the depth of trees bounds it up to the
reductions of extension nodes, which validation does not look into
(`Lambda.emission_within_limit`); a reduction can go as deep as it likes
(`Lambda.emission_beyond_limit`).
-/

/-- The largest number of nodes that are being emitted at once. -/
def Lambda.emissionDepth (lambda : Lambda Value) (options : CompilerOptions) : Nat :=
  ((lambda.emitBody options).run {}).2.deepest

/-! ### Bounds -/

namespace Emit

variable {α β : Type} {bound : Nat}

/-- Emission goes no deeper than a bound, whether it succeeds or fails. -/
def Within (bound : Nat) (emit : Emit α) : Prop :=
  ∀ state : EmitState, state.deepest ≤ bound → (emit.run state).2.deepest ≤ bound

theorem within_pure (a : α) : Within bound (pure a) := fun _ h => h

theorem within_throw (error : CompileError) : Within bound (throw error : Emit α) := fun _ h => h

/-- Two steps are within a bound if each of them is, whether or not the first one fails. -/
theorem Within.bind {emit : Emit α} {next : α → Emit β} (h : emit.Within bound)
    (hnext : ∀ a, (next a).Within bound) : (emit >>= next).Within bound := by
  intro state hstate
  have hfirst := h state hstate
  rcases hemit : emit.run state with ⟨error | a, between⟩
  · rw [hemit] at hfirst
    rw [run_bind_of_error hemit]
    exact hfirst
  · rw [hemit] at hfirst
    rw [run_bind_of_ok hemit]
    exact hnext a between hfirst

/-- A node is noted where there is room for it. -/
theorem within_visit {level : Nat} {next : Emit α} (hlevel : level < bound)
    (h : next.Within bound) : Within bound (do visit level; next) :=
  fun _ hstate => h _ (Nat.max_le.2 ⟨hstate, hlevel⟩)

/-- Constants are emitted without going any deeper. -/
theorem within_constant (hoist : Bool) (value : Value) : (constant hoist value).Within bound := by
  unfold constant
  split
  · exact fun _ h => h
  · split
    · exact Within.bind (fun _ h => h) fun _ => within_pure _
    · exact within_pure _

theorem within_foldTo (value : Value) : (foldTo value).Within bound := fun _ h => h

theorem within_countFolded {next : Emit α} (h : next.Within bound) :
    Within bound (do countFolded; next) :=
  fun _ hstate => h _ hstate

theorem within_layout {depth : Nat} {scope : Scope} {next : Emit α} (h : next.Within bound) :
    Within bound (do layout depth scope; next) :=
  fun _ hstate => h _ hstate

/-- A scope is found or not before anything is emitted. -/
theorem within_scope {found : Except CompileError Scope} {next : Scope → Emit α}
    (h : ∀ inner, (next inner).Within bound) :
    Within bound (do let inner ← found; next inner) := by
  cases found with
  | error error => exact within_throw error
  | ok inner => exact h inner

end Emit

namespace Expr

variable {options : CompilerOptions} {bound : Nat}

/-- Arguments stand side by side, so the deepest of them decides. -/
theorem within_emitAll {exprs : List (Expr Value)} {scope : Scope} {depth level : Nat}
    (ih : ∀ expr ∈ exprs, ∀ scope depth level, level + expr.nesting ≤ bound →
      (expr.emit options scope depth level).Within bound)
    (h : level + nestingOfAll exprs ≤ bound) :
    (emitAll options scope depth level exprs).Within bound := by
  induction exprs with
  | nil => exact Emit.within_pure _
  | cons expr rest ihrest =>
    rw [List.forall_mem_cons] at ih
    rw [nestingOfAll] at h
    rw [emitAll]
    refine (ih.1 scope depth level (by omega)).bind fun _ => ?_
    exact (ihrest ih.2 (by omega)).bind fun _ => Emit.within_pure _

/-- **Emission goes no deeper than the tree.** -/
theorem within_emit (expr : Expr Value) (scope : Scope) (depth level : Nat)
    (h : level + expr.nesting ≤ bound) : (expr.emit options scope depth level).Within bound := by
  induction expr generalizing scope depth level with
  | constant value =>
    rw [nesting] at h
    rw [emit]
    exact Emit.within_visit h (Emit.within_constant _ value)
  | parameter param =>
    rw [nesting] at h
    rw [emit]
    refine Emit.within_visit h ?_
    split
    · exact Emit.within_pure _
    · exact Emit.within_throw _
  | new cls args ih =>
    rw [nesting] at h
    rw [emit]
    refine Emit.within_visit (by omega) ?_
    exact (within_emitAll ih (by omega)).bind fun _ => Emit.within_pure _
  | field target name ih =>
    rw [nesting] at h
    rw [emit]
    exact Emit.within_visit (by omega) ((ih _ _ _ (by omega)).bind fun _ => Emit.within_pure _)
  | unary op operand ih =>
    rw [nesting] at h
    rw [emit]
    refine Emit.within_visit (by omega) ((ih _ _ _ (by omega)).bind fun _ => ?_)
    split
    · exact Emit.within_foldTo _
    · exact Emit.within_pure _
  | binary op left right ihl ihr =>
    rw [nesting] at h
    rw [emit]
    refine Emit.within_visit (by omega) ((ihl _ _ _ (by omega)).bind fun _ => ?_)
    split
    · exact Emit.within_foldTo _
    · refine (ihr _ _ _ (by omega)).bind fun _ => ?_
      split
      · exact Emit.within_foldTo _
      · split <;> exact Emit.within_pure _
  | conditional test yes no iht ihy ihn =>
    rw [nesting] at h
    rw [emit]
    refine Emit.within_visit (by omega) ((iht _ _ _ (by omega)).bind fun _ => ?_)
    -- the branches are visited at the same level, whichever of them is taken
    have hyes := ihy scope depth (level + 1) (by omega)
    have hno := ihn scope depth (level + 1) (by omega)
    split
    · exact Emit.within_countFolded hyes
    · exact Emit.within_countFolded hno
    · exact hyes.bind fun _ => hno.bind fun _ => Emit.within_pure _
  | lambda params body ih =>
    rw [nesting] at h
    rw [emit]
    refine Emit.within_visit (by omega) (Emit.within_scope fun inner => Emit.within_layout ?_)
    exact (ih _ _ _ (by omega)).bind fun _ => Emit.within_pure _
  | invoke target args iht ihb ih =>
    obtain ⟨params, body, rfl⟩ | hlambda := target.lambda_or_ne
    · rw [nesting] at h
      rw [emit]
      refine Emit.within_visit (by omega) (Emit.within_scope fun inner => Emit.within_layout ?_)
      refine (ihb params body rfl _ _ _ (by omega)).bind fun _ => ?_
      exact (within_emitAll ih (by omega)).bind fun _ => Emit.within_pure _
    · rw [nesting_invoke hlambda] at h
      rw [emit_invoke hlambda]
      refine Emit.within_visit (by omega) ((iht _ _ _ (by omega)).bind fun _ => ?_)
      exact (within_emitAll ih (by omega)).bind fun _ => Emit.within_pure _
  | extension node operands reduction _ ih =>
    cases reduction with
    | none =>
      rw [nesting] at h
      rw [emit]
      exact Emit.within_visit h (Emit.within_throw _)
    | some reduced =>
      rw [nesting] at h
      rw [emit]
      exact Emit.within_visit (by omega) (ih reduced rfl _ _ _ (by omega))

end Expr

/-! ### Without folding -/

namespace Emits

variable {options : CompilerOptions} {spot : Spot} {state after : EmitState}

/-- Several trees go as deep as the deepest of them. -/
theorem deepest_of_all {exprs : List (Expr Value)} {emitted : List Emitted}
    (hlevel : spot.level ≤ state.deepest)
    (h : Threads (fun state (expr : Expr Value) (_ : Emitted) after =>
      after.deepest = max state.deepest (spot.level + expr.nesting)) state exprs emitted after) :
    after.deepest = max state.deepest (spot.level + Expr.nestingOfAll exprs) := by
  induction h with
  | nil =>
    rw [Expr.nestingOfAll]
    omega
  | cons hfirst _ ih =>
    have := ih (by omega)
    rw [Expr.nestingOfAll]
    omega

/-- **Without folding every node is emitted**, so emission goes as deep as the tree. -/
theorem deepest {expr : Expr Value} {emitted : Emitted} (hfold : options.foldConstants = false)
    (h : Emits options spot state expr emitted after) :
    after.deepest = max state.deepest (spot.level + expr.nesting) := by
  refine Emits.induction (motive := fun spot state expr _ after =>
    after.deepest = max state.deepest (spot.level + expr.nesting)) ?_ h
  intro spot state expr emitted after hrule
  have hvisited : (state.visited spot).deepest = max state.deepest (spot.level + 1) := rfl
  have hbelow : spot.below.level = spot.level + 1 := rfl
  -- a node is visited before its operands, so the level below it has been come to at least
  cases hrule with
  | foldedUnary _ hsome | settled _ hsome | foldedBinary _ _ _ hsome | taken _ hsome =>
    exact absurd hsome (Emit.folding_ne_some hfold)
  | literal | pooled | embedded | slot => rfl
  | new hargs =>
    have := deepest_of_all (by omega) hargs.right
    rw [Expr.nesting]
    omega
  | field hsub | unary hsub | extension hsub =>
    have := hsub.2
    rw [Expr.nesting]
    omega
  | shortCircuit hleft _ hright | binary hleft _ hright =>
    have := hleft.2
    have := hright.2
    rw [Expr.nesting]
    omega
  | conditional htest _ hyes hno =>
    have := htest.2
    have := hyes.2
    have := hno.2
    rw [Expr.nesting]
    omega
  | @lambda _ _ _ body _ _ _ _ hbody =>
    have hbody : after.deepest
        = max (state.visited spot).deepest (spot.level + 1 + body.nesting) := hbody.2
    rw [Expr.nesting]
    omega
  | @direct _ _ _ body _ _ _ between _ _ _ hbody hargs =>
    have hbody : between.deepest
        = max (state.visited spot).deepest (spot.level + 1 + body.nesting) := hbody.2
    have := deepest_of_all (by omega) hargs.right
    rw [Expr.nesting]
    omega
  | invoke hlambda htarget hargs =>
    have := htarget.2
    have := deepest_of_all (by omega) hargs.right
    rw [Expr.nesting_invoke hlambda]
    omega

end Emits

/-! ### Lambdas -/

namespace Lambda

variable {lambda : Lambda Value} {options : CompilerOptions}

/-- A lambda is emitted no deeper than its body is nested. -/
theorem emissionDepth_le (lambda : Lambda Value) (options : CompilerOptions) :
    lambda.emissionDepth options ≤ lambda.body.nesting := by
  have hbody : (lambda.emitBody options).Within lambda.body.nesting := by
    unfold emitBody
    refine Emit.within_scope fun scope => Emit.within_layout ?_
    exact Expr.within_emit lambda.body scope 1 0 (by omega)
  exact hbody {} (Nat.zero_le _)

/-- What was emitted without folding was gone into down to the deepest node. -/
theorem emissionDepth_eq {callable : Callable Value} {plan : Plan}
    (hfold : options.foldConstants = false) (h : lambda.emit options = .ok (callable, plan)) :
    lambda.emissionDepth options = lambda.body.nesting := by
  obtain ⟨emitted, state, hrun, _⟩ := emit_eq_ok.1 h
  have hdeepest : state.deepest = max lambda.rootState.deepest (0 + lambda.body.nesting) :=
    (emitBody_eq_ok.1 hrun).2.deepest hfold
  have hroot : lambda.rootState.deepest = 0 := rfl
  rw [emissionDepth, hrun]
  show state.deepest = lambda.body.nesting
  omega

/-- **The limit bounds emission up to reductions.**

* A lambda that validation rejects is not emitted: its error is that of the compilation.
* The emission of a lambda that validation accepts goes no deeper than the limit or the
  reductions in it, whichever is more.  Without folding it goes as deep as the nodes.
* So if no reduction goes beyond the limit, a lambda whose emission would is rejected;
  and if nothing else is wrong with it, then for being too deep. -/
theorem emission_within_limit (lambda : Lambda Value) (options : CompilerOptions)
    (strict : Bool) :
    (∀ error, lambda.validate options.maxTreeDepth = .error error →
      lambda.compileFast options strict = .error error)
    ∧ (∀ ty, lambda.validate options.maxTreeDepth = .ok ty →
      lambda.emissionDepth options ≤ max options.maxTreeDepth lambda.reach)
    ∧ (∀ callable plan, options.foldConstants = false →
      lambda.emit options = .ok (callable, plan) →
      lambda.emissionDepth options = lambda.body.nesting)
    ∧ (lambda.reach ≤ options.maxTreeDepth → options.maxTreeDepth < lambda.emissionDepth options →
      (∃ error, lambda.validate options.maxTreeDepth = .error error)
      ∧ ∀ limit ty, lambda.validate limit = .ok ty →
        lambda.compileFast options strict = .error (.tooDeep options.maxTreeDepth)) := by
  have hrejected : ∀ error, lambda.validate options.maxTreeDepth = .error error →
      lambda.compileFast options strict = .error error := fun error herror => by
    rw [compileFast, herror]
    rfl
  have hdepth : ∀ ty, lambda.validate options.maxTreeDepth = .ok ty →
      lambda.emissionDepth options ≤ max options.maxTreeDepth lambda.reach := fun ty hty => by
    have hnesting := Expr.nesting_of_infer (declaringOnce_eq_ok hty)
    have := lambda.emissionDepth_le options
    rw [reach]
    omega
  refine ⟨hrejected, hdepth, fun _ _ => emissionDepth_eq, fun hreach hdeep => ?_⟩
  -- no validation with this limit can succeed
  have hinvalid : ∀ ty, lambda.validate options.maxTreeDepth ≠ .ok ty := fun ty hty => by
    have := hdepth ty hty
    omega
  refine ⟨?_, fun limit ty hty => ?_⟩
  · cases hvalidate : lambda.validate options.maxTreeDepth with
    | error error => exact ⟨error, rfl⟩
    | ok ty => exact absurd hvalidate (hinvalid ty)
  · apply hrejected
    rcases Nat.le_total options.maxTreeDepth limit with hle | hle
    · rcases lambda.validate_of_le hle with htoo | hsame
      · exact htoo
      · exact absurd (hsame.trans hty) (hinvalid ty)
    · rcases lambda.validate_of_le hle with htoo | hsame
      · rw [hty] at htoo
        cases htoo
      · exact absurd (hsame.symm.trans hty) (hinvalid ty)

/-- The negation of a negation, in which nothing is reduced. -/
def twiceNegated : Lambda Value := ⟨[], .unary .not (.unary .not (.constant (.bool true)))⟩

/-- Three nodes are too deep for a limit of two.  With a limit of three they are not, and
    are gone into one after the other. -/
theorem emission_within_limit_twiceNegated :
    twiceNegated.validate 2 = .error (.tooDeep 2) ∧ twiceNegated.validate 3 = .ok .bool
      ∧ twiceNegated.compileFast { maxTreeDepth := 2 } true = .error (.tooDeep 2)
      ∧ twiceNegated.emissionDepth { maxTreeDepth := 3 } ≤ 3
      ∧ (∃ result, twiceNegated.emit { foldConstants := false } = .ok result
        ∧ twiceNegated.emissionDepth { foldConstants := false } = 3) := by
  have hlow : twiceNegated.validate 2 = .error (.tooDeep 2) := rfl
  have hhigh : twiceNegated.validate 3 = .ok .bool := rfl
  obtain ⟨_, _, _, hdeep⟩ := emission_within_limit twiceNegated { maxTreeDepth := 2 } true
  obtain ⟨_, hdepth, _⟩ := emission_within_limit twiceNegated { maxTreeDepth := 3 } true
  obtain ⟨_, _, hexact, _⟩ := emission_within_limit twiceNegated { foldConstants := false } true
  have hsame : twiceNegated.compileFast { maxTreeDepth := 2 } true = .error (.tooDeep 2) :=
    (hdeep (by decide) (by decide)).2 3 .bool hhigh
  refine ⟨hlow, hhigh, hsame, hdepth .bool hhigh, ⟨_, rfl, hexact _ _ rfl rfl⟩⟩

/-- A node without operands that is reduced to three negations. -/
def deep : Lambda Value :=
  ⟨[], .extension ⟨"deep", .any, "first"⟩ []
    (some (Expr.nest 3 (.unary .not) (.constant (.bool true))))⟩

/-- **A reduction goes beyond the limit.**  One node is all that validation sees of `deep`, but
    five are emitted, one inside the other. -/
theorem emission_beyond_limit :
    deep.validate 1 = .ok .any
      ∧ (∃ fn, deep.compileFast { maxTreeDepth := 1 } true = .ok fn ∧ fn.strategy = .fast)
      ∧ deep.emissionDepth { maxTreeDepth := 1 } = 5 :=
  ⟨rfl, ⟨_, rfl, rfl⟩, rfl⟩

end Lambda

end ExprTree

import ExprTree.Proofs.Function.Denotation
import ExprTree.Proofs.Tree.Binding

namespace ExprTree

/-!
# Which lambdas compile

Both strategies reject the same lambdas with the same errors.  Among the lambdas
that they accept, the fast one has no code for those that keep an extension node,
and only for those (`Lambda.compileFast_agrees`).

The errors that emission has of its own never come up: what a valid lambda reads
is declared, so the outermost scope has nothing to capture and every nested one
finds what it captures in the scope around it.
-/

/-- What is left of a tree without extension nodes has none either. -/
theorem Expr.KeepsExtension.isExtensionFree_eq_false {fold : Bool} {expr : Expr Value}
    (h : expr.KeepsExtension fold) : expr.isExtensionFree = false := by
  have all : ∀ {exprs : List (Expr Value)} {expr : Expr Value}, expr ∈ exprs →
      expr.isExtensionFree = false → Expr.areExtensionFree exprs = false := by
    intro exprs expr hmem hfalse
    rw [← Bool.not_eq_true, areExtensionFree_iff]
    exact fun hall => by simp [hall expr hmem] at hfalse
  induction h with
  | here => rfl
  | new hmem _ ih => exact all hmem ih
  | field _ ih | unary _ _ ih | lambda _ ih => exact ih
  | left _ _ ih | right _ _ ih | test _ _ ih | yes _ _ ih | no _ _ ih | target _ ih =>
    simp [Expr.isExtensionFree, ih]
  | arg hmem _ ih => simp [Expr.isExtensionFree, all hmem ih]

namespace Lambda

variable {lambda : Lambda Value} {options : CompilerOptions}

/-- An extension node is left in the body, outside everything that folding discards. -/
def KeepsExtension (lambda : Lambda Value) (options : CompilerOptions) : Prop :=
  lambda.body.reduce.KeepsExtension options.foldConstants

/-! ### Emission of valid lambdas -/

/-- A valid lambda reads only what it declares, also when it is reduced. -/
theorem reads_reduce_of_validate (hreductions : lambda.ReductionsBound) {limit : Nat} {ty : Ty}
    (h : lambda.validate limit = .ok ty) : lambda.body.reduce.reads ⊆ lambda.params :=
  Expr.reads_reduce_subset hreductions (reads_body_of_validate h)

/-- A lambda that reads only what it declares is emitted, unless it keeps an extension node. -/
theorem emit_of_reads (hreads : lambda.body.reduce.reads ⊆ lambda.params)
    (options : CompilerOptions) :
    (∃ callable plan, lambda.emit options = .ok (callable, plan) ∧ ¬ lambda.KeepsExtension options)
      ∨ ∃ what, lambda.emit options = .error (.notSupported what)
        ∧ lambda.KeepsExtension options := by
  have hgives : (lambda.emitRoot options).Gives {}
      (fun _ _ => ¬ lambda.KeepsExtension options)
      (fun error => (∃ what, error = .notSupported what) ∧ lambda.KeepsExtension options) := by
    refine Emit.gives_layout fun start _ => ?_
    refine (Expr.explained lambda.body ⟨lambda.params, []⟩ 1 0 start).mono (fun _ _ h => h.2)
      fun error h => ?_
    rcases h with h | ⟨param, hparam, hnone⟩
    · exact h
    · -- every parameter that is read is one of the lambda, so the root scope has a slot for it
      exact absurd hnone (Scope.resolve?_ne_none_of_mem (hreads hparam))
  unfold Emit.Gives at hgives
  rw [emit_eq, freeParameters_eq_nil_iff.2 hreads]
  split at hgives
  · rename_i body state hroot
    rw [hroot]
    exact .inl ⟨_, _, rfl, hgives⟩
  · rename_i error state hroot
    rw [hroot]
    obtain ⟨⟨what, rfl⟩, hkeeps⟩ := hgives
    exact .inr ⟨what, rfl, hkeeps⟩

/-! ### Compilation -/

/-- The baseline refuses what does not validate. -/
theorem compile_of_error {error : CompileError}
    (h : lambda.validate options.maxTreeDepth = .error error) :
    lambda.compile options = .error error := by
  rw [compile, h]
  rfl

/-- All that the baseline does is to validate. -/
theorem compile_of_ok {ty : Ty} (h : lambda.validate options.maxTreeDepth = .ok ty) :
    lambda.compile options = .ok (lambda.interpret options) := by
  rw [compile, h]
  rfl

/-- The fast strategy refuses what does not validate, before it emits anything. -/
theorem compileFast_of_error {error : CompileError} (strict : Bool)
    (h : lambda.validate options.maxTreeDepth = .error error) :
    lambda.compileFast options strict = .error error := by
  rw [compileFast, h]
  rfl

/-- A valid lambda is compiled as far as it is emitted. -/
theorem compileFast_of_ok {ty : Ty} (strict : Bool)
    (h : lambda.validate options.maxTreeDepth = .ok ty) :
    lambda.compileFast options strict =
      match lambda.emit options with
      | .ok (callable, plan) => .ok ⟨callable, .fast, options.maxCallDepth, some plan⟩
      | .error (.notSupported what) =>
        if strict then .error (.notSupported what) else .ok (lambda.interpret options)
      | .error error => .error error := by
  rw [compileFast, h]
  rfl

/-- What was compiled was valid, and limits its calls as the options say. -/
theorem compileBy_eq_ok {strategy : Strategy} {strict : Bool} {fn : CompiledFn}
    (h : lambda.compileBy strategy options strict = .ok fn) :
    (∃ ty, lambda.validate options.maxTreeDepth = .ok ty)
      ∧ fn.maxCallDepth = options.maxCallDepth := by
  cases hvalidate : lambda.validate options.maxTreeDepth with
  | error error =>
    cases strategy with
    | baseline =>
      have hcompile : lambda.compile options = .ok fn := h
      rw [compile_of_error hvalidate] at hcompile
      cases hcompile
    | fast =>
      have hcompile : lambda.compileFast options strict = .ok fn := h
      rw [compileFast_of_error strict hvalidate] at hcompile
      cases hcompile
  -- both keep the limit of the options
  | ok ty =>
    refine ⟨⟨ty, rfl⟩, ?_⟩
    cases strategy with
    | baseline =>
      have hcompile : lambda.compile options = .ok fn := h
      rw [compile_of_ok hvalidate] at hcompile
      cases hcompile
      rfl
    | fast => rcases compileFast_eq_ok h with ⟨_, _, _, rfl⟩ | rfl <;> rfl

/-- A lambda without extension nodes that was compiled reads nothing from outside. -/
theorem reads_of_compileBy (hfree : lambda.isExtensionFree = true) {strategy : Strategy}
    {strict : Bool} {fn : CompiledFn} (h : lambda.compileBy strategy options strict = .ok fn)
    (param : Parameter) : param ∉ lambda.reads := by
  obtain ⟨⟨ty, hvalidate⟩, _⟩ := compileBy_eq_ok h
  have hreads := reads_reduce_of_validate (Expr.reductionsBound_of_isExtensionFree hfree) hvalidate
  rw [Expr.reduce_eq_self hfree] at hreads
  intro hparam
  obtain ⟨hparam, hown⟩ := mem_reads.1 hparam
  exact hown (hreads hparam)

/-- What the fast strategy makes of a lambda that the baseline accepts. -/
theorem compileFast_of_compile (hreductions : lambda.ReductionsBound) {fn : CompiledFn}
    (h : lambda.compile options = .ok fn) :
    (∃ fast, lambda.compileFast options false = .ok fast
      ∧ (fast.strategy = .baseline ↔ lambda.KeepsExtension options))
    ∧ (lambda.KeepsExtension options
      ↔ ∃ what, lambda.compileFast options true = .error (.notSupported what))
    ∧ (¬ lambda.KeepsExtension options
      ↔ ∃ fast, lambda.compileFast options true = .ok fast ∧ fast.strategy = .fast) := by
  cases hvalidate : lambda.validate options.maxTreeDepth with
  | error error =>
    rw [compile_of_error hvalidate] at h
    cases h
  | ok ty =>
    rw [compileFast_of_ok false hvalidate, compileFast_of_ok true hvalidate]
    -- emission stops at an extension node or not at all
    rcases emit_of_reads (reads_reduce_of_validate hreductions hvalidate) options with
      ⟨callable, plan, hemit, hkeeps⟩ | ⟨what, hemit, hkeeps⟩
    · simp [hemit, hkeeps]
    · simp [hemit, hkeeps, interpret]

/-! ### Well-bound lambdas -/

/-- Nothing is free in a well-bound lambda without extension nodes. -/
theorem freeParameters_eq_nil (hbound : lambda.toExpr.WellBound [])
    (hfree : lambda.isExtensionFree = true) : lambda.freeParameters = [] := by
  rw [freeParameters_eq_nil_iff, Expr.reduce_eq_self hfree]
  exact reads_subset_of_wellBound hbound

/-- Neither strategy finds anything but types wrong with such a lambda. -/
theorem types_compile (hbound : lambda.toExpr.WellBound []) (hfree : lambda.isExtensionFree = true)
    (options : CompilerOptions) (strict : Bool) :
    Raises CompileError.IsTyping (lambda.compile options)
      ∧ Raises CompileError.IsTyping (lambda.compileFast options strict) := by
  cases hvalidate : lambda.validate options.maxTreeDepth with
  | error error =>
    have htyping := types_validate hbound _ _ hvalidate
    rw [compile_of_error hvalidate, compileFast_of_error strict hvalidate]
    exact ⟨raises_error htyping, raises_error htyping⟩
  | ok ty =>
    have hreads : lambda.body.reduce.reads ⊆ lambda.params := by
      rw [Expr.reduce_eq_self hfree]
      exact reads_subset_of_wellBound hbound
    rw [compile_of_ok hvalidate, compileFast_of_ok strict hvalidate]
    refine ⟨raises_ok, ?_⟩
    rcases emit_of_reads hreads options with ⟨callable, plan, hemit, _⟩ | ⟨what, _, hkeeps⟩
    · rw [hemit]
      exact raises_ok
    · -- a kept extension node would be one of the tree
      rw [KeepsExtension, Expr.reduce_eq_self hfree] at hkeeps
      rw [isExtensionFree, hkeeps.isExtensionFree_eq_false] at hfree
      cases hfree

/-! ### Agreement -/

/-- **Which lambdas the two strategies accept.**  They reject the same ones with the
    same errors, which are those of validation.  Of the others the fast strategy
    compiles those that keep no extension node; for the rest it falls back to the
    tree walk, or fails if it is strict. -/
theorem compileFast_agrees (lambda : Lambda Value) (options : CompilerOptions) :
    (lambda.ReductionsBound →
      (∀ error, lambda.compile options = .error error
        ↔ ∀ strict, lambda.compileFast options strict = .error error)
      ∧ (∀ error, lambda.compile options = .error error → error.IsValidation)
      ∧ ∀ fn, lambda.compile options = .ok fn →
        (∃ fast, lambda.compileFast options false = .ok fast
          ∧ (fast.strategy = .baseline ↔ lambda.KeepsExtension options))
        ∧ (lambda.KeepsExtension options
          ↔ ∃ what, lambda.compileFast options true = .error (.notSupported what))
        ∧ (¬ lambda.KeepsExtension options
          ↔ ∃ fast, lambda.compileFast options true = .ok fast ∧ fast.strategy = .fast))
    ∧ (lambda.isExtensionFree = true → ∀ fn, lambda.compile options = .ok fn →
        ∃ fast, lambda.compileFast options true = .ok fast ∧ fast.strategy = .fast) := by
  refine ⟨fun hreductions => ⟨fun error => ?_, fun error herror => ?_, fun fn hcompile =>
    compileFast_of_compile hreductions hcompile⟩, fun hfree fn hcompile => ?_⟩
  · cases hvalidate : lambda.validate options.maxTreeDepth with
    | error found =>
      simp only [compile_of_error hvalidate, compileFast_of_error _ hvalidate, forall_const]
    | ok ty =>
      have hcompile := compile_of_ok hvalidate
      -- the lambda compiles, so both sides say something that does not happen
      obtain ⟨⟨fast, hfast, _⟩, _⟩ := compileFast_of_compile hreductions hcompile
      rw [hcompile]
      constructor
      · exact fun h => by cases h
      · intro h
        rw [h false] at hfast
        cases hfast
  · cases hvalidate : lambda.validate options.maxTreeDepth with
    | error found =>
      rw [compile_of_error hvalidate] at herror
      cases herror
      exact lambda.checks_validate _ _ hvalidate
    | ok ty =>
      rw [compile_of_ok hvalidate] at herror
      cases herror
  · have hreductions : lambda.ReductionsBound := Expr.reductionsBound_of_isExtensionFree hfree
    refine (compileFast_of_compile hreductions hcompile).2.2.1 fun hkeeps => ?_
    have hkeeps : lambda.body.KeepsExtension options.foldConstants := by
      rwa [KeepsExtension, Expr.reduce_eq_self hfree] at hkeeps
    rw [isExtensionFree, hkeeps.isExtensionFree_eq_false] at hfree
    cases hfree

/-- An argument or what the host makes of it, by a test that is known. -/
def probe : Lambda Value :=
  ⟨[⟨1, "x", .any⟩], .conditional (.constant (.bool true))
    (.extension ⟨"same", .any, "first"⟩ [] (some (.parameter ⟨1, "x", .any⟩)))
    (.extension ⟨"probe", .any, "first"⟩ [.parameter ⟨1, "x", .any⟩] none)⟩

/-- Folding decides whether the fast strategy can compile a lambda. -/
theorem compileFast_probe :
    (∃ fast, probe.compileFast {} true = .ok fast ∧ fast.strategy = .fast)
      ∧ ∃ what, probe.compileFast { foldConstants := false } true
        = .error (.notSupported what) := by
  have hreductions : probe.ReductionsBound := by
    simp [ReductionsBound, probe, Expr.ReductionsBound, Expr.ReductionsAllBound, Expr.reduce,
      Expr.reads]
  constructor
  · refine (((compileFast_agrees probe {}).1 hreductions).2.2 _ rfl).2.2.1 fun hkeeps => ?_
    cases hkeeps with
    | test hnone _ => cases hnone
    | yes _ hkeeps => cases hkeeps
    | no hnone _ => exact hnone rfl
  · have hagrees := (compileFast_agrees probe { foldConstants := false }).1 hreductions
    exact (hagrees.2.2 _ rfl).2.1.1 (.no (by decide) .here)

end Lambda

end ExprTree

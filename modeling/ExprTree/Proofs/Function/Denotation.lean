import ExprTree.Function
import ExprTree.Proofs.Code.Emitted

namespace ExprTree

/-!
# What compiled functions denote

A function compiled by the baseline denotes the lambda it was compiled from, and
one that the fast strategy made code of denotes the lambda with its reductions
carried out (`Lambda.denotes_of_compileBy`).  Either way it holds no values but
those that the lambda holds and primitives that folding found.
-/

namespace Lambda

variable {lambda : Lambda Value} {options : CompilerOptions} {strict : Bool} {fn : CompiledFn}

/-- The function that walks the tree holds what the tree holds. -/
theorem denotes_interpret (lambda : Lambda Value) (options : CompilerOptions) :
    (lambda.interpret options).callable.Denotes lambda (fun _ => none)
      ∧ (lambda.interpret options).callable.parts = lambda.parts :=
  ⟨Callable.denotes_interpreted _ _, List.append_nil _⟩

/-- What the fast strategy can come to: code, or the tree walk where the tree is not supported. -/
theorem compileFast_eq_ok (h : lambda.compileFast options strict = .ok fn) :
    (∃ callable plan, lambda.emit options = .ok (callable, plan)
        ∧ fn = ⟨callable, .fast, options.maxCallDepth, some plan⟩)
      ∨ fn = lambda.interpret options := by
  unfold compileFast at h
  cases hvalidate : lambda.validate options.maxTreeDepth with
  | error error =>
    rw [hvalidate] at h
    cases h
  | ok ty =>
    rw [hvalidate] at h
    cases hemit : lambda.emit options with
    | ok pair =>
      rw [hemit] at h
      cases h
      exact .inl ⟨pair.1, pair.2, rfl, rfl⟩
    | error error =>
      rw [hemit] at h
      cases error with
      | notSupported what =>
        cases strict with
        | true => cases h
        | false =>
          cases h
          -- emission met an extension node, and the baseline takes over
          exact .inr rfl
      | _ => cases h

/-- A function with a plan is emitted code, and with other options the same lambda is
    compiled as far as it is emitted. -/
theorem emit_of_compileFast (h : lambda.compileFast options strict = .ok fn)
    {plan : Plan}
    (hplan : fn.plan? = some plan) :
    lambda.emit options = .ok (fn.callable, plan)
      ∧ ∀ options' : CompilerOptions, options'.maxTreeDepth = options.maxTreeDepth →
        ∀ callable' plan', lambda.emit options' = .ok (callable', plan') →
          lambda.compileFast options' strict
            = .ok ⟨callable', .fast, options'.maxCallDepth, some plan'⟩ := by
  constructor
  · rcases compileFast_eq_ok h with ⟨callable, plan', hemit, rfl⟩ | rfl
    · cases hplan
      exact hemit
    · cases hplan
  · -- validation depends on the limit for the depth of trees only
    intro options' hlimit callable' plan' hemit
    unfold compileFast at h ⊢
    rw [hlimit, hemit]
    cases hvalidate : lambda.validate options.maxTreeDepth with
    | error error =>
      rw [hvalidate] at h
      cases h
    | ok ty => rfl

/-- **What a function denotes and holds**, by whichever strategy it was compiled.  The
    code that the fast strategy makes takes its constants from a pool, where two that are
    equal share an entry: so the constants have to be told apart by their ids. -/
theorem denotes_of_compileBy {values : Value → Prop} (hcoherent : Value.Coherent values)
    (hliterals : ∀ c ∈ lambda.literals, values c) {strategy : Strategy}
    (h : lambda.compileBy strategy options strict = .ok fn) :
    (∃ target val, (target = lambda ∨ target = lambda.reduce) ∧ fn.callable.Denotes target val)
      ∧ ∀ part ∈ fn.callable.parts,
        part.isPrimitive = true ∨ values part ∨ part ∈ lambda.parts := by
  -- the baseline compiles to a closure over the tree, and so does the fast strategy where
  -- it gives up
  have hinterpret : fn = lambda.interpret options →
      (∃ target val, (target = lambda ∨ target = lambda.reduce) ∧ fn.callable.Denotes target val)
        ∧ ∀ part ∈ fn.callable.parts,
          part.isPrimitive = true ∨ values part ∨ part ∈ lambda.parts := by
    rintro rfl
    obtain ⟨hdenotes, hparts⟩ := denotes_interpret lambda options
    rw [hparts]
    exact ⟨⟨lambda, _, .inl rfl, hdenotes⟩, fun part hpart => .inr (.inr hpart)⟩
  cases strategy with
  | baseline =>
    have h : lambda.compile options = .ok fn := h
    unfold compile at h
    cases hvalidate : lambda.validate options.maxTreeDepth with
    | error error =>
      rw [hvalidate] at h
      cases h
    | ok ty =>
      rw [hvalidate] at h
      cases h
      exact hinterpret rfl
  | fast =>
    rcases compileFast_eq_ok h with ⟨callable, plan, hemit, rfl⟩ | hfn
    · obtain ⟨hdenotes, hparts⟩ := denotes_of_emit hcoherent hliterals hemit
      exact ⟨⟨lambda.reduce, _, .inr rfl, hdenotes⟩,
        fun part hpart => (hparts part hpart).imp_right .inl⟩
    · exact hinterpret hfn

variable {strategy : Strategy}

/-- Where there is nothing to reduce, a function denotes the lambda it was compiled from. -/
theorem denotes_of_isExtensionFree (hfree : lambda.isExtensionFree = true)
    (hcoherent : Value.Coherent fun c => c ∈ lambda.literals)
    (h : lambda.compileBy strategy options strict = .ok fn) :
    ∃ val, fn.callable.Denotes lambda val := by
  obtain ⟨⟨target, val, htarget, hdenotes⟩, _⟩ :=
    denotes_of_compileBy hcoherent (fun _ hc => hc) h
  rw [reduce_eq_self hfree, or_self] at htarget
  subst htarget
  exact ⟨val, hdenotes⟩

end Lambda

end ExprTree

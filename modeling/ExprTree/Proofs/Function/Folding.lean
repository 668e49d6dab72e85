import ExprTree.Proofs.Code.Folding
import ExprTree.Proofs.Function.ConstantTable

namespace ExprTree

/-!
# What folding makes of a function

A lambda that the fast strategy compiles without folding is also compiled with folding.
`Plan.Trims` says what becomes of its plan, and `Lambda.compileFast_folding` that this is
so for every lambda.
-/

/-- The plan of a function that was compiled with folding, compared with that of the same
one `unfolded`.

* `foldedNodes` — without folding no node is folded away;
* `lambdas` — with folding lambdas may be left out, the others keep their layouts and
  their order;
* `constants` — the shared constants are among those without folding;
* `inlineConstants` — a constant in the code is one without folding, or stands for a node
  that was folded away. -/
structure Plan.Trims (plan unfolded : Plan) : Prop where
  foldedNodes : unfolded.foldedNodes = 0
  lambdas : plan.lambdas.Sublist unfolded.lambdas
  constants : ∀ c ∈ plan.constants, unfolded.constants.contains c = true
  inlineConstants : plan.inlineConstants ≤ unfolded.inlineConstants + plan.foldedNodes

namespace Lambda

variable {lambda : Lambda Value} {options : CompilerOptions} {fn : CompiledFn} {plan : Plan}

/-- A function that was compiled strictly has a plan. -/
theorem exists_plan_of_strict (h : lambda.compileFast options true = .ok fn) :
    ∃ plan, fn.plan? = some plan := by
  cases hvalidate : lambda.validate options.maxTreeDepth with
  | error error =>
    rw [compileFast, hvalidate] at h
    cases h
  | ok ty =>
    rw [compileFast, hvalidate] at h
    cases hemit : lambda.emit options with
    | ok pair =>
      rw [hemit] at h
      cases h
      exact ⟨pair.2, rfl⟩
    | error error =>
      rw [hemit] at h
      -- nothing falls back to the baseline, which has no plan
      cases error <;> cases h

/-- What is hoisted with folding is hoisted without it, too. -/
theorem hoisted_subset (lambda : Lambda Value) (options : CompilerOptions) :
    lambda.hoisted { options with foldConstants := true }
      ⊆ lambda.hoisted { options with foldConstants := false } := by
  intro c hc
  obtain ⟨hc, hhoisted⟩ := List.mem_filter.1 hc
  exact List.mem_filter.2 ⟨Expr.uses_subset_literals _ hc, hhoisted⟩

/-- The shared constants of a plan are hoisted out of the lambda. -/
theorem mem_hoisted_of_emit {callable : Callable Value}
    (h : lambda.emit options = .ok (callable, plan)) {c : Value} (hc : c ∈ plan.constants) :
    c ∈ lambda.hoisted options := by
  rw [(constants_of_emit h).1] at hc
  exact (mem_of_mem_foldl_addNew hc).resolve_left List.not_mem_nil

/-- What is emitted without folding is emitted with folding, by a plan that does no more. -/
theorem emit_of_folding {callable : Callable Value}
    (h : lambda.emit { options with foldConstants := false } = .ok (callable, plan)) :
    ∃ other plan', lambda.emit { options with foldConstants := true } = .ok (other, plan')
      ∧ plan'.Trims plan := by
  obtain ⟨emitted, state, hrun, _, rfl⟩ := emit_eq_ok.1 h
  obtain ⟨hfree, hemits⟩ := emitBody_eq_ok.1 hrun
  obtain ⟨emitted', state', hemits', hleaner⟩ :=
    hemits.leaner lambda.rootState ⟨.refl _, Nat.le_refl _⟩
  have hother := emit_eq_ok.2 ⟨emitted', state', emitBody_eq_ok.2 ⟨hfree, hemits'⟩, rfl, rfl⟩
  refine ⟨_, _, hother, hemits.foldedNodes_eq rfl, hleaner.layouts, fun c hc => ?_,
    hleaner.inlineConstants⟩
  have hhoisted := hoisted_subset lambda options (mem_hoisted_of_emit hother hc)
  rw [(constants_of_emit h).1]
  exact contains_foldl_addNew (mem_of_hoisted hhoisted).1 (.inr hhoisted)

/-- **Folding only removes work.**  A lambda that the fast strategy compiles without folding
    it also compiles with folding, and with no other options changed the plan only becomes
    smaller: fewer lambdas, fewer shared constants, and no more constants in the code than
    the nodes that were folded away account for.

Shared constants are compared as they are shared, references by their ids.  Where
references with one id are one reference, they are the same. -/
theorem compileFast_folding (options : CompilerOptions)
    (h : lambda.compileFast { options with foldConstants := false } true = .ok fn) :
    ∃ plan folded plan', fn.plan? = some plan
      ∧ lambda.compileFast { options with foldConstants := true } true = .ok folded
      ∧ folded.plan? = some plan' ∧ plan'.Trims plan
      ∧ (Value.Coherent (· ∈ lambda.literals) → plan'.constants ⊆ plan.constants) := by
  obtain ⟨plan, hplan⟩ := exists_plan_of_strict h
  obtain ⟨hemit, hcompiles⟩ := emit_of_compileFast h hplan
  obtain ⟨other, plan', hother, htrims⟩ := emit_of_folding hemit
  refine ⟨plan, _, plan', hplan,
    hcompiles { options with foldConstants := true } rfl other plan' hother, rfl, htrims,
    fun hcoherent c hc => ?_⟩
  obtain ⟨item, hitem, hbeq⟩ := List.contains_iff_exists_mem_beq.1 (htrims.constants c hc)
  have hliteral : ∀ {options : CompilerOptions} {value : Value},
      value ∈ lambda.hoisted options → value ∈ lambda.literals :=
    fun hvalue => Expr.literals_reduce _ (mem_of_hoisted hvalue).2
  have hlisted := mem_hoisted_of_emit hemit hitem
  -- the table without folding has a constant that equals this one; by coherence it is the same
  have hsame := hcoherent.eq_of_beq (hliteral (mem_hoisted_of_emit hother hc))
    (hliteral hlisted) (mem_of_hoisted hlisted).1 hbeq
  exact hsame ▸ hitem

/-- One of two functions, chosen by a known test; both add up known numbers. -/
def choice : Lambda Value :=
  let sum := .binary .add (.constant (.number ⟨1⟩)) (.constant (.number ⟨2⟩))
  ⟨[⟨0, "x", .any⟩], .conditional (.constant (.bool true))
    (.lambda [⟨1, "y", .any⟩] (.invoke (.parameter ⟨0, "x", .any⟩) [sum, .constant (.string "a")]))
    (.lambda [⟨2, "z", .any⟩] (.invoke (.parameter ⟨2, "z", .any⟩) [sum, .constant (.string "b")]))⟩

/-- Folding leaves two of the three lambdas of `choice` and one of its two strings.  Of its
    five numbers and tests in the code it leaves three, and adds the sum that it found. -/
theorem compileFast_folding_choice :
    ∃ fn plan folded plan',
      choice.compileFast { foldConstants := false } true = .ok fn ∧ fn.plan? = some plan
      ∧ choice.compileFast {} true = .ok folded ∧ folded.plan? = some plan'
      ∧ plan'.Trims plan ∧ plan'.constants ⊆ plan.constants
      ∧ plan.lambdas.map (·.params) = [["x"], ["y"], ["z"]] ∧ plan.inlineConstants = 5
      ∧ plan'.lambdas.map (·.params) = [["x"], ["y"]] ∧ plan'.constants = [.string "a"]
      ∧ plan'.inlineConstants = 4 ∧ plan'.foldedNodes = 2 := by
  have hcoherent : Value.Coherent (· ∈ choice.literals) := by
    constructor <;> simp [choice, literals, Expr.literals, Expr.literalsOfAll]
  have hcompiles : choice.compileFast { foldConstants := false } true = .ok _ := rfl
  obtain ⟨plan, folded, plan', hplan, hfolded, hplan', htrims, hsubset⟩ :=
    compileFast_folding {} hcompiles
  -- the branch with "b" is not taken
  have hconstants : plan'.constants = [.string "a"] :=
    (constants_of_emit (emit_of_compileFast hfolded hplan').1).1
  cases hplan
  cases hfolded
  cases hplan'
  exact ⟨_, _, _, _, hcompiles, rfl, rfl, rfl, htrims, hsubset hcoherent, rfl, rfl, rfl,
    hconstants, rfl, rfl⟩

end Lambda

end ExprTree

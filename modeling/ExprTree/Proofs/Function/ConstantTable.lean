import ExprTree.Proofs.Code.Pool
import ExprTree.Proofs.Function.Denotation

namespace ExprTree

/-!
# The table of constants of a function

A function that was compiled by the fast strategy has one table for the constants of all
its closures.  `ConstantTable` says what stands in it and who reads it;
`Lambda.table_of_compileFast` is that compilation makes such a table, and that the rest of
the plan does not depend on whether it does.
-/

/-- A table of constants, compared with the constants that are `listed` for a tree, those
    that are `hoisted` out of it and the positions that its code `loads`.

* `mem` — what is in the table is listed, and not a primitive;
* `distinct` — no two entries are equal;
* `used` — no entry is superfluous;
* `loaded` — where a constant was hoisted its own value is read. -/
structure ConstantTable (listed hoisted : List Value) (loads : List Nat) (table : List Value) :
    Prop where
  mem : ∀ c ∈ table, c.isPrimitive = false ∧ listed.contains c = true
  distinct : table.Pairwise fun a b => (a == b) = false
  used : ∀ index < table.length, index ∈ loads
  loaded : List.Forall₂ (fun index c => ∃ item, table[index]? = some item ∧ (item == c) = true)
    loads hoisted

namespace Lambda

variable {lambda : Lambda Value} {options : CompilerOptions} {strict : Bool} {fn : CompiledFn}
  {callable : Callable Value} {plan : Plan}

/-! ### Emission -/

/-- What is hoisted out of a lambda. -/
def hoisted (lambda : Lambda Value) (options : CompilerOptions) : List Value :=
  lambda.body.reduce.hoisted options

/-- The table holds what is hoisted, each value once. -/
theorem constants_of_emit (h : lambda.emit options = .ok (callable, plan)) :
    plan.constants = (lambda.hoisted options).foldl addNew []
      ∧ ∃ code, callable = .compiled lambda.params code [] plan.constants
        ∧ (∀ index < plan.constants.length, index ∈ code.loads)
        ∧ List.Forall₂ (fun index c => ∃ item,
          plan.constants[index]? = some item ∧ (item == c) = true)
          code.loads (lambda.hoisted options) := by
  obtain ⟨emitted, state, hrun, rfl, rfl⟩ := emit_eq_ok.1 h
  have hpools : Pools {} (lambda.hoisted options) emitted.code.loads state.pool :=
    (emitBody_eq_ok.1 hrun).2.pools
  have hloads : emitted.code.loads = (({} : Arena Value).internAll (lambda.hoisted options)).1 :=
    congrArg Prod.fst hpools
  have hpool : state.pool = (({} : Arena Value).internAll (lambda.hoisted options)).2 :=
    congrArg Prod.snd hpools
  have hvalues : ∀ c ∈ lambda.hoisted options, LawfulAt c := fun c hc =>
    Value.lawfulAt (Expr.not_isPrimitive_of_hoisted c hc)
  have hconstants : state.plan.constants
      = (({} : Arena Value).internAll (lambda.hoisted options)).2.toList :=
    congrArg Arena.toList hpool
  refine ⟨hconstants.trans (Arena.toList_internAll hvalues), emitted.code, rfl, ?_, ?_⟩
  · -- the pool started empty, so every entry was interned for some constant
    intro index hindex
    rw [hconstants, Arena.length_toList] at hindex
    rw [hloads]
    exact (Arena.mem_of_lt_internAll hindex).resolve_left (Nat.not_lt_zero index)
  · rw [hconstants, hloads]
    refine (Arena.mem_places_internAll hvalues).imp fun index c => ?_
    rintro ⟨item, hitem, heq⟩
    exact ⟨item, (Arena.getElem?_toList _ index).trans hitem, heq⟩

/-- What is hoisted stands in the lambda and is listed among its constants. -/
theorem mem_of_hoisted {c : Value} (h : c ∈ lambda.hoisted options) :
    c.isPrimitive = false ∧ c ∈ lambda.body.reduce.literals := by
  refine ⟨Expr.not_isPrimitive_of_hoisted c h, ?_⟩
  have hmem := (List.mem_filter.1 h).1
  split at hmem
  · exact Expr.uses_subset_literals _ hmem
  · exact hmem

/-- Without folding all constants but the primitives are hoisted. -/
theorem foldl_hoisted (hhoist : options.hoistConstants = true)
    (hfold : options.foldConstants = false) :
    (lambda.hoisted options).foldl addNew [] = lambda.constants.filter fun c => !c.isPrimitive := by
  rw [constants, Expr.constants_eq_foldl, filter_foldl_addNew]
  simp [hoisted, Expr.hoisted, hhoist, hfold]

/-- The plan of a lambda, with or without hoisting. -/
theorem emit_of_hoisting (hoist : Bool) (h : lambda.emit options = .ok (callable, plan)) :
    ∃ other plan', lambda.emit { options with hoistConstants := hoist } = .ok (other, plan')
      ∧ plan'.lambdas = plan.lambdas ∧ plan'.inlineConstants = plan.inlineConstants
      ∧ plan'.foldedNodes = plan.foldedNodes := by
  obtain ⟨emitted, state, hrun, _, rfl⟩ := emit_eq_ok.1 h
  obtain ⟨hfree, hemits⟩ := emitBody_eq_ok.1 hrun
  obtain ⟨emitted', state', hemits', hcounts, _⟩ :=
    hemits.of_hoisting hoist lambda.rootState ⟨rfl, rfl, rfl⟩
  have hrun' := emitBody_eq_ok.2 ⟨hfree, hemits'⟩
  exact ⟨_, _, emit_eq_ok.2 ⟨emitted', state', hrun', rfl, rfl⟩, hcounts.layouts,
    hcounts.inlineConstants, hcounts.foldedNodes⟩

/-! ### Compilation -/

/-- **The table of a function.**  If constants are hoisted, the code of a function that was
    compiled by the fast strategy comes with a table of constants.

* Without folding it lists the constants of the lambda but for primitives, in the same
  order.
* Where references with one id are one reference, what is read from it is the constant
  that was hoisted.
* With and without hoisting the lambda compiles, and the plans differ in the table only,
  which is empty without. -/
theorem table_of_compileFast (h : lambda.compileFast options strict = .ok fn)
    (hplan : fn.plan? = some plan) :
    ∃ code, fn.callable = .compiled lambda.params code [] plan.constants
      ∧ (options.hoistConstants = true →
        ConstantTable lambda.constants (lambda.hoisted options) code.loads plan.constants
        ∧ (options.foldConstants = false →
          plan.constants = lambda.constants.filter fun c => !c.isPrimitive)
        ∧ (Value.Coherent (· ∈ lambda.literals) →
          plan.constants ⊆ lambda.constants
          ∧ code.loads.map (plan.constants[·]?) = (lambda.hoisted options).map some))
      ∧ ∀ hoist, ∃ other plan',
        lambda.compileFast { options with hoistConstants := hoist } strict = .ok other
        ∧ other.plan? = some plan'
        ∧ (hoist = false → plan'.constants = [])
        ∧ plan'.lambdas = plan.lambdas ∧ plan'.inlineConstants = plan.inlineConstants
        ∧ plan'.foldedNodes = plan.foldedNodes := by
  obtain ⟨hemit, hcompiles⟩ := emit_of_compileFast h hplan
  obtain ⟨htable, code, hcode, hused, hloaded⟩ := constants_of_emit hemit
  have hmem : ∀ c ∈ plan.constants, c ∈ lambda.hoisted options := fun c hc => by
    rw [htable] at hc
    exact (mem_of_mem_foldl_addNew hc).resolve_left List.not_mem_nil
  have hlisted : ∀ c ∈ plan.constants, c.isPrimitive = false
      ∧ lambda.constants.contains c = true := fun c hc => by
    obtain ⟨hprim, hc⟩ := mem_of_hoisted (hmem c hc)
    rw [constants, Expr.constants_eq_foldl]
    exact ⟨hprim, contains_foldl_addNew hprim (.inr hc)⟩
  refine ⟨code, hcode, fun hhoist => ⟨⟨hlisted, ?_, hused, hloaded⟩, ?_, ?_⟩, fun hoist => ?_⟩
  · rw [htable]
    exact pairwise_foldl_addNew Expr.not_isPrimitive_of_hoisted .nil
  · exact fun hfold => htable.trans (foldl_hoisted hhoist hfold)
  · intro hcoherent
    have hliterals : ∀ c ∈ lambda.hoisted options, c ∈ lambda.literals := fun c hc =>
      Expr.literals_reduce _ (mem_of_hoisted hc).2
    constructor
    · intro c hc
      obtain ⟨hprim, hcontains⟩ := hlisted c hc
      obtain ⟨listed, hmem', hbeq⟩ := List.contains_iff_exists_mem_beq.1 hcontains
      have hlisted : listed ∈ lambda.literals := by
        rw [constants, Expr.constants_eq_foldl] at hmem'
        exact Expr.literals_reduce _ ((mem_of_mem_foldl_addNew hmem').resolve_left List.not_mem_nil)
      rw [Value.isPrimitive_of_beq hbeq] at hprim
      -- a constant in the table equals one that is listed, and by coherence is the same one
      rwa [hcoherent.eq_of_beq (hliterals c (hmem c hc)) hlisted hprim hbeq]
    · have hboth := (List.forall₂_and_left _ _).2
        ⟨fun c (hc : c ∈ lambda.hoisted options) => hc, hloaded.flip⟩
      rw [eq_comm, ← List.forall₂_eq_eq_eq, List.forall₂_map_left_iff, List.forall₂_map_right_iff]
      refine hboth.imp fun c index => ?_
      rintro ⟨hc, item, hitem, hbeq⟩
      have hsame := hcoherent.eq_of_beq (hliterals item (hmem item (List.mem_of_getElem? hitem)))
        (hliterals c hc) (mem_of_hoisted hc).1 hbeq
      rw [hitem, hsame]
  · obtain ⟨other, plan', hother, hsame⟩ := emit_of_hoisting hoist hemit
    have hfn := hcompiles { options with hoistConstants := hoist } rfl other plan' hother
    refine ⟨_, plan', hfn, rfl, fun hoff => ?_, hsame⟩
    rw [(constants_of_emit hother).1]
    simp [hoisted, Expr.hoisted, hoff]

/-- A choice between strings, one of them twice and one where it is never chosen. -/
def pick : Lambda Value :=
  ⟨[⟨0, "flag", .bool⟩], .conditional (.parameter ⟨0, "flag", .bool⟩)
    (.conditional (.constant (.bool true)) (.constant (.string "b")) (.constant (.string "a")))
    (.conditional (.parameter ⟨0, "flag", .bool⟩) (.constant (.string "c"))
      (.constant (.string "b")))⟩

/-- With folding the table of `pick` has the two strings that can be chosen, and the first of
    them is read twice.  Without folding it has all three. -/
theorem table_of_compileFast_pick :
    (∃ fn plan, ∃ code : Code Value, pick.compileFast {} true = .ok fn ∧ fn.plan? = some plan
      ∧ fn.callable = .compiled pick.params code [] plan.constants
      ∧ Value.Coherent (· ∈ pick.literals)
      ∧ plan.constants ⊆ pick.constants
      ∧ code.loads.map (plan.constants[·]?)
        = [some (.string "b"), some (.string "c"), some (.string "b")]
      ∧ ∃ other plan', pick.compileFast { hoistConstants := false } true = .ok other
        ∧ other.plan? = some plan' ∧ plan'.constants = [])
    ∧ ∃ fn plan, pick.compileFast { foldConstants := false } true = .ok fn ∧ fn.plan? = some plan
      ∧ plan.constants = [.string "b", .string "a", .string "c"] := by
  have hcoherent : Value.Coherent (· ∈ pick.literals) := by
    constructor <;> simp [pick, literals, Expr.literals]
  have hhoisted : pick.hoisted {} = [.string "b", .string "c", .string "b"] := rfl
  have hconstants : (pick.constants.filter fun c => !c.isPrimitive)
      = [.string "b", .string "a", .string "c"] := rfl
  have hfolded : pick.compileFast {} true = .ok _ := rfl
  obtain ⟨code, hcode, htable, hother⟩ := table_of_compileFast hfolded rfl
  obtain ⟨_, _, hcoherent'⟩ := htable rfl
  obtain ⟨other, plan', hcompiles, hplan, hempty, _⟩ := hother false
  have hunfolded : pick.compileFast { foldConstants := false } true = .ok _ := rfl
  obtain ⟨_, _, hfull, _⟩ := table_of_compileFast hunfolded rfl
  obtain ⟨_, hlisted, _⟩ := hfull rfl
  -- with folding the branch with "a" is gone, and its constant with it
  obtain ⟨hsubset, hloads⟩ := hcoherent' hcoherent
  rw [hhoisted] at hloads
  exact ⟨⟨_, _, code, rfl, rfl, hcode, hcoherent, hsubset, hloads, other, plan', hcompiles, hplan,
    hempty rfl⟩, _, _, rfl, rfl, (hlisted rfl).trans hconstants⟩

end Lambda

end ExprTree

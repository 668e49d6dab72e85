import ExprTree.Proofs.Code.StaticTypes
import ExprTree.Proofs.Function.Compilation
import ExprTree.Proofs.Tree.FreeParameters
import ExprTree.Proofs.Tree.Occurrence

namespace ExprTree

/-!
# Static types of a whole lambda

Validation and emission go through a lambda side by side.  `Lambda.EmittedAt` names the places
that they come to: for validation a place is given by what the lambdas around it declare, for
emission by a `Spot`, and the depth of the one is the level of the other.

In a valid lambda both inferences agree at every place (`Lambda.static_types_of_validate`).
-/

/-! ### Places that suit a tree -/

/-- The tree at a place has a type, and everything that it reads has a slot. -/
structure Spot.Suits (limit : Nat) (scopes : List (List Parameter)) (spot : Spot)
    (expr : Expr Value) : Prop where
  extensionFree : expr.isExtensionFree = true
  typed : ∃ ty, expr.infer limit scopes spot.level = .ok ty
  resolves : ∀ param ∈ expr.reads, spot.scope.resolve? param ≠ none

namespace Spot

variable {limit : Nat} {scopes added : List (List Parameter)} {spot inside : Spot}
  {expr sub body : Expr Value} {params : List Parameter} {inner : Scope}

/-- Inside a lambda everything that is declared or captured has a slot. -/
theorem resolves_nested (hnested : Scope.nested ⟨params, body⟩ spot.scope = .ok inner)
    (hfree : body.isExtensionFree = true) : ∀ param ∈ body.reads, inner.resolve? param ≠ none := by
  intro param hparam
  have hnests := Scope.nests_of_nested hnested
  have hfree : Lambda.isExtensionFree ⟨params, body⟩ = true := hfree
  rw [Lambda.reduce_eq_self hfree] at hnests
  exact hnests.resolves hparam

/-- A lambda is entered where what it reads has a slot. -/
theorem exists_nested (hfree : (Expr.lambda params body).isExtensionFree = true)
    (hresolves : ∀ param ∈ (Expr.lambda params body).reads, spot.scope.resolve? param ≠ none) :
    ∃ inner, Scope.nested ⟨params, body⟩ spot.scope = .ok inner := by
  cases hnested : Scope.nested ⟨params, body⟩ spot.scope with
  | ok inner => exact ⟨inner, rfl⟩
  | error error =>
    obtain ⟨param, hparam, hnone⟩ := Scope.unresolved_of_nested hnested
    have hfree : Lambda.isExtensionFree ⟨params, body⟩ = true := hfree
    rw [Lambda.reduce_eq_self hfree] at hparam
    exact absurd hnone (hresolves param hparam)

namespace Suits

/-- What suits a tree suits its parts. -/
theorem part (h : spot.Suits limit scopes expr) (hpart : spot.Part expr added inside sub) :
    inside.Suits limit (added ++ scopes) sub := by
  obtain ⟨hfree, ⟨_, hty⟩, hresolves⟩ := h
  -- an operand of the node is inferred in the same scopes, the body of a lambda inside one more
  cases hpart with
  | operand hdirect hsub =>
    exact ⟨Expr.isExtensionFree_of_child hfree hsub, Expr.infer_of_child hty hsub hdirect,
      fun param hparam => hresolves param (Expr.reads_subset_of_child hsub hparam)⟩
  | body hnested => exact ⟨hfree, (Expr.infer_lambda hty).1, resolves_nested hnested hfree⟩
  | directBody hnested =>
    have hbody := (Bool.and_eq_true_iff.1 hfree).1
    exact ⟨hbody, ⟨_, (Expr.infer_direct hty).1⟩, resolves_nested hnested hbody⟩
  | @directArg params body args _ harg =>
    have hchild : sub ∈ (Expr.invoke (.lambda params body) args).children :=
      List.mem_cons_of_mem _ harg
    exact ⟨Expr.isExtensionFree_of_child hfree hchild, (Expr.infer_direct hty).2 sub harg,
      fun param hparam => hresolves param (Expr.reads_subset_of_child hchild hparam)⟩
  | reduced => cases hfree

/-- A tree is emitted from any state where it suits. -/
theorem emits (h : spot.Suits limit scopes expr) (options : CompilerOptions) (state : EmitState) :
    ∃ emitted after, Emits options spot state expr emitted after := by
  have hexplained : expr.Explained options := expr.explained
  have hexplained := hexplained spot.scope spot.depth spot.level state
  unfold Emit.Gives at hexplained
  rw [Expr.reduce_eq_self h.extensionFree] at hexplained
  split at hexplained
  · rename_i emitted after hrun
    exact ⟨emitted, after, hrun⟩
  · rcases hexplained with ⟨_, hkeeps⟩ | ⟨param, hparam, hnone⟩
    · have hfree := h.extensionFree
      rw [hkeeps.isExtensionFree_eq_false] at hfree
      cases hfree
    · exact absurd hnone (h.resolves param hparam)

end Suits

end Spot

/-! ### Lambdas -/

namespace Lambda

variable {lambda : Lambda Value} {options : CompilerOptions} {limit : Nat}
  {scopes : List (List Parameter)} {spot : Spot} {expr : Expr Value} {ty : Ty}

/-- Where emission and validation come to, from the body of the outermost lambda on. -/
inductive EmittedAt (lambda : Lambda Value) : List (List Parameter) → Spot → Expr Value → Prop
  | root : EmittedAt lambda [lambda.params] lambda.rootSpot lambda.body
  | part {scopes added spot inside expr sub} :
      EmittedAt lambda scopes spot expr → spot.Part expr added inside sub →
      EmittedAt lambda (added ++ scopes) inside sub

/-- All places in a valid lambda suit the trees there. -/
theorem EmittedAt.suits (hfree : lambda.isExtensionFree = true)
    (hvalid : lambda.validate limit = .ok ty) (h : lambda.EmittedAt scopes spot expr) :
    spot.Suits limit scopes expr := by
  induction h with
  | root =>
    exact ⟨hfree, ⟨ty, declaringOnce_eq_ok hvalid⟩, fun param hparam =>
      Scope.resolve?_ne_none_of_mem (reads_body_of_validate hvalid hparam)⟩
  | part _ hpart ih => exact ih.part hpart

/-- **Emission comes to every tree in a valid lambda**, but for lambdas that are invoked at once
    and for the outermost one, where it comes to the body. -/
theorem Occurs.emittedAt (hfree : lambda.isExtensionFree = true)
    (hvalid : lambda.validate limit = .ok ty) (h : lambda.Occurs scopes expr) :
    (∃ spot, lambda.EmittedAt scopes spot expr)
      ∨ ∃ params body spot, expr = .lambda params body
        ∧ lambda.EmittedAt (params :: scopes) spot body := by
  induction h with
  | root => exact .inr ⟨_, _, _, rfl, .root⟩
  | @operand scopes expr sub _ hsub ih =>
    rcases ih with ⟨spot, hplace⟩ | ⟨_, _, _, rfl, _⟩
    · by_cases hdirect : ∃ params body args, expr = .invoke (.lambda params body) args
      · obtain ⟨params, body, args, rfl⟩ := hdirect
        rcases List.mem_cons.1 hsub with rfl | harg
        · -- the target is passed over, and its body comes next
          have hsuits := hplace.suits hfree hvalid
          obtain ⟨inner, hnested⟩ := Spot.exists_nested
            (Bool.and_eq_true_iff.1 hsuits.extensionFree).1 fun param hparam =>
              hsuits.resolves param (Expr.reads_subset_of_child hsub hparam)
          exact .inr ⟨params, body, _, rfl, hplace.part (.directBody hnested)⟩
        · exact .inl ⟨_, hplace.part (.directArg harg)⟩
      · refine .inl ⟨_, hplace.part (.operand (fun params body args heq => ?_) hsub)⟩
        exact hdirect ⟨params, body, args, heq⟩
    · cases hsub
  | body _ ih =>
    rcases ih with ⟨spot, hplace⟩ | ⟨_, _, spot, heq, hplace⟩
    · have hsuits := hplace.suits hfree hvalid
      obtain ⟨inner, hnested⟩ := Spot.exists_nested hsuits.extensionFree hsuits.resolves
      exact .inl ⟨_, hplace.part (.body hnested)⟩
    · -- emission came to the body when it passed over the lambda
      cases heq
      exact .inl ⟨spot, hplace⟩

/-- **The two type inferences agree.**  A valid lambda without extension nodes is emitted with
    the type that it validates to.  So is every tree in it, whatever was collected before, by
    steps that are of such trees themselves, and code relies on types where validation finds
    them.  No tree is left out: where emission does not come to a lambda it comes to the body. -/
theorem static_types_of_validate (hfree : lambda.isExtensionFree = true)
    (hfold : options.foldConstants = false)
    (hvalid : lambda.validate options.maxTreeDepth = .ok ty) :
    (∃ emitted state, (lambda.emitBody options).run {} = (.ok emitted, state) ∧ emitted.ty = ty
      ∧ ∀ strict, lambda.compileFast options strict
        = .ok ⟨.compiled lambda.params emitted.code [] state.plan.constants, .fast,
          options.maxCallDepth, some state.plan⟩)
    ∧ (∀ scopes spot expr, lambda.EmittedAt scopes spot expr → ∀ state, ∃ emitted after,
        Emits options spot state expr emitted after
        ∧ EmitRule options (fun inside state sub emitted after =>
            Emits options inside state sub emitted after
              ∧ ∃ scopes, lambda.EmittedAt scopes inside sub)
          spot state expr emitted after
        ∧ expr.infer options.maxTreeDepth scopes spot.level = .ok emitted.ty
        ∧ expr.Specialises options.maxTreeDepth scopes spot.level emitted.code)
    ∧ ∀ scopes expr, lambda.Occurs scopes expr → (∃ spot, lambda.EmittedAt scopes spot expr)
        ∨ ∃ params body spot, expr = .lambda params body
          ∧ lambda.EmittedAt (params :: scopes) spot body := by
  refine ⟨?_, fun scopes spot expr hplace state => ?_, fun scopes expr h =>
    h.emittedAt hfree hvalid⟩
  · obtain ⟨emitted, state, hemits⟩ := (EmittedAt.root.suits hfree hvalid).emits options
      lambda.rootState
    -- the body is emitted from the state that the root is laid out in
    have hrun := emitBody_eq_ok.2 ⟨freeParameters_of_validate hfree hvalid, hemits⟩
    refine ⟨emitted, state, hrun, hemits.ty_eq hfold hfree (declaringOnce_eq_ok hvalid),
      fun strict => ?_⟩
    rw [compileFast_of_ok strict hvalid, emit_eq_ok.2 ⟨emitted, state, hrun, rfl, rfl⟩]
  · have hsuits := hplace.suits hfree hvalid
    obtain ⟨_, hty⟩ := hsuits.typed
    obtain ⟨emitted, after, hemits⟩ := hsuits.emits options state
    refine ⟨emitted, after, hemits, ?_, ?_, hemits.specialises hfold hsuits.extensionFree hty⟩
    · exact (emits_iff.1 hemits).map fun _ _ _ _ _ _ hpart hsub => ⟨hsub, _, hplace.part hpart⟩
    · rw [hemits.ty_eq hfold hsuits.extensionFree hty]
      exact hty

/-- A class whose two fields differ in what is known of them. -/
def labelledPoint : ClassDef := ⟨0, "Point", [⟨"x", .number⟩, ⟨"label", .any⟩]⟩

/-- Inside a lambda that is invoked at once, a number is doubled and a label is added to it. -/
def labelling : Lambda Value :=
  let point : Parameter := ⟨0, "point", .object labelledPoint⟩
  let field (name : String) : Expr Value := .field (.parameter point) name
  ⟨[point], .invoke (.lambda [point] (.binary .add (.binary .add (field "x") (field "x"))
    (field "label"))) [.parameter point]⟩

/-- The doubling expects numbers, and the other sum, where one is not known to be a number,
    does not. -/
theorem static_types_of_validate_labelling :
    let options : CompilerOptions := { foldConstants := false }
    labelling.isExtensionFree = true ∧ labelling.validate options.maxTreeDepth = .ok .number
      ∧ (∃ emitted state, (labelling.emitBody options).run {} = (.ok emitted, state)
        ∧ emitted.ty = .number)
      ∧ ∃ scopes spot double label, labelling.EmittedAt scopes spot (.binary .add double label)
        ∧ (∃ sum after, Emits options spot {} (.binary .add double label) sum after
          ∧ sum.ty = .number ∧ sum.code.isArithmetic = false)
        ∧ (∃ doubled after, Emits options spot.below {} double doubled after
          ∧ doubled.ty = .number ∧ doubled.code.isArithmetic = true)
        ∧ ∃ read after, Emits options spot.below {} label read after
          ∧ read.ty = .any ∧ read.code.isFieldAt = true := by
  intro options
  have hfree : labelling.isExtensionFree = true := rfl
  have hfold : options.foldConstants = false := rfl
  have hvalid : labelling.validate options.maxTreeDepth = .ok .number := by decide
  obtain ⟨⟨emitted, state, hrun, hty, -⟩, hplaces, -⟩ := static_types_of_validate hfree hfold hvalid
  have hsum : labelling.EmittedAt _ _ _ := .part .root (.directBody rfl)
  have hdouble := hsum.part (.operand nofun (List.mem_cons_self ..))
  have hlabel := hsum.part (.operand nofun (List.mem_cons_of_mem _ (List.mem_cons_self ..)))
  obtain ⟨sum, _, hsumEmits, -, hsumTy, hsumSpecial⟩ := hplaces _ _ _ hsum {}
  obtain ⟨doubled, _, hdoubleEmits, -, hdoubleTy, hdoubleSpecial⟩ := hplaces _ _ _ hdouble {}
  obtain ⟨read, _, hlabelEmits, -, hlabelTy, hlabelSpecial⟩ := hplaces _ _ _ hlabel {}
  refine ⟨hfree, hvalid, ⟨emitted, state, hrun, hty⟩, _, _, _, _, hsum,
    ⟨sum, _, hsumEmits, (Except.ok.inj hsumTy).symm, ?_⟩,
    ⟨doubled, _, hdoubleEmits, (Except.ok.inj hdoubleTy).symm,
      hdoubleSpecial.arithmetic.2 ⟨_, _, _, rfl, rfl, rfl, rfl⟩⟩,
    read, _, hlabelEmits, (Except.ok.inj hlabelTy).symm,
    hlabelSpecial.fieldAt.2 ⟨_, _, labelledPoint, rfl, rfl⟩⟩
  -- the label would have to be a number
  rw [← Bool.not_eq_true, hsumSpecial.arithmetic]
  rintro ⟨_, _, _, heq, _, _, hlabel⟩
  cases heq
  cases hlabel

end Lambda

end ExprTree

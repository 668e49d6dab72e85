import ExprTree.Host
import ExprTree.Proofs.Document.Declarations
import ExprTree.Proofs.Function.Compilation

namespace ExprTree

/-!
# Scoping of loaded documents

Names in a document are turned into parameters with ids, and validation looks at the ids
only.  What connects the two is that a tree which an expression denotes is well bound
(`Node.Denotes.wellBound`): each parameter was found in a scope around it, and each lambda
declares parameters of its own, however often a name is used.  So a loaded lambda has no
free parameters, and compilation never has anything to say about its scopes
(`load_scoping`).
-/

namespace Document

variable {hosts : Hosts} {names : Names} {scopes : List (List Parameter)} {supply after : Supply}

/-! ### Bound parameters -/

/-- Every expression belongs to an argument that denotes it. -/
theorem exists_mem_zip {args : List Node} {exprs : List (Expr Value)}
    (h : args.length = exprs.length) {expr : Expr Value} (hexpr : expr ∈ exprs) :
    ∃ pair ∈ args.zip exprs, pair.2 = expr := by
  have hmap : (args.zip exprs).map Prod.snd = exprs := List.map_snd_zip (Nat.le_of_eq h.symm)
  exact List.mem_map.1 (hmap.symm ▸ hexpr)

/-- **Scopes of names are scopes of ids.** -/
theorem Node.Denotes.wellBound {node : Node} {expr : Expr Value}
    (h : node.Denotes names scopes expr) : expr.WellBound scopes := by
  have all : ∀ {args : List Node} {exprs : List (Expr Value)} {scopes : List (List Parameter)},
      args.length = exprs.length → (∀ pair ∈ args.zip exprs, pair.2.WellBound scopes) →
      Expr.AllWellBound scopes exprs := by
    intro args exprs scopes hlength h
    refine Expr.allWellBound_iff.2 fun expr hexpr => ?_
    obtain ⟨pair, hpair, rfl⟩ := exists_mem_zip hlength hexpr
    exact h pair hpair
  induction h with
  | literal | constant => exact trivial
  | parameter hinnermost =>
    obtain ⟨inner, before, after, outer, rfl, _⟩ := hinnermost
    exact ⟨_, List.mem_append_right _ List.mem_cons_self, by simp⟩
  | new _ hlength _ ih => exact all hlength ih
  | field _ ih | unary _ ih => exact ih
  | binary _ _ ihLeft ihRight => exact ⟨ihLeft, ihRight⟩
  | conditional _ _ _ ihTest ihYes ihNo => exact ⟨ihTest, ihYes, ihNo⟩
  | @lambda scopes _ params _ _ _ hapart _ ih =>
    -- what has an id of its own is listed once
    have hids : (params.map Parameter.id).Nodup := by
      rw [Apart, List.flatten_cons, List.map_append] at hapart
      exact (List.nodup_append.1 hapart).1
    exact ⟨(List.pairwise_map.1 hids).imp fun hne same => hne (congrArg Parameter.id same), ih⟩
  | invoke _ hlength _ ihTarget ihArgs => exact ⟨ihTarget, all hlength ihArgs⟩

/-- Documents have no extension nodes. -/
theorem Node.Denotes.isExtensionFree {node : Node} {expr : Expr Value}
    (h : node.Denotes names scopes expr) : expr.isExtensionFree = true := by
  have all : ∀ {args : List Node} {exprs : List (Expr Value)}, args.length = exprs.length →
      (∀ pair ∈ args.zip exprs, pair.2.isExtensionFree = true) →
      Expr.areExtensionFree exprs = true := by
    intro args exprs hlength h
    refine Expr.areExtensionFree_iff.2 fun expr hexpr => ?_
    obtain ⟨pair, hpair, rfl⟩ := exists_mem_zip hlength hexpr
    exact h pair hpair
  induction h with
  | literal | constant | parameter => rfl
  | new _ hlength _ ih => exact all hlength ih
  | field _ ih | unary _ ih | lambda _ _ _ ih => exact ih
  | binary _ _ ihLeft ihRight => simp [Expr.isExtensionFree, ihLeft, ihRight]
  | conditional _ _ _ ihTest ihYes ihNo => simp [Expr.isExtensionFree, ihTest, ihYes, ihNo]
  | invoke _ hlength _ ihTarget ihArgs =>
    simp [Expr.isExtensionFree, ihTarget, all hlength ihArgs]

/-! ### Loaded documents -/

variable {document : Document} {loaded : LoadedDocument}

/-- **Scoping is lexical and hygienic.**  In a document that is loaded, the expression of each
    constant and the lambda become trees that they denote: with the constants before the
    constant, or with all of them.  The lambda has no free parameters, and neither strategy
    rejects it because of its parameters or as something that is not supported. -/
theorem load_scoping (h : (document.load hosts).outcome supply = (.ok loaded, after)) :
    (loaded.constants.map Prod.fst).Nodup
      ∧ (∀ before decl later, document.constants = before ++ decl :: later →
        ∃ earlier value more expr mid next,
          loaded.constants = earlier ++ (decl.name, value) :: more
            ∧ earlier.map Prod.fst = before.map ConstantDecl.name
            ∧ decl.value.Denotes ⟨loaded.classes, earlier⟩ [] expr
            ∧ (evaluate hosts expr).outcome mid = (.ok value, next))
      ∧ (Node.lambda document.lambda.params document.lambda.body).Denotes
          ⟨loaded.classes, loaded.constants⟩ [] loaded.lambda.toExpr
      ∧ loaded.lambda.freeParameters = []
      ∧ ∀ options strict error, loaded.lambda.compile options = .error error
          ∨ loaded.lambda.compileFast options strict = .error error →
        ∀ name, error ≠ .unboundParameter name ∧ error ≠ .duplicateParameter name
          ∧ error ≠ .notSupported name := by
  rcases outcome_load hosts document supply with
    ⟨names, last, lambda, _, _, hreached, _, hdenotes, hok⟩ | ⟨error, _, _, herror⟩
  swap
  · cases h.symm.trans herror
  cases h.symm.trans hok
  have hbound := hdenotes.wellBound
  have hfree := hdenotes.isExtensionFree
  obtain ⟨start, first, hclasses, hevaluated⟩ := hreached
  have hstart := provides_of_classes hclasses
  refine ⟨hevaluated.nodup ?_, fun before decl later hsplit => ?_, hdenotes,
    Lambda.freeParameters_eq_nil hbound hfree, fun options strict error herror name => ?_⟩
  · rw [hstart.constants]
    exact List.nodup_nil
  · rw [hsplit] at hevaluated
    -- at the constant, the names that loading had come to were those of the constants before
    obtain ⟨reached, mid, value, next, hreached, _, hevaluates, hlater⟩ := hevaluated.split
    obtain ⟨expr, resolved, fn, hresolve, hcompile, hinvoke⟩ := hevaluates
    obtain ⟨more, hmore, _⟩ := hlater.constants_eq
    have hprovides := hreached.provides hstart
    have hexpr := ((Node.meets_resolve hprovides decl.value (taken_nil mid)).of_ok hresolve).2.1
    have hsame : reached = ⟨names.classes, reached.constants⟩ := by
      rw [hlater.classes_eq]
      rfl
    refine ⟨reached.constants, value, more, expr, resolved, next, ?_, ?_, hsame ▸ hexpr, ?_⟩
    · rw [hmore, Names.withConstant, List.append_assoc, List.singleton_append]
    · rw [hprovides.constants, List.nil_append]
    · rw [outcome_evaluate_of_ok hcompile, hinvoke]
      rfl
  · -- compilation can only object to types, as nothing is free, declared twice or without
    -- a reduction
    have htypes := Lambda.types_compile hbound hfree options strict
    have htyping : error.IsTyping := herror.elim (htypes.1 error) (htypes.2 error)
    refine ⟨?_, ?_, ?_⟩ <;> rintro rfl <;> exact htyping

/-- A constant that is not computed is its own value. -/
theorem invoke_constant (value : Value) (supply : Supply) :
    (Lambda.interpret ⟨[], .constant value⟩ {}).invoke hosts [] supply = (.ok value, supply) := by
  simp [CompiledFn.invoke, Lambda.interpret, call, checkParameters, firstMisfit?,
    CallStack.during, CallStack.enter, CallStack.new, CallStack.defaultLimit, eval, Outcome.done]

/-- A document whose constants are not computed, and whose lambda repeats a name among its
    parameters and in a lambda inside it. -/
def shadowing : Document where
  classes := []
  constants := [⟨"on", .literal (.bool true)⟩, ⟨"same", .constant "on"⟩]
  lambda := ⟨[⟨"x", none⟩, ⟨"x", some "bool"⟩],
    .conditional (.constant "same") (.parameter "x")
      (.invoke (.lambda [⟨"x", none⟩] (.parameter "x")) [.parameter "x"])⟩

/-- Both constants of the document are evaluated. -/
theorem reached_shadowing (hosts : Hosts) :
    Reached hosts shadowing {} shadowing.constants
      ⟨{}, [("on", .bool true), ("same", .bool true)]⟩ {} := by
  refine ⟨{}, {}, rfl, .cons rfl ⟨.constant (.bool true), {}, _, rfl, rfl, invoke_constant _ _⟩ ?_⟩
  exact .cons rfl ⟨.constant (.bool true), {}, _, rfl, rfl, invoke_constant _ _⟩ .nil

/-- Three parameters of one name are three parameters. -/
theorem load_scoping_shadowing :
    ∃ loaded after, (shadowing.load Hosts.standard).outcome {} = (.ok loaded, after)
      ∧ loaded.lambda.params = [⟨1, "x", .any⟩, ⟨2, "x", .bool⟩]
      ∧ loaded.lambda.body = .conditional (.constant (.bool true)) (.parameter ⟨1, "x", .any⟩)
        (.invoke (.lambda [⟨3, "x", .any⟩] (.parameter ⟨3, "x", .any⟩)) [.parameter ⟨1, "x", .any⟩])
      ∧ loaded.lambda.freeParameters = [] := by
  have hload := outcome_load_of_reached (reached_shadowing Hosts.standard)
  exact ⟨_, _, hload, rfl, rfl, (load_scoping hload).2.2.2.1⟩

end Document

end ExprTree

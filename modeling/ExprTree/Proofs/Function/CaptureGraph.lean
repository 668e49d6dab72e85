import ExprTree.Proofs.Code.Layout
import ExprTree.Proofs.Function.Denotation

namespace ExprTree

/-!
# Where captures come from

The layouts in a plan come in preorder, so that the lambda around another one is the
nearest one before it that is one less deep (`Plan.parent?`).  A capture points to a slot of
that lambda, which may hold a capture again: `Plan.Leads` follows these links.

`Lambda.captures_of_compileFast` says what the links are good for: they lead to the
argument that the captured parameter is, in a lambda that declares it.
-/

/-! ### Links -/

/-- The position of the lambda around the one at a position: the nearest one before that is
    one less deep. -/
def Plan.parent? (plan : Plan) (index : Nat) : Option Nat :=
  match plan.lambdas[index]? with
  | some ⟨depth + 1, _, _⟩ => lastIndexOf? depth ((plan.lambdas.take index).map (·.depth))
  | _ => none

/-- Following the links from a slot of the lambda at a position leads past the lambdas that
    captured it, the first one included, to an argument of another lambda. -/
inductive Plan.Leads (plan : Plan) : Nat → Slot → List Nat → Nat → Nat → Prop
  | argument {index slot} : Leads plan index (.argument slot) [] index slot
  | captured {index position layout capture parent passed target slot} :
      plan.lambdas[index]? = some layout → layout.captures[position]? = some capture →
      plan.parent? index = some parent → Leads plan parent capture.source passed target slot →
      Leads plan index (.captured position) (index :: passed) target slot

/-- The last occurrence is the one that none comes after. -/
theorem lastIndexOf?_append_cons {α : Type} [DecidableEq α] {a : α} {before after : List α}
    (h : a ∉ after) : lastIndexOf? a (before ++ a :: after) = some before.length := by
  induction before with
  | nil =>
    rw [List.nil_append, lastIndexOf?, lastIndexOf?_eq_none.2 h]
    simp
  | cons b rest ih =>
    rw [List.cons_append, lastIndexOf?, ih]
    rfl

/-- The parent of a site is the one that it was captured in. -/
theorem Plan.parent?_eq {fold : Bool} {plan : Plan} {earlier between after : List Site}
    {outer inner : Site}
    (hplan : plan.lambdas = (earlier ++ outer :: between ++ inner :: after).map Site.layout)
    (hwithin : Forest.Within fold outer between inner) :
    plan.parent? (earlier ++ outer :: between).length = some earlier.length := by
  have hlayout : plan.lambdas[(earlier ++ outer :: between).length]? = some inner.layout := by
    rw [hplan, List.getElem?_map, List.getElem?_append_right (Nat.le_refl _)]
    simp
  have htake : (plan.lambdas.take (earlier ++ outer :: between).length).map (·.depth)
      = earlier.map Site.depth ++ outer.depth :: between.map Site.depth := by
    rw [hplan, ← List.map_take, List.take_left, List.map_map]
    simp only [List.map_append, List.map_cons]
    rfl
  have hlayout' : inner.layout
      = ⟨outer.depth + 1, inner.layout.params, inner.layout.captures⟩ := by
    rw [← hwithin.depth]
    rfl
  rw [parent?, hlayout, hlayout']
  dsimp only
  -- the outer lambda is the last one of its depth, as all those between are deeper
  rw [htake, lastIndexOf?_append_cons, List.length_map]
  intro hmem
  obtain ⟨site, hsite, hdepth⟩ := List.mem_map.1 hmem
  have := hwithin.deeper site hsite
  omega

/-! ### Sites of a plan -/

/-- The layouts of a plan are those of a list of sites, the first of which is the outermost
    lambda. -/
structure Plan.HasSites (fold : Bool) (lambda : Lambda Value) (plan : Plan) (sites : List Site) :
    Prop where
  layouts : plan.lambdas = sites.map Site.layout
  keys : sites.map Site.key = (0, lambda) :: lambda.body.nestedLambdas fold 1
  root : sites.head? = some ⟨0, lambda, []⟩
  deeper : ∀ site ∈ sites.tail, 0 < site.depth
  forest : Forest fold ⟨[], []⟩ 0 sites

/-- Every other site is within an earlier one, which is its parent in the plan. -/
theorem Plan.HasSites.parent {fold : Bool} {lambda : Lambda Value} {plan : Plan}
    {sites : List Site} (h : plan.HasSites fold lambda sites) {index : Nat} {inner : Site}
    (hinner : sites[index + 1]? = some inner) :
    ∃ parent outer, plan.parent? (index + 1) = some parent ∧ parent ≤ index
      ∧ sites[parent]? = some outer ∧ inner.depth = outer.depth + 1
      ∧ (outer.lambda.body.nestedLambdas fold (outer.depth + 1))[index - parent]? = some inner.key
      ∧ Scope.nested inner.lambda outer.scope = .ok inner.scope := by
  obtain ⟨hlt, rfl⟩ := List.getElem?_eq_some_iff.1 hinner
  have hsplit : sites.take (index + 1) ++ sites[index + 1] :: sites.drop (index + 2) = sites := by
    rw [← List.drop_eq_getElem_cons hlt, List.take_append_drop]
  have hforest := h.forest
  rw [← hsplit] at hforest
  rcases hforest.parent with ⟨hroot, _⟩ | ⟨earlier, outer, between, htake, hwithin⟩
  · -- only the first site is not inside another one
    have hmem : sites[index + 1] ∈ sites.tail := by
      rw [List.mem_iff_getElem?]
      exact ⟨index, by rw [List.getElem?_tail, hinner]⟩
    have := h.deeper _ hmem
    omega
  · rw [htake] at hsplit
    have hlength : (earlier ++ outer :: between).length = index + 1 := by
      rw [← htake, List.length_take]
      omega
    have hparent := Plan.parent?_eq (h.layouts.trans (congrArg _ hsplit.symm)) hwithin
    rw [hlength] at hparent
    simp only [List.length_append, List.length_cons] at hlength
    refine ⟨earlier.length, outer, hparent, by omega, ?_, hwithin.depth, ?_, hwithin.nested⟩
    · rw [← hsplit, List.append_assoc, List.getElem?_append_right (Nat.le_refl _)]
      simp
    · have hbetween : index - earlier.length = between.length := by omega
      rw [hbetween]
      exact hwithin.position

/-- Following the links from a slot leads to the argument that a parameter is, in a lambda that
    declares it, past lambdas that do not. -/
def Plan.LeadsTo (plan : Plan) (sites : List Site) (index : Nat) (start : Slot)
    (param : Parameter) : Prop :=
  ∃ passed target slot, plan.Leads index start passed target slot
    ∧ (∃ declaring, sites[target]? = some declaring
      ∧ declaring.lambda.params[slot]? = some param)
    ∧ ∀ i ∈ passed, ∀ site, sites[i]? = some site → param ∉ site.lambda.params

namespace Plan.HasSites

variable {fold : Bool} {lambda : Lambda Value} {plan : Plan} {sites : List Site}
  (h : plan.HasSites fold lambda sites)

include h

/-- One link is followed: a capture is what its source in the lambda around it is. -/
theorem leadsTo_captured {index position parent : Nat} {inner : Site} {param : Parameter}
    {capture : Capture} (hinner : sites[index]? = some inner)
    (hparent : plan.parent? index = some parent)
    (hcapture : inner.captures[position]? = some (param, capture))
    (hfree : param ∉ inner.lambda.params)
    (hsource : plan.LeadsTo sites parent capture.source param) :
    plan.LeadsTo sites index (.captured position) param := by
  obtain ⟨passed, target, slot, hleads, hdeclaring, hpassed⟩ := hsource
  have hlayout : plan.lambdas[index]? = some inner.layout := by
    rw [h.layouts, List.getElem?_map, hinner]
    rfl
  have hcaptured : inner.layout.captures[position]? = some capture := by
    rw [Site.layout, List.getElem?_map, hcapture]
    rfl
  -- the link goes to the parent, and on from there; the lambda that it starts from does
  -- not declare the parameter itself
  refine ⟨index :: passed, target, slot, .captured hlayout hcaptured hparent hleads, hdeclaring,
    List.forall_mem_cons.2 ⟨fun site hsite => ?_, hpassed⟩⟩
  rw [hinner] at hsite
  cases hsite
  exact hfree

/-- **Links lead to the declaration.**  From the slot of a parameter in any of the lambdas they
    lead to the argument that it is. -/
theorem leadsTo_of_resolve? (index : Nat) {site : Site} {param : Parameter} {slot : Slot}
    (hsite : sites[index]? = some site) (hslot : site.scope.resolve? param = some slot) :
    plan.LeadsTo sites index slot param := by
  -- induction on the position: the lambda around another one stands before it
  induction index using Nat.strongRecOn generalizing site slot with
  | ind index ih =>
    have hentry := Scope.entry?_of_resolve? hslot
    cases slot with
    | argument k => exact ⟨[], index, k, .argument, ⟨site, hsite, hentry⟩, nofun⟩
    | captured k =>
      obtain ⟨⟨_, capture⟩, hcapture, rfl⟩ := Option.map_eq_some_iff.1 hentry
      cases index with
      | zero =>
        -- the outermost lambda has no captures
        have hroot := h.root
        rw [List.head?_eq_getElem?, hsite] at hroot
        cases hroot
        cases hcapture
      | succ index =>
        obtain ⟨parent, outer, hparent, hle, houter, _, _, hnested⟩ := h.parent hsite
        obtain ⟨_, _, hall⟩ := Scope.capturedAt_of_nested hnested
        have hsource := ih parent (by omega) houter (hall k _ capture hcapture).source
        exact h.leadsTo_captured hsite hparent hcapture (Scope.not_mem_of_captured hslot) hsource

end Plan.HasSites

/-- The capture at a position of the lambda `here` inside `outer`, as the plan has it: it is in
    its place and bears the name of the parameter it stands for, it points to an entry of the
    lambda around it that stands for the same parameter, and following the links leads to the
    declaration. -/
structure Plan.Captures (plan : Plan) (sites : List Site) (here : Nat) (outer : Site)
    (position : Nat) (param : Parameter) (capture : Capture) : Prop where
  index : capture.index = position
  name : capture.name = param.name
  entry : outer.scope.entry? capture.source = some param
  origin : plan.LeadsTo sites here (.captured position) param

namespace Lambda

variable {lambda : Lambda Value} {options : CompilerOptions} {strict : Bool} {fn : CompiledFn}
  {callable : Callable Value} {plan : Plan}

/-- The sites of the plan that comes with emitted code. -/
theorem sites_of_emit (h : lambda.emit options = .ok (callable, plan)) :
    ∃ sites code, callable = .compiled lambda.params code [] plan.constants
      ∧ plan.lambdas = ⟨0, lambda.params.map (·.name), []⟩ :: code.layouts 1
      ∧ plan.HasSites options.foldConstants lambda sites := by
  obtain ⟨emitted, state, hrun, rfl, rfl⟩ := emit_eq_ok.1 h
  obtain ⟨hfree, hemits⟩ := emitBody_eq_ok.1 hrun
  obtain ⟨hafter, sites, hlayouts, hkeys, hforest⟩ := hemits.laysOut
  -- the root captures nothing, since nothing is free in it
  have hnested : Scope.nested lambda ⟨[], []⟩ = .ok ⟨lambda.params, []⟩ := by
    rw [Scope.nested, hfree]
    rfl
  refine ⟨⟨0, lambda, []⟩ :: sites, emitted.code, rfl, hafter, ?_, ?_, rfl, hforest.depth_le, ?_⟩
  · exact hafter.trans (congrArg (_ :: ·) hlayouts)
  · exact congrArg (_ :: ·) hkeys
  · have hsites := Forest.cons hnested hkeys hforest .nil
    rwa [List.append_nil] at hsites

/-- **The captures in a plan.**  The layouts of a plan are those of the lambdas of the tree that
    folding does not discard, in preorder, and of the closures in the code.  The first one is
    the outermost lambda, which captures nothing.  Every other lambda

* stands in the body of the one that the nearest layout before it belongs to which is one
  less deep, and in no lambda between the two;
* captures its free parameters in order, each from an entry of that lambda for the same
  parameter, so that following the links leads to the argument of a lambda which declares
  the parameter, past lambdas which do not. -/
theorem captures_of_compileFast (h : lambda.compileFast options strict = .ok fn)
    (hplan : fn.plan? = some plan) :
    ∃ sites : List Site, plan.lambdas = sites.map Site.layout
      ∧ sites.map Site.key = (0, lambda) :: lambda.body.nestedLambdas options.foldConstants 1
      ∧ (∃ code, fn.callable = .compiled lambda.params code [] plan.constants
        ∧ plan.lambdas = ⟨0, lambda.params.map (·.name), []⟩ :: code.layouts 1)
      ∧ ∀ index inner, sites[index + 1]? = some inner →
        ∃ parent outer, plan.parent? (index + 1) = some parent ∧ parent ≤ index
          ∧ sites[parent]? = some outer ∧ inner.depth = outer.depth + 1
          ∧ (outer.lambda.body.nestedLambdas options.foldConstants
            (outer.depth + 1))[index - parent]? = some inner.key
          ∧ inner.captures.map (·.1) = inner.lambda.freeParameters
          ∧ ∀ position param capture, inner.captures[position]? = some (param, capture) →
            plan.Captures sites (index + 1) outer position param capture := by
  obtain ⟨sites, code, hcode, hlayouts, hsites⟩ := sites_of_emit (emit_of_compileFast h hplan).1
  refine ⟨sites, hsites.layouts, hsites.keys, ⟨code, hcode, hlayouts⟩, fun index inner hinner => ?_⟩
  obtain ⟨parent, outer, hparent, hle, houter, hdepth, hposition, hnested⟩ := hsites.parent hinner
  obtain ⟨_, hfree, hall⟩ := Scope.capturedAt_of_nested hnested
  refine ⟨parent, outer, hparent, hle, houter, hdepth, hposition, hfree,
    fun position param capture hcapture => ?_⟩
  obtain ⟨hindex, hname, hsource⟩ := hall position param capture hcapture
  -- what is captured is free in the lambda
  have hundeclared : param ∉ inner.lambda.params := by
    have hmem : param ∈ inner.lambda.freeParameters := by
      rw [← hfree]
      exact List.mem_map_of_mem (List.mem_of_getElem? hcapture)
    exact (mem_reads.1 (mem_freeParameters.1 hmem)).2
  exact ⟨hindex, hname, Scope.entry?_of_resolve? hsource,
    hsites.leadsTo_captured hinner hparent hcapture hundeclared
      (hsites.leadsTo_of_resolve? parent houter hsource)⟩

/-- A function that returns a function that returns a function, which adds to the argument
    of the first one. -/
def adder : Lambda Value :=
  ⟨[⟨0, "x", .number⟩], .lambda [] (.lambda [⟨1, "y", .number⟩]
    (.binary .add (.parameter ⟨0, "x", .number⟩) (.parameter ⟨1, "y", .number⟩)))⟩

/-- The innermost lambda captures `x` from the one around it, which has captured it, too. -/
theorem captures_of_compileFast_adder :
    ∃ fn plan sites, adder.compileFast {} true = .ok fn ∧ fn.plan? = some plan
      ∧ plan.lambdas = sites.map Site.layout ∧ plan.parent? 2 = some 1
      ∧ plan.LeadsTo sites 2 (.captured 0) ⟨0, "x", .number⟩ := by
  have hcompiled : adder.compileFast {} true = .ok _ := rfl
  obtain ⟨sites, hlayouts, hkeys, _, hothers⟩ := captures_of_compileFast hcompiled rfl
  obtain ⟨inner, hinner, hkey⟩ : ∃ inner, sites[2]? = some inner ∧ inner.key
      = (2, ⟨[⟨1, "y", .number⟩],
        .binary .add (.parameter ⟨0, "x", .number⟩) (.parameter ⟨1, "y", .number⟩)⟩) := by
    have hsecond := congrArg (·[2]?) hkeys
    simp only [List.getElem?_map] at hsecond
    exact Option.map_eq_some_iff.1 hsecond
  obtain ⟨parent, outer, _, _, _, _, _, hfree, hcaptures⟩ := hothers 1 inner hinner
  have hlambda : inner.lambda.freeParameters = [⟨0, "x", .number⟩] :=
    congrArg (fun key => key.2.freeParameters) hkey
  rw [hlambda] at hfree
  obtain ⟨⟨_, capture⟩, hcapture, rfl⟩ : ∃ found, inner.captures[0]? = some found
      ∧ found.1 = ⟨0, "x", .number⟩ := by
    have hfirst := congrArg (·[0]?) hfree
    simp only [List.getElem?_map] at hfirst
    exact Option.map_eq_some_iff.1 hfirst
  exact ⟨_, _, sites, rfl, rfl, hlayouts, rfl, (hcaptures 0 _ capture hcapture).origin⟩

end Lambda

end ExprTree

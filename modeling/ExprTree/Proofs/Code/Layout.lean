import ExprTree.Proofs.Code.Derivation
import ExprTree.Proofs.Tree.Inference

namespace ExprTree

/-!
# Layouts of lambdas

A `Site` is a lambda where it was emitted: how many lambdas there are around it, and its
captures.  The sites of a tree come in preorder (`Expr.nestedLambdas`), and the scope of
each one is nested in that of the lambda around it.  `Forest` says this of a list of sites,
and `Emits.forest` that emission appends the layouts of such a list.

In a forest the site of the lambda around another one is the nearest one before that is
less deep (`Forest.parent`).
-/

/-! ### Captures -/

namespace Scope

variable {parent inner : Scope} {lambda : Lambda Value}

/-- What stands at a slot of a scope. -/
def entry? (scope : Scope) : Slot → Option Parameter
  | .argument index => scope.params[index]?
  | .captured index => scope.captures[index]?.map (·.1)

/-- The slot of a parameter holds the parameter. -/
theorem entry?_of_resolve? {param : Parameter} {slot : Slot}
    (h : parent.resolve? param = some slot) : parent.entry? slot = some param := by
  unfold resolve? at h
  split at h
  · rename_i index hindex
    cases h
    exact getElem?_of_lastIndexOf? hindex
  · obtain ⟨index, hindex, rfl⟩ := Option.map_eq_some_iff.1 h
    have := getElem?_of_lastIndexOf? hindex
    rwa [List.getElem?_map] at this

/-- A parameter that has to be captured is not declared. -/
theorem not_mem_of_captured {param : Parameter} {index : Nat}
    (h : parent.resolve? param = some (.captured index)) : param ∉ parent.params := by
  unfold resolve? at h
  split at h
  · cases h
  · rename_i hnone
    exact lastIndexOf?_eq_none.1 hnone

/-- A capture at a position: its index, the parameter it stands for and where the scope
    around it has that. -/
structure CapturedAt (parent : Scope) (position : Nat) (param : Parameter) (capture : Capture) :
    Prop where
  index : capture.index = position
  name : capture.name = param.name
  source : parent.resolve? param = some capture.source

/-- Captures are the parameters asked for, in order, each at its position. -/
theorem capturedAt_of_captureFrom {start : Nat} {params : List Parameter}
    {captures : List (Parameter × Capture)} (h : parent.captureFrom start params = .ok captures) :
    captures.map (·.1) = params
      ∧ ∀ position param capture, captures[position]? = some (param, capture) →
        parent.CapturedAt (start + position) param capture := by
  induction params generalizing start captures with
  | nil =>
    cases h
    exact ⟨rfl, nofun⟩
  | cons param rest ih =>
    rw [captureFrom] at h
    split at h
    · cases h
    · rename_i source hsource
      obtain ⟨others, hothers, h⟩ := bind_eq_ok.1 h
      cases h
      obtain ⟨hparams, hrest⟩ := ih hothers
      refine ⟨congrArg (param :: ·) hparams, fun position param' capture hcapture => ?_⟩
      -- the first capture has the next index, and the others come after it
      cases position with
      | zero =>
        cases hcapture
        exact ⟨rfl, rfl, hsource⟩
      | succ position =>
        have := hrest position param' capture hcapture
        rwa [Nat.succ_add_eq_add_succ] at this

/-- **The captures of a lambda** are its free parameters, found in the scope around it. -/
theorem capturedAt_of_nested (h : nested lambda parent = .ok inner) :
    inner.params = lambda.params ∧ inner.captures.map (·.1) = lambda.freeParameters
      ∧ ∀ position param capture, inner.captures[position]? = some (param, capture) →
        parent.CapturedAt position param capture := by
  unfold nested at h
  obtain ⟨captures, hcaptures, h⟩ := bind_eq_ok.1 h
  cases h
  obtain ⟨hparams, hall⟩ := capturedAt_of_captureFrom hcaptures
  refine ⟨rfl, hparams, fun position param capture hcapture => ?_⟩
  have := hall position param capture hcapture
  rwa [Nat.zero_add] at this

end Scope

/-! ### Lambdas of a tree -/

namespace Expr

mutual

/-- The lambdas of a tree that folding does not discard, in preorder, with the number of
    lambdas around each.  An extension node stands for its reduction. -/
def nestedLambdas (fold : Bool) (depth : Nat) : Expr Value → List (Nat × Lambda Value)
  | constant _ | parameter _ => []
  | new _ args => nestedLambdasOfAll fold depth args
  | field target _ => target.nestedLambdas fold depth
  | unary _ operand => operand.nestedLambdas fold depth
  | binary op left right =>
    if ((binary op left.reduce right.reduce).known? fold).isSome then []
    else left.nestedLambdas fold depth ++ right.nestedLambdas fold depth
  | conditional test yes no =>
    match decided? fold test.reduce with
    | some true => yes.nestedLambdas fold depth
    | some false => no.nestedLambdas fold depth
    | none =>
      test.nestedLambdas fold depth
        ++ (yes.nestedLambdas fold depth ++ no.nestedLambdas fold depth)
  | lambda params body => (depth, ⟨params, body⟩) :: body.nestedLambdas fold (depth + 1)
  | invoke target args => target.nestedLambdas fold depth ++ nestedLambdasOfAll fold depth args
  | extension _ _ (some reduced) => reduced.nestedLambdas fold depth
  | extension _ _ none => []

/-- The lambdas of several trees. -/
def nestedLambdasOfAll (fold : Bool) (depth : Nat) : List (Expr Value) → List (Nat × Lambda Value)
  | [] => []
  | expr :: rest => expr.nestedLambdas fold depth ++ nestedLambdasOfAll fold depth rest

end

variable {fold : Bool} {depth : Nat}

/-- There are no lambdas in a tree with a known value. -/
theorem nestedLambdas_of_known {expr : Expr Value} {value : Value}
    (h : expr.reduce.known? fold = some value) : expr.nestedLambdas fold depth = [] := by
  induction expr generalizing value with
  | constant => rfl
  | parameter | new | field | lambda | invoke => simp [reduce, known?] at h
  | unary op operand ih =>
    rw [reduce, known?, Option.ite_none_right_eq_some] at h
    obtain ⟨a, ha, _⟩ := UnaryOp.fold?_eq_some.1 h.2
    exact ih ha
  | binary op left right =>
    rw [reduce] at h
    -- an operator that is folded has no lambdas left, whatever its operands have
    rw [nestedLambdas, h]
    rfl
  | conditional test yes no _ ihy ihn =>
    rw [reduce, known?_eq_decided] at h
    rw [nestedLambdas]
    cases hdecided : decided? fold test.reduce with
    | none =>
      rw [hdecided] at h
      cases h
    | some taken =>
      rw [hdecided] at h
      cases taken with
      | true => exact ihy h
      | false => exact ihn h
  | extension node operands reduction _ ih =>
    cases reduction with
    | none => simp [reduce, known?] at h
    | some reduced => exact ih reduced rfl h

/-- Of a conditional that is decided the lambdas of one branch are left. -/
theorem nestedLambdas_of_decided {test yes no : Expr Value} {taken : Bool}
    (h : decided? fold test.reduce = some taken) :
    (conditional test yes no).nestedLambdas fold depth
      = (if taken then yes else no).nestedLambdas fold depth := by
  rw [nestedLambdas, h]
  cases taken <;> rfl

end Expr

namespace Code

variable {κ : Type}

mutual

/-- The layouts of the closures in a piece of code, in preorder. -/
def layouts (depth : Nat) : Code κ → List LambdaLayout
  | literal _ | embedded _ | pooled _ | slot _ => []
  | construct _ args | instantiate _ args => layoutsOfAll depth args
  | fieldAt target _ _ | field target _ => target.layouts depth
  | unary _ operand => operand.layouts depth
  | shortCircuit _ left right | arithmetic _ left right | binary _ left right =>
    left.layouts depth ++ right.layouts depth
  | conditional test yes no => test.layouts depth ++ (yes.layouts depth ++ no.layouts depth)
  | closure params captures body =>
    ⟨depth, params.map (·.name), captures⟩ :: body.layouts (depth + 1)
  | invoke target args => target.layouts depth ++ layoutsOfAll depth args

/-- The layouts of the closures in several pieces of code. -/
def layoutsOfAll (depth : Nat) : List (Code κ) → List LambdaLayout
  | [] => []
  | code :: rest => code.layouts depth ++ layoutsOfAll depth rest

end

end Code

/-! ### Sites -/

/-- A lambda that was emitted inside `depth` others, with its captures. -/
structure Site where
  depth : Nat
  lambda : Lambda Value
  captures : List (Parameter × Capture)

namespace Site

/-- The scope of the body. -/
def scope (site : Site) : Scope := ⟨site.lambda.params, site.captures⟩

/-- The layout in the plan. -/
def layout (site : Site) : LambdaLayout :=
  ⟨site.depth, site.lambda.params.map (·.name), site.captures.map (·.2)⟩

/-- The lambda and its depth. -/
def key (site : Site) : Nat × Lambda Value := (site.depth, site.lambda)

/-- The site of a lambda has the scope that emission entered for it. -/
theorem scope_of_nested {lambda : Lambda Value} {parent inner : Scope} (depth : Nat)
    (h : Scope.nested lambda parent = .ok inner) :
    (⟨depth, lambda, inner.captures⟩ : Site).scope = inner := by
  rw [scope, ← (Scope.capturedAt_of_nested h).1]

end Site

/-- The sites of a tree in preorder: after each lambda come those in its body, and its scope
    is nested in that of the lambda around it. -/
inductive Forest (fold : Bool) : Scope → Nat → List Site → Prop
  | nil {scope depth} : Forest fold scope depth []
  | cons {scope depth lambda inner below others} :
      Scope.nested lambda scope = .ok inner →
      below.map Site.key = lambda.body.nestedLambdas fold (depth + 1) →
      Forest fold inner (depth + 1) below → Forest fold scope depth others →
      Forest fold scope depth (⟨depth, lambda, inner.captures⟩ :: below ++ others)

namespace Forest

variable {fold : Bool} {scope : Scope} {depth : Nat} {sites sites' : List Site}

/-- Two forests in one scope are a forest. -/
theorem append (h : Forest fold scope depth sites) (h' : Forest fold scope depth sites') :
    Forest fold scope depth (sites ++ sites') := by
  induction h with
  | nil => exact h'
  | cons hnested hkeys hbelow _ _ ih =>
    rw [List.append_assoc]
    exact .cons hnested hkeys hbelow (ih h')

/-- No site of a forest is above the forest. -/
theorem depth_le (h : Forest fold scope depth sites) : ∀ site ∈ sites, depth ≤ site.depth := by
  induction h with
  | nil => nofun
  | cons _ _ _ _ ih ih' =>
    rintro site hsite
    rcases List.mem_append.1 hsite with hsite | hsite
    · rcases List.mem_cons.1 hsite with rfl | hsite
      · exact Nat.le_refl _
      · exact Nat.le_of_succ_le (ih site hsite)
    · exact ih' site hsite

/-- A site was captured directly in another one: what stands between them in preorder is
    inside the outer one, where the inner one is the next lambda but that many. -/
structure Within (fold : Bool) (outer : Site) (between : List Site) (inner : Site) : Prop where
  depth : inner.depth = outer.depth + 1
  deeper : ∀ site ∈ between, outer.depth < site.depth
  position : (outer.lambda.body.nestedLambdas fold (outer.depth + 1))[between.length]?
    = some inner.key
  nested : Scope.nested inner.lambda outer.scope = .ok inner.scope

/-- **The lambda around another one** is the nearest one before that is less deep, unless
    there is none around it in the whole forest. -/
theorem parent {inner : Site} {before after : List Site}
    (h : Forest fold scope depth (before ++ inner :: after)) :
    (inner.depth = depth ∧ Scope.nested inner.lambda scope = .ok inner.scope)
      ∨ ∃ earlier outer between, before = earlier ++ outer :: between
        ∧ Within fold outer between inner := by
  generalize hsites : before ++ inner :: after = sites at h
  induction h generalizing before after with
  | nil => simp at hsites
  | @cons scope depth lambda innerScope below others hnested hkeys hbelow _ ih ih' =>
    have hscope := Site.scope_of_nested depth hnested
    cases before with
    | nil =>
      injection hsites with hinner _
      subst hinner
      exact .inl ⟨rfl, hnested.trans (congrArg _ hscope.symm)⟩
    | cons first rest =>
      injection hsites with hfirst hrest
      -- the site is in the body of the first lambda or after it
      have hsplit : (∃ later, below = rest ++ inner :: later)
          ∨ ∃ skipped, rest = below ++ skipped ∧ others = skipped ++ inner :: after := by
        rcases List.append_eq_append_iff.1 hrest with ⟨later, hbelow, hlater⟩ | hskipped
        · cases later with
          | nil => exact .inr ⟨[], by simpa using hbelow.symm, hlater.symm⟩
          | cons head later =>
            injection hlater with hhead _
            exact .inl ⟨later, hhead ▸ hbelow⟩
        · exact .inr hskipped
      rcases hsplit with ⟨later, hlater⟩ | ⟨skipped, rfl, hothers⟩
      · rcases ih hlater.symm with ⟨hdepth, hinner⟩ | ⟨earlier, outer, between, rfl, hwithin⟩
        · refine .inr ⟨[], first, rest, rfl, ?_⟩
          subst hfirst
          refine ⟨hdepth, fun site hsite => ?_, ?_, hscope ▸ hinner⟩
          · exact hbelow.depth_le site (hlater ▸ List.mem_append_left _ hsite)
          · show (lambda.body.nestedLambdas fold (depth + 1))[rest.length]? = some inner.key
            rw [← hkeys, hlater]
            simp
        · exact .inr ⟨first :: earlier, outer, between, rfl, hwithin⟩
      · rcases ih' hothers.symm with hroot | ⟨earlier, outer, between, rfl, hwithin⟩
        · exact .inl hroot
        · exact .inr ⟨first :: (below ++ earlier), outer, between, by simp, hwithin⟩

end Forest

/-! ### Emission -/

/-- Between two states the layouts of a forest of sites are appended, which are those of the
    given lambdas. -/
def LaysOut (fold : Bool) (spot : Spot) (state : EmitState) (keys : List (Nat × Lambda Value))
    (layouts : List LambdaLayout) (after : EmitState) : Prop :=
  after.layouts = state.layouts ++ layouts
    ∧ ∃ sites : List Site, layouts = sites.map Site.layout ∧ sites.map Site.key = keys
      ∧ Forest fold spot.scope spot.depth sites

namespace LaysOut

variable {fold : Bool} {spot : Spot} {state between after : EmitState}
  {keys keys' : List (Nat × Lambda Value)} {layouts layouts' : List LambdaLayout}

theorem nothing (h : after.layouts = state.layouts) : LaysOut fold spot state [] [] after :=
  ⟨by rw [h, List.append_nil], [], rfl, rfl, .nil⟩

/-- One forest is laid out after the other. -/
theorem append (h : LaysOut fold spot state keys layouts between)
    (h' : LaysOut fold spot between keys' layouts' after) :
    LaysOut fold spot state (keys ++ keys') (layouts ++ layouts') after := by
  obtain ⟨hbetween, sites, rfl, rfl, hforest⟩ := h
  obtain ⟨hafter, sites', rfl, rfl, hforest'⟩ := h'
  refine ⟨?_, sites ++ sites', by rw [List.map_append], by rw [List.map_append],
    hforest.append hforest'⟩
  rw [hafter, hbetween, List.append_assoc]

/-- A lambda is laid out before what is in its body. -/
theorem lambda {lambda : Lambda Value} {inner : Scope}
    (hnested : Scope.nested lambda spot.scope = .ok inner)
    (h : LaysOut fold (spot.inside inner) (state.withLayout spot.depth inner)
      (lambda.body.nestedLambdas fold (spot.depth + 1)) layouts after) :
    LaysOut fold spot state
      ((spot.depth, lambda) :: lambda.body.nestedLambdas fold (spot.depth + 1))
      (⟨spot.depth, inner.params.map (·.name), inner.captureList⟩ :: layouts) after := by
  obtain ⟨hafter, sites, rfl, hkeys, hforest⟩ := h
  have hsites := Forest.cons hnested hkeys hforest .nil
  -- the lambda is a forest with one tree, whose root it is
  rw [List.append_nil] at hsites
  refine ⟨?_, _, ?_, ?_, hsites⟩
  · rw [hafter, EmitState.withLayout, List.append_assoc]
    rfl
  · rw [List.map_cons, Site.layout, (Scope.capturedAt_of_nested hnested).1]
    rfl
  · rw [List.map_cons, hkeys]
    rfl

end LaysOut

namespace Emits

variable {options : CompilerOptions} {spot : Spot} {state after : EmitState}

/-- The lambdas of several trees are laid out tree by tree. -/
theorem laysOut_of_all {exprs : List (Expr Value)} {emitted : List Emitted}
    (h : Threads (fun state (expr : Expr Value) (emitted : Emitted) after =>
      LaysOut options.foldConstants spot state
        (expr.nestedLambdas options.foldConstants spot.depth) (emitted.code.layouts spot.depth)
        after) state exprs emitted after) :
    LaysOut options.foldConstants spot state
      (Expr.nestedLambdasOfAll options.foldConstants spot.depth exprs)
      (Code.layoutsOfAll spot.depth (emitted.map (·.code))) after := by
  induction h with
  | nil => exact .nothing rfl
  | cons hfirst _ ih => exact hfirst.append ih

/-- **Emission lays out the lambdas of a tree in preorder**, those that folding does not
    discard, as the closures stand in the code. -/
theorem laysOut {expr : Expr Value} {emitted : Emitted}
    (h : Emits options spot state expr emitted after) :
    LaysOut options.foldConstants spot state
      (expr.nestedLambdas options.foldConstants spot.depth) (emitted.code.layouts spot.depth)
      after := by
  refine induction (motive := fun spot state expr emitted after =>
    LaysOut options.foldConstants spot state
      (expr.nestedLambdas options.foldConstants spot.depth) (emitted.code.layouts spot.depth)
      after) ?_ h
  intro spot state expr emitted after hrule
  have hemits : Emits options spot state expr emitted after := .of_rule hrule
  have hknown := hemits.folded_eq
  cases hfolded : emitted.folded with
  | some value =>
    -- a known value is in the code, and no lambda is left of the node
    rw [hfolded] at hknown
    obtain ⟨hcode, _, hlayouts⟩ := hemits.of_folded hfolded
    rw [Expr.nestedLambdas_of_known hknown.symm, hcode]
    exact .nothing hlayouts
  | none =>
    rw [hfolded] at hknown
    cases hrule with
    | literal | foldedUnary | settled | foldedBinary => cases hfolded
    | pooled | embedded | slot => exact .nothing rfl
    | new hargs =>
      have hlaysOut := laysOut_of_all hargs.right
      rw [read_emitNew (·.layouts spot.depth) fun _ => rfl]
      exact hlaysOut
    | field htarget =>
      rw [read_emitField (·.layouts spot.depth) fun _ _ => rfl]
      exact htarget.2
    | unary hoperand => exact hoperand.2
    | shortCircuit hleft _ hright =>
      rw [Expr.reduce] at hknown
      rw [Expr.nestedLambdas, ← hknown]
      exact hleft.2.append hright.2
    | binary hleft _ hright =>
      rw [Expr.reduce] at hknown
      rw [Expr.nestedLambdas, ← hknown,
        read_emitBinary (·.layouts spot.depth) fun _ _ => rfl]
      exact hleft.2.append hright.2
    | @taken _ _ _ _ _ _ between taken _ _ htest htaken hbranch =>
      -- the test is known, so that it leaves no layout behind
      obtain ⟨_, _, hlayouts⟩ := htest.1.of_folded (Emit.known_of_test htaken)
      rw [EmitState.visited_layouts] at hlayouts
      rw [htest.1.folded_eq] at htaken
      obtain ⟨hafter, hsites⟩ := hbranch.2
      rw [EmitState.withFolded_layouts, hlayouts] at hafter
      rw [Expr.nestedLambdas_of_decided htaken]
      exact ⟨hafter, hsites⟩
    | conditional htest hopen hyes hno =>
      rw [htest.1.folded_eq] at hopen
      have hdecided : Expr.decided? options.foldConstants _ = none := hopen
      rw [Expr.nestedLambdas, hdecided]
      exact htest.2.append (hyes.2.append hno.2)
    | lambda hinner hbody => exact .lambda hinner hbody.2
    | direct hinner hbody hargs =>
      have hbody := LaysOut.lambda hinner hbody.2
      have hothers := laysOut_of_all hargs.right
      exact hbody.append hothers
    | invoke _ htarget hargs =>
      have hothers := laysOut_of_all hargs.right
      exact htarget.2.append hothers
    | extension hreduced => exact hreduced.2

end Emits

end ExprTree

import ExprTree.Proofs.Code.Emission

namespace ExprTree

/-!
# How code is emitted

`EmitRule` lists the ways in which a node is emitted that has code, with the state before
and after it and with its operands left open.  `emits_iff` says that these are the ways of
`Expr.emit`, so what emission collects is found by induction over the rules
(`Emits.induction`).

`Emits.of_folded` is the first result of this kind: emitting a node with a known value
puts nothing into the pool and lays out no lambda.
-/

/-! ### Spots and states -/

/-- Where a node is emitted: the scope of the lambda around it, and how many lambdas and
    how many nodes there are around it. -/
structure Spot where
  scope : Scope
  depth : Nat
  level : Nat

namespace Spot

/-- The spot of an operand. -/
def below (spot : Spot) : Spot := { spot with level := spot.level + 1 }

/-- The spot of the body of a lambda. -/
def inside (spot : Spot) (inner : Scope) : Spot := ⟨inner, spot.depth + 1, spot.level + 1⟩

end Spot

namespace EmitState

/-- After a node has been noted. -/
def visited (spot : Spot) (state : EmitState) : EmitState :=
  { state with deepest := max state.deepest (spot.level + 1) }

/-- After a primitive has been put into the code. -/
def withLiteral (state : EmitState) : EmitState :=
  { state with inlineConstants := state.inlineConstants + 1 }

/-- After a node has been folded away. -/
def withFolded (state : EmitState) : EmitState :=
  { state with foldedNodes := state.foldedNodes + 1 }

/-- After the layout of a lambda inside `depth` others has been appended. -/
def withLayout (depth : Nat) (scope : Scope) (state : EmitState) : EmitState :=
  { state with
    layouts := state.layouts ++ [⟨depth, scope.params.map (·.name), scope.captureList⟩] }

/-- After a value has been looked up in the pool. -/
def withPooled (value : Value) (state : EmitState) : EmitState :=
  { state with pool := (state.pool.intern value).2 }

variable {state : EmitState} {spot : Spot} {depth : Nat} {scope : Scope} {value : Value}

@[simp] theorem visited_pool : (state.visited spot).pool = state.pool := rfl
@[simp] theorem visited_layouts : (state.visited spot).layouts = state.layouts := rfl
@[simp] theorem withLiteral_pool : state.withLiteral.pool = state.pool := rfl
@[simp] theorem withLiteral_layouts : state.withLiteral.layouts = state.layouts := rfl
@[simp] theorem withFolded_pool : state.withFolded.pool = state.pool := rfl
@[simp] theorem withFolded_layouts : state.withFolded.layouts = state.layouts := rfl
@[simp] theorem withLayout_pool : (state.withLayout depth scope).pool = state.pool := rfl
@[simp] theorem withPooled_layouts : (state.withPooled value).layouts = state.layouts := rfl

end EmitState

/-! ### The rules -/

/-- What a known value becomes. -/
def Emitted.known (value : Value) : Emitted := ⟨.literal value, value.typeOf, some value⟩

/-- A list is gone through from left to right, each step starting in the state that the
    one before it leaves. -/
inductive Threads {α β σ : Type} (step : σ → α → β → σ → Prop) : σ → List α → List β → σ → Prop
  | nil {state} : Threads step state [] [] state
  | cons {state a b between rest others after} :
      step state a b between → Threads step between rest others after →
      Threads step state (a :: rest) (b :: others) after

/-- What is said of the emission of a tree: it leads from one state to another. -/
abbrev Emission := Spot → EmitState → Expr Value → Emitted → EmitState → Prop

/-- How a node is emitted, where `sub` tells how its operands are.

* `foldedUnary`, `settled`, `foldedBinary` — an operator with a known result, the second
  one a short circuit whose right operand is not looked at;
* `taken` — a conditional with a known test;
* `direct` — a lambda that is invoked at once is not a node of its own. -/
inductive EmitRule (options : CompilerOptions) (sub : Emission) : Emission
  | literal {spot state value} :
      value.isPrimitive = true →
      EmitRule options sub spot state (.constant value) (.known value)
        (state.visited spot).withLiteral
  | pooled {spot state value} :
      value.isPrimitive = false → options.hoistConstants = true →
      EmitRule options sub spot state (.constant value)
        ⟨.pooled (state.pool.intern value).1, value.typeOf, none⟩
        ((state.visited spot).withPooled value)
  | embedded {spot state value} :
      value.isPrimitive = false → options.hoistConstants = false →
      EmitRule options sub spot state (.constant value) ⟨.embedded value, value.typeOf, none⟩
        (state.visited spot)
  | slot {spot state param slot} :
      spot.scope.resolve? param = some slot →
      EmitRule options sub spot state (.parameter param) ⟨.slot slot, param.ty, none⟩
        (state.visited spot)
  | new {spot state cls args emitted after} :
      Threads (sub spot.below) (state.visited spot) args emitted after →
      EmitRule options sub spot state (.new cls args) (emitNew cls emitted) after
  | field {spot state target name emitted after} :
      sub spot.below (state.visited spot) target emitted after →
      EmitRule options sub spot state (.field target name) (emitField emitted name) after
  | foldedUnary {spot state op operand emitted after value} :
      sub spot.below (state.visited spot) operand emitted after →
      Emit.folding options (op.fold? emitted.folded) = some value →
      EmitRule options sub spot state (.unary op operand) (.known value)
        after.withFolded.withLiteral
  | unary {spot state op operand emitted after} :
      sub spot.below (state.visited spot) operand emitted after →
      Emit.folding options (op.fold? emitted.folded) = none →
      EmitRule options sub spot state (.unary op operand) (emitUnary op emitted) after
  | settled {spot state op left right first after value} :
      sub spot.below (state.visited spot) left first after →
      Emit.folding options (op.fold? first.folded none) = some value →
      EmitRule options sub spot state (.binary op left right) (.known value)
        after.withFolded.withLiteral
  | foldedBinary {spot state op left right first between second after value} :
      sub spot.below (state.visited spot) left first between →
      Emit.folding options (op.fold? first.folded none) = none →
      sub spot.below between right second after →
      Emit.folding options (op.fold? first.folded second.folded) = some value →
      EmitRule options sub spot state (.binary op left right) (.known value)
        after.withFolded.withLiteral
  | shortCircuit {spot state op left right first between second after} :
      sub spot.below (state.visited spot) left first between →
      Emit.folding options (op.fold? first.folded none) = none →
      sub spot.below between right second after →
      Emit.folding options (op.fold? first.folded second.folded) = none →
      op.isShortCircuit = true →
      EmitRule options sub spot state (.binary op left right)
        ⟨.shortCircuit op first.code second.code, .bool, none⟩ after
  | binary {spot state op left right first between second after} :
      sub spot.below (state.visited spot) left first between →
      Emit.folding options (op.fold? first.folded none) = none →
      sub spot.below between right second after →
      Emit.folding options (op.fold? first.folded second.folded) = none →
      op.isShortCircuit = false →
      EmitRule options sub spot state (.binary op left right) (emitBinary op first second) after
  | taken {spot state test yes no first between taken emitted after} :
      sub spot.below (state.visited spot) test first between →
      Emit.folding options (foldTest? first.folded) = some taken →
      sub spot.below between.withFolded (if taken then yes else no) emitted after →
      EmitRule options sub spot state (.conditional test yes no) emitted after
  | conditional {spot state test yes no first between second next third after} :
      sub spot.below (state.visited spot) test first between →
      Emit.folding options (foldTest? first.folded) = none →
      sub spot.below between yes second next → sub spot.below next no third after →
      EmitRule options sub spot state (.conditional test yes no)
        ⟨.conditional first.code second.code third.code, second.ty.join third.ty, none⟩ after
  | lambda {spot state params body inner emitted after} :
      Scope.nested ⟨params, body⟩ spot.scope = .ok inner →
      sub (spot.inside inner) ((state.visited spot).withLayout spot.depth inner) body emitted
        after →
      EmitRule options sub spot state (.lambda params body)
        ⟨emitClosure inner emitted, .function (some params.length), none⟩ after
  | direct {spot state params body args inner emitted between others after} :
      Scope.nested ⟨params, body⟩ spot.scope = .ok inner →
      sub (spot.inside inner) ((state.visited spot).withLayout spot.depth inner) body emitted
        between →
      Threads (sub spot.below) between args others after →
      EmitRule options sub spot state (.invoke (.lambda params body) args)
        ⟨.invoke (emitClosure inner emitted) (others.map (·.code)), emitted.ty, none⟩ after
  | invoke {spot state target args emitted between others after} :
      (∀ params body, target ≠ .lambda params body) →
      sub spot.below (state.visited spot) target emitted between →
      Threads (sub spot.below) between args others after →
      EmitRule options sub spot state (.invoke target args)
        ⟨.invoke emitted.code (others.map (·.code)), .any, none⟩ after
  | extension {spot state node operands reduced emitted after} :
      sub spot.below (state.visited spot) reduced emitted after →
      EmitRule options sub spot state (.extension node operands (some reduced)) emitted after

/-- What holds of every step of a thread, from state to state, may be replaced in all of it. -/
theorem Threads.map {α β σ : Type} {step step' : σ → α → β → σ → Prop} {state after : σ}
    {items : List α} {results : List β} (h : Threads step state items results after)
    (hstep : ∀ state, ∀ a ∈ items, ∀ b after, step state a b after → step' state a b after) :
    Threads step' state items results after := by
  induction h with
  | nil => exact .nil
  | cons hfirst _ ih =>
    refine .cons (hstep _ _ (List.mem_cons_self ..) _ _ hfirst) (ih fun state a ha => ?_)
    exact hstep state a (List.mem_cons_of_mem _ ha)

/-- What is known besides of every step of a thread is known of the thread. -/
theorem Threads.right {α β σ : Type} {step known : σ → α → β → σ → Prop} {state after : σ}
    {items : List α} {results : List β}
    (h : Threads (fun state a b after => step state a b after ∧ known state a b after)
      state items results after) :
    Threads known state items results after :=
  h.map fun _ _ _ _ _ hstep => hstep.2

/-- What emission goes on with at a node: a tree, the spot where it stands, and what is declared
    for it there.  A lambda that is invoked at once is passed over, and its body is a part of the
    invocation. -/
inductive Spot.Part (spot : Spot) :
    Expr Value → List (List Parameter) → Spot → Expr Value → Prop
  | operand {expr sub} :
      (∀ params body args, expr ≠ .invoke (.lambda params body) args) → sub ∈ expr.children →
      Part spot expr [] spot.below sub
  | body {params body inner} :
      Scope.nested ⟨params, body⟩ spot.scope = .ok inner →
      Part spot (.lambda params body) [params] (spot.inside inner) body
  | directBody {params body args inner} :
      Scope.nested ⟨params, body⟩ spot.scope = .ok inner →
      Part spot (.invoke (.lambda params body) args) [params] (spot.inside inner) body
  | directArg {params body args arg} :
      arg ∈ args → Part spot (.invoke (.lambda params body) args) [] spot.below arg
  | reduced {node operands reduced} :
      Part spot (.extension node operands (some reduced)) [] spot.below reduced

/-- The parts of a tree are smaller. -/
theorem Spot.Part.sizeOf_lt {spot inside : Spot} {added : List (List Parameter)}
    {expr sub : Expr Value} (h : spot.Part expr added inside sub) : sizeOf sub < sizeOf expr := by
  cases h with
  | operand _ hsub => exact Expr.sizeOf_lt_of_mem_children hsub
  | body | directBody | reduced => decreasing_tactic
  | directArg harg =>
    exact Nat.lt_trans (List.sizeOf_lt_of_mem harg) (by decreasing_tactic)

/-- A rule speaks of the parts of a tree only. -/
theorem EmitRule.map {options : CompilerOptions} {sub sub' : Emission} {spot : Spot}
    {state after : EmitState} {expr : Expr Value} {emitted : Emitted}
    (h : EmitRule options sub spot state expr emitted after)
    (hsub : ∀ added inside state e emitted after, spot.Part expr added inside e →
      sub inside state e emitted after → sub' inside state e emitted after) :
    EmitRule options sub' spot state expr emitted after := by
  have operand : ∀ {e state emitted after},
      e ∈ expr.children ∧ (∀ params body args, expr ≠ .invoke (.lambda params body) args) →
      sub spot.below state e emitted after → sub' spot.below state e emitted after :=
    fun h => hsub _ _ _ _ _ _ (.operand h.2 h.1)
  have operands : ∀ {exprs : List (Expr Value)} {state emitted after},
      exprs ⊆ expr.children → (∀ params body args, expr ≠ .invoke (.lambda params body) args) →
      Threads (sub spot.below) state exprs emitted after →
      Threads (sub' spot.below) state exprs emitted after :=
    fun hexprs hdirect hall => hall.map fun _ _ he _ _ => operand ⟨hexprs he, hdirect⟩
  -- an operand of a direct call is emitted in another scope than those of other nodes, so
  -- the two ways of finding operands come with the fact that the node is no such call
  cases h with
  | literal hprim => exact .literal hprim
  | pooled hprim hhoist => exact .pooled hprim hhoist
  | embedded hprim hhoist => exact .embedded hprim hhoist
  | slot hslot => exact .slot hslot
  | new hargs => exact .new (operands (List.Subset.refl _) (by simp) hargs)
  | field htarget => exact .field (operand (by simp [Expr.children]) htarget)
  | foldedUnary hoperand hfold =>
    exact .foldedUnary (operand (by simp [Expr.children]) hoperand) hfold
  | unary hoperand hopen => exact .unary (operand (by simp [Expr.children]) hoperand) hopen
  | settled hleft hsettled => exact .settled (operand (by simp [Expr.children]) hleft) hsettled
  | foldedBinary hleft hopen hright hfold =>
    exact .foldedBinary (operand (by simp [Expr.children]) hleft) hopen
      (operand (by simp [Expr.children]) hright) hfold
  | shortCircuit hleft hopen hright hfold hop =>
    exact .shortCircuit (operand (by simp [Expr.children]) hleft) hopen
      (operand (by simp [Expr.children]) hright) hfold hop
  | binary hleft hopen hright hfold hop =>
    exact .binary (operand (by simp [Expr.children]) hleft) hopen
      (operand (by simp [Expr.children]) hright) hfold hop
  | @taken _ _ _ _ _ _ _ taken _ _ htest htaken hbranch =>
    refine .taken (operand (by simp [Expr.children]) htest) htaken (operand ?_ hbranch)
    cases taken <;> simp [Expr.children]
  | conditional htest hopen hyes hno =>
    exact .conditional (operand (by simp [Expr.children]) htest) hopen
      (operand (by simp [Expr.children]) hyes) (operand (by simp [Expr.children]) hno)
  | lambda hinner hbody => exact .lambda hinner (hsub _ _ _ _ _ _ (.body hinner) hbody)
  | direct hinner hbody hargs =>
    exact .direct hinner (hsub _ _ _ _ _ _ (.directBody hinner) hbody)
      (hargs.map fun _ _ harg _ _ => hsub _ _ _ _ _ _ (.directArg harg))
  | @invoke _ _ target args _ _ _ _ hlambda htarget hargs =>
    have hdirect := Expr.invoke_ne_direct hlambda args
    exact .invoke hlambda (operand ⟨List.mem_cons_self .., hdirect⟩ htarget)
      (operands (List.subset_cons_self ..) hdirect hargs)
  | extension hreduced => exact .extension (hsub _ _ _ _ _ _ .reduced hreduced)

/-- A tree is emitted as code. -/
def Emits (options : CompilerOptions) : Emission := fun spot state expr emitted after =>
  (expr.emit options spot.scope spot.depth spot.level).run state = (.ok emitted, after)

/-! ### The rules and the function -/

namespace Emit

variable {α β : Type} {state after : EmitState}

/-- A sequence of steps succeeds when both do. -/
theorem run_bind_eq_ok {emit : Emit α} {next : α → Emit β} {b : β} :
    (emit >>= next).run state = (.ok b, after)
      ↔ ∃ a between, emit.run state = (.ok a, between)
        ∧ (next a).run between = (.ok b, after) := by
  rcases hemit : emit.run state with ⟨error | a, between⟩
  · rw [run_bind_of_error hemit]
    exact ⟨nofun, nofun⟩
  · rw [run_bind_of_ok hemit]
    refine ⟨fun h => ⟨a, between, rfl, h⟩, ?_⟩
    rintro ⟨_, _, hfirst, hnext⟩
    cases hfirst
    exact hnext

/-- First of all a node is noted. -/
theorem run_visit {spot : Spot} {next : Emit α} :
    (do Emit.visit spot.level; next).run state = next.run (state.visited spot) :=
  rfl

/-- A nested lambda is entered when its scope is found, and its layout is noted then. -/
theorem run_enter_eq_ok {lambda : Lambda Value} {parent : Scope} {depth : Nat}
    {next : Scope → Emit β} {b : β} :
    (do let inner ← Scope.nested lambda parent; layout depth inner; next inner : Emit β).run state
        = (.ok b, after)
      ↔ ∃ inner, Scope.nested lambda parent = .ok inner
        ∧ (next inner).run (state.withLayout depth inner) = (.ok b, after) := by
  cases Scope.nested lambda parent with
  | error error => exact ⟨nofun, nofun⟩
  | ok inner =>
    refine ⟨fun h => ⟨inner, rfl, h⟩, ?_⟩
    rintro ⟨_, hinner, h⟩
    cases hinner
    exact h

end Emit

namespace Expr

variable {options : CompilerOptions} {spot : Spot} {state after : EmitState}
  {expr : Expr Value} {emitted : Emitted}

/-- Operands are emitted one after the other, each from the state that the one before it left. -/
theorem emitAll_iff {exprs : List (Expr Value)} {emitted : List Emitted} :
    (emitAll options spot.scope spot.depth spot.level exprs).run state = (.ok emitted, after)
      ↔ Threads (Emits options spot) state exprs emitted after := by
  constructor
  · intro h
    induction exprs generalizing state emitted with
    | nil =>
      rw [emitAll] at h
      cases h
      exact .nil
    | cons expr rest ih =>
      rw [emitAll] at h
      obtain ⟨first, between, hfirst, h⟩ := Emit.run_bind_eq_ok.1 h
      obtain ⟨others, last, hothers, h⟩ := Emit.run_bind_eq_ok.1 h
      cases h
      exact .cons hfirst (ih hothers)
  · intro h
    induction h with
    | nil => rfl
    | cons hfirst _ ih =>
      rw [emitAll]
      exact Emit.run_bind_eq_ok.2 ⟨_, _, hfirst, Emit.run_bind_eq_ok.2 ⟨_, _, ih, rfl⟩⟩

/-- A constant that is no primitive goes to the pool, or into the code if nothing is hoisted. -/
theorem rule_of_emits_constant {value : Value}
    (h : Emits options spot state (.constant value) emitted after) :
    EmitRule options (Emits options) spot state (.constant value) emitted after := by
  unfold Emits at h
  rw [emit, Emit.run_visit] at h
  unfold Emit.constant at h
  split at h
  · rename_i hprim
    cases h
    exact .literal hprim
  · rename_i hprim
    rw [Bool.not_eq_true] at hprim
    split at h
    · rename_i hhoist
      cases h
      exact .pooled hprim hhoist
    · rename_i hhoist
      cases h
      exact .embedded hprim (Bool.not_eq_true _ ▸ hhoist)

/-- The rules for a binary operator: it is folded with its left operand alone or with both, or
    both operands are in the code. -/
theorem rule_of_emits_binary {op : BinaryOp} {left right : Expr Value}
    (h : Emits options spot state (.binary op left right) emitted after) :
    EmitRule options (Emits options) spot state (.binary op left right) emitted after := by
  unfold Emits at h
  rw [emit, Emit.run_visit] at h
  obtain ⟨first, between, hfirst, h⟩ := Emit.run_bind_eq_ok.1 h
  -- the left operand alone may settle the node, and then the right one is not emitted
  rw [folding_left] at h
  split at h
  · rename_i value hsettled
    cases h
    exact .settled hfirst hsettled
  · rename_i hopen
    obtain ⟨second, last, hsecond, h⟩ := Emit.run_bind_eq_ok.1 h
    split at h
    · rename_i value hfold
      cases h
      exact .foldedBinary hfirst hopen hsecond hfold
    · rename_i hfold
      split at h
      · rename_i hop
        cases h
        exact .shortCircuit hfirst hopen hsecond hfold hop
      · rename_i hop
        cases h
        exact .binary hfirst hopen hsecond hfold (Bool.not_eq_true _ ▸ hop)

/-- The rules for a conditional: the branch that a known test takes, or both. -/
theorem rule_of_emits_conditional {test yes no : Expr Value}
    (h : Emits options spot state (.conditional test yes no) emitted after) :
    EmitRule options (Emits options) spot state (.conditional test yes no) emitted after := by
  unfold Emits at h
  rw [emit, Emit.run_visit] at h
  obtain ⟨first, between, hfirst, h⟩ := Emit.run_bind_eq_ok.1 h
  split at h
  · rename_i htaken
    -- a known condition leaves one branch, which is emitted in the place of the node
    have hbranch : Emits options spot.below _ (if true then yes else no) emitted after := h
    exact .taken hfirst htaken hbranch
  · rename_i htaken
    have hbranch : Emits options spot.below _ (if false then yes else no) emitted after := h
    exact .taken hfirst htaken hbranch
  · rename_i hopen
    obtain ⟨second, next, hsecond, h⟩ := Emit.run_bind_eq_ok.1 h
    obtain ⟨third, last, hthird, h⟩ := Emit.run_bind_eq_ok.1 h
    cases h
    exact .conditional hfirst hopen hsecond hthird

/-- The rules for an invocation: of a lambda that stands there itself, or of anything else. -/
theorem rule_of_emits_invoke {target : Expr Value} {args : List (Expr Value)}
    (h : Emits options spot state (.invoke target args) emitted after) :
    EmitRule options (Emits options) spot state (.invoke target args) emitted after := by
  unfold Emits at h
  obtain ⟨params, body, rfl⟩ | hlambda := target.lambda_or_ne
  · rw [emit, Emit.run_visit] at h
    obtain ⟨inner, hinner, h⟩ := Emit.run_enter_eq_ok.1 h
    obtain ⟨first, between, hfirst, h⟩ := Emit.run_bind_eq_ok.1 h
    obtain ⟨others, last, hothers, h⟩ := Emit.run_bind_eq_ok.1 h
    cases h
    exact .direct hinner hfirst (emitAll_iff.1 hothers)
  · rw [emit_invoke hlambda, Emit.run_visit] at h
    obtain ⟨first, between, hfirst, h⟩ := Emit.run_bind_eq_ok.1 h
    obtain ⟨others, last, hothers, h⟩ := Emit.run_bind_eq_ok.1 h
    cases h
    exact .invoke hlambda hfirst (emitAll_iff.1 hothers)

/-- What is emitted is emitted by one of the rules. -/
theorem rule_of_emits (h : Emits options spot state expr emitted after) :
    EmitRule options (Emits options) spot state expr emitted after := by
  unfold Emits at h
  cases expr with
  | constant value => exact rule_of_emits_constant h
  | parameter param =>
    rw [emit, Emit.run_visit] at h
    split at h
    · rename_i slot hslot
      cases h
      exact .slot hslot
    · cases h
  | new cls args =>
    rw [emit, Emit.run_visit] at h
    obtain ⟨others, between, hargs, h⟩ := Emit.run_bind_eq_ok.1 h
    cases h
    exact .new (emitAll_iff.1 hargs)
  | field target name =>
    rw [emit, Emit.run_visit] at h
    obtain ⟨first, between, hfirst, h⟩ := Emit.run_bind_eq_ok.1 h
    cases h
    exact .field hfirst
  | unary op operand =>
    rw [emit, Emit.run_visit] at h
    obtain ⟨first, between, hfirst, h⟩ := Emit.run_bind_eq_ok.1 h
    split at h
    · rename_i value hfold
      cases h
      exact .foldedUnary hfirst hfold
    · rename_i hopen
      cases h
      exact .unary hfirst hopen
  | binary op left right => exact rule_of_emits_binary h
  | conditional test yes no => exact rule_of_emits_conditional h
  | lambda params body =>
    rw [emit, Emit.run_visit] at h
    obtain ⟨inner, hinner, h⟩ := Emit.run_enter_eq_ok.1 h
    obtain ⟨first, between, hfirst, h⟩ := Emit.run_bind_eq_ok.1 h
    cases h
    exact .lambda hinner hfirst
  | invoke target args => exact rule_of_emits_invoke h
  | extension node operands reduction =>
    cases reduction with
    | none =>
      rw [emit, Emit.run_visit] at h
      cases h
    | some reduced =>
      rw [emit, Emit.run_visit] at h
      exact .extension h

/-- Every rule emits. -/
theorem emits_of_rule (h : EmitRule options (Emits options) spot state expr emitted after) :
    Emits options spot state expr emitted after := by
  unfold Emits
  cases h with
  | literal hprim =>
    rw [emit, Emit.run_visit, Emit.constant, if_pos hprim]
    rfl
  | pooled hprim hhoist =>
    rw [emit, Emit.run_visit, Emit.constant, if_neg (by simp [hprim]), if_pos hhoist]
    rfl
  | embedded hprim hhoist =>
    rw [emit, Emit.run_visit, Emit.constant, if_neg (by simp [hprim]), if_neg (by simp [hhoist])]
    rfl
  | slot hslot =>
    rw [emit, Emit.run_visit, hslot]
    rfl
  | new hargs =>
    rw [emit, Emit.run_visit]
    exact Emit.run_bind_eq_ok.2 ⟨_, _, emitAll_iff.2 hargs, rfl⟩
  | field hfirst =>
    rw [emit, Emit.run_visit]
    exact Emit.run_bind_eq_ok.2 ⟨_, _, hfirst, rfl⟩
  | foldedUnary hfirst hfold | unary hfirst hfold =>
    rw [emit, Emit.run_visit]
    refine Emit.run_bind_eq_ok.2 ⟨_, _, hfirst, ?_⟩
    rw [hfold]
    rfl
  | settled hfirst hsettled =>
    rw [emit, Emit.run_visit]
    refine Emit.run_bind_eq_ok.2 ⟨_, _, hfirst, ?_⟩
    rw [folding_left, hsettled]
    rfl
  | foldedBinary hfirst hopen hsecond hfold =>
    rw [emit, Emit.run_visit]
    refine Emit.run_bind_eq_ok.2 ⟨_, _, hfirst, ?_⟩
    rw [folding_left, hopen]
    refine Emit.run_bind_eq_ok.2 ⟨_, _, hsecond, ?_⟩
    rw [hfold]
    rfl
  | shortCircuit hfirst hopen hsecond hfold hop | binary hfirst hopen hsecond hfold hop =>
    rw [emit, Emit.run_visit]
    refine Emit.run_bind_eq_ok.2 ⟨_, _, hfirst, ?_⟩
    rw [folding_left, hopen]
    refine Emit.run_bind_eq_ok.2 ⟨_, _, hsecond, ?_⟩
    simp only [hfold, hop]
    rfl
  | @taken _ _ _ _ _ _ _ taken _ _ hfirst htaken hbranch =>
    rw [emit, Emit.run_visit]
    refine Emit.run_bind_eq_ok.2 ⟨_, _, hfirst, ?_⟩
    rw [htaken]
    -- either branch is emitted in the place of the node
    cases taken <;> exact hbranch
  | conditional hfirst hopen hsecond hthird =>
    rw [emit, Emit.run_visit]
    refine Emit.run_bind_eq_ok.2 ⟨_, _, hfirst, ?_⟩
    rw [hopen]
    exact Emit.run_bind_eq_ok.2 ⟨_, _, hsecond, Emit.run_bind_eq_ok.2 ⟨_, _, hthird, rfl⟩⟩
  | lambda hinner hfirst =>
    rw [emit, Emit.run_visit]
    refine Emit.run_enter_eq_ok.2 ⟨_, hinner, ?_⟩
    exact Emit.run_bind_eq_ok.2 ⟨_, _, hfirst, rfl⟩
  | direct hinner hfirst hargs =>
    rw [emit, Emit.run_visit]
    refine Emit.run_enter_eq_ok.2 ⟨_, hinner, ?_⟩
    refine Emit.run_bind_eq_ok.2 ⟨_, _, hfirst, ?_⟩
    exact Emit.run_bind_eq_ok.2 ⟨_, _, emitAll_iff.2 hargs, rfl⟩
  | invoke hlambda hfirst hargs =>
    rw [emit_invoke hlambda, Emit.run_visit]
    refine Emit.run_bind_eq_ok.2 ⟨_, _, hfirst, ?_⟩
    exact Emit.run_bind_eq_ok.2 ⟨_, _, emitAll_iff.2 hargs, rfl⟩
  | extension hreduced =>
    rw [emit, Emit.run_visit]
    exact hreduced

end Expr

/-- **How trees are emitted.**  The function and the rules agree. -/
theorem emits_iff {options : CompilerOptions} {spot : Spot} {state after : EmitState}
    {expr : Expr Value} {emitted : Emitted} :
    Emits options spot state expr emitted after
      ↔ EmitRule options (Emits options) spot state expr emitted after :=
  ⟨Expr.rule_of_emits, Expr.emits_of_rule⟩

namespace Emits

variable {options : CompilerOptions} {spot : Spot} {state after : EmitState}
  {expr : Expr Value} {emitted : Emitted}

/-- A rule emits if all that it asks of the operands includes that they are emitted. -/
theorem of_rule {motive : Emission}
    (h : EmitRule options (fun spot state expr emitted after =>
      Emits options spot state expr emitted after ∧ motive spot state expr emitted after)
      spot state expr emitted after) : Emits options spot state expr emitted after :=
  emits_iff.2 (h.map fun _ _ _ _ _ _ _ h => h.1)

/-- Induction over the rules: what a rule gives for a node if it holds of the operands is
    true of all that is emitted. -/
theorem induction {motive : Emission}
    (rule : ∀ spot state expr emitted after,
      EmitRule options (fun spot state expr emitted after =>
        Emits options spot state expr emitted after ∧ motive spot state expr emitted after)
        spot state expr emitted after →
      motive spot state expr emitted after)
    (h : Emits options spot state expr emitted after) : motive spot state expr emitted after := by
  induction hn : sizeOf expr using Nat.strongRecOn generalizing spot state expr emitted after with
  | ind n ih =>
    subst hn
    refine rule _ _ _ _ _ ((emits_iff.1 h).map fun _ _ _ _ _ _ hpart he => ?_)
    exact ⟨he, ih _ hpart.sizeOf_lt he rfl⟩

end Emits

/-! ### Lambdas -/

namespace Lambda

variable {lambda : Lambda Value} {options : CompilerOptions} {emitted : Emitted}
  {state : EmitState} {callable : Callable Value} {plan : Plan}

/-- Where the body of the outermost lambda is emitted. -/
def rootSpot (lambda : Lambda Value) : Spot := ⟨⟨lambda.params, []⟩, 1, 0⟩

/-- What has been collected before the body of the outermost lambda. -/
def rootState (lambda : Lambda Value) : EmitState :=
  ({} : EmitState).withLayout 0 ⟨lambda.params, []⟩

/-- The body of a lambda is emitted if nothing in it comes from outside. -/
theorem emitBody_eq_ok : (lambda.emitBody options).run {} = (.ok emitted, state)
    ↔ lambda.freeParameters = []
      ∧ Emits options lambda.rootSpot lambda.rootState lambda.body emitted state := by
  unfold emitBody Scope.root
  cases lambda.freeParameters with
  | nil => exact ⟨fun h => ⟨rfl, h⟩, fun h => h.2⟩
  | cons param rest => exact ⟨nofun, nofun⟩

/-- What a lambda is emitted as. -/
theorem emit_eq_ok : lambda.emit options = .ok (callable, plan)
    ↔ ∃ emitted state, (lambda.emitBody options).run {} = (.ok emitted, state)
      ∧ callable = .compiled lambda.params emitted.code [] state.plan.constants
      ∧ plan = state.plan := by
  unfold emit
  rcases (lambda.emitBody options).run {} with ⟨error | body, after⟩
  · exact ⟨nofun, nofun⟩
  · constructor
    · intro h
      cases h
      exact ⟨body, after, rfl, rfl, rfl⟩
    · rintro ⟨_, _, hbody, rfl, rfl⟩
      cases hbody
      rfl

end Lambda

/-! ### Variants of the code -/

section

variable {α : Type} (read : Code Value → α)

/-- What is the same for constructor calls with and without checks is known for any of them. -/
theorem read_emitNew {cls : ClassDef} {args : List Emitted}
    (h : ∀ codes, read (.construct cls codes) = read (.instantiate cls codes)) :
    read (emitNew cls args).code = read (.instantiate cls (args.map (·.code))) := by
  unfold emitNew
  dsimp only
  split
  · exact h _
  · rfl

/-- What is the same for field accesses by position and by name is known for any of them. -/
theorem read_emitField {target : Emitted} {name : String}
    (h : ∀ code index, read (.fieldAt code index name) = read (.field code name)) :
    read (emitField target name).code = read (.field target.code name) := by
  unfold emitField
  split
  · split
    · exact h _ _
    · rfl
  · rfl

/-- What is the same for arithmetic and for any binary operator is known for all of them. -/
theorem read_emitBinary {op : BinaryOp} {left right : Emitted}
    (h : ∀ first second, read (.arithmetic op first second) = read (.binary op first second)) :
    read (emitBinary op left right).code = read (.binary op left.code right.code) := by
  unfold emitBinary
  dsimp only
  split
  · exact h _ _
  · rfl

end

/-! ### Known values -/

/-- A field is never known: there may be no object to take it from. -/
theorem emitField_folded {target : Emitted} {name : String} :
    (emitField target name).folded = none := by
  unfold emitField
  split
  · split <;> rfl
  · rfl

/-- Code for an operator is emitted where its value is not known. -/
theorem emitBinary_folded {op : BinaryOp} {left right : Emitted} :
    (emitBinary op left right).folded = none := by
  unfold emitBinary
  dsimp only
  split <;> rfl

namespace Emit

variable {options : CompilerOptions} {value : Value}

/-- Nothing is folded if folding is off. -/
theorem folding_ne_some (hfold : options.foldConstants = false) {α : Type} {found : Option α}
    {a : α} : folding options found ≠ some a := by
  intro h
  rw [(Expr.folding_eq_some.1 h).1] at hfold
  cases hfold

/-- A unary operator is folded where its operand is known. -/
theorem known_of_unary {op : UnaryOp} {operand : Option Value}
    (h : folding options (op.fold? operand) = some value) : ∃ a, operand = some a := by
  obtain ⟨a, ha, _⟩ := UnaryOp.fold?_eq_some.1 (Expr.folding_eq_some.1 h).2
  exact ⟨a, ha⟩

/-- A binary operator is folded where its left operand is known, and unless that settles it
    the right one is known, too. -/
theorem known_of_binary {op : BinaryOp} {left right : Option Value}
    (h : folding options (op.fold? left right) = some value) :
    ∃ a, left = some a ∧ (folding options (op.fold? left none) = none → ∃ b, right = some b) := by
  obtain ⟨hfold, h⟩ := Expr.folding_eq_some.1 h
  obtain ⟨a, rfl, _, ⟨b, rfl, hsettled⟩ | ⟨b, hb, _⟩⟩ := BinaryOp.fold?_eq_some h
  · refine ⟨_, rfl, fun hopen => ?_⟩
    rw [BinaryOp.fold?_of_settled hsettled, folding, if_pos hfold] at hopen
    cases hopen
  · exact ⟨a, rfl, fun _ => ⟨b, hb⟩⟩

/-- A conditional is decided where its test is known. -/
theorem known_of_test {test : Option Value} {taken : Bool}
    (h : folding options (foldTest? test) = some taken) : test = some (.bool taken) :=
  Expr.foldTest?_eq_some.1 (Expr.folding_eq_some.1 h).2

end Emit

/-- What is known about the value that is emitted is known about the reduced tree. -/
theorem Emits.folded_eq {options : CompilerOptions} {spot : Spot} {state after : EmitState}
    {expr : Expr Value} {emitted : Emitted} (h : Emits options spot state expr emitted after) :
    emitted.folded = expr.reduce.known? options.foldConstants := by
  have hexplained : expr.Explained options := expr.explained
  have hexplained := hexplained spot.scope spot.depth spot.level state
  unfold Emit.Gives at hexplained
  rw [show (expr.emit options spot.scope spot.depth spot.level).run state = _ from h]
    at hexplained
  exact hexplained.1

/-- **Known values leave nothing behind.**  The code of a node with a known value is that
    value, and emitting it puts nothing into the pool and lays out no lambda. -/
theorem Emits.of_folded {options : CompilerOptions} {spot : Spot} {state after : EmitState}
    {expr : Expr Value} {emitted : Emitted} {value : Value}
    (h : Emits options spot state expr emitted after) (hfolded : emitted.folded = some value) :
    emitted.code = .literal value ∧ after.pool = state.pool ∧ after.layouts = state.layouts := by
  refine Emits.induction (motive := fun _ state _ emitted after =>
    ∀ value, emitted.folded = some value → emitted.code = .literal value
      ∧ after.pool = state.pool ∧ after.layouts = state.layouts) ?_ h value hfolded
  -- a node is known if enough of its operands are, and then these have left nothing behind
  intro spot state expr emitted after hrule value hfolded
  cases hrule with
  | literal =>
    cases hfolded
    exact ⟨rfl, rfl, rfl⟩
  | foldedUnary hoperand hfold =>
    cases hfolded
    obtain ⟨a, ha⟩ := Emit.known_of_unary hfold
    exact ⟨rfl, (hoperand.2 a ha).2⟩
  | settled hleft hsettled =>
    cases hfolded
    obtain ⟨a, ha, _⟩ := Emit.known_of_binary hsettled
    exact ⟨rfl, (hleft.2 a ha).2⟩
  | foldedBinary hleft hopen hright hfold =>
    cases hfolded
    obtain ⟨a, ha, hrest⟩ := Emit.known_of_binary hfold
    obtain ⟨b, hb⟩ := hrest hopen
    obtain ⟨_, hpool, hlayouts⟩ := hleft.2 a ha
    obtain ⟨_, hpool', hlayouts'⟩ := hright.2 b hb
    exact ⟨rfl, hpool'.trans hpool, hlayouts'.trans hlayouts⟩
  | taken htest htaken hbranch =>
    obtain ⟨_, hpool, hlayouts⟩ := htest.2 _ (Emit.known_of_test htaken)
    obtain ⟨hcode, hpool', hlayouts'⟩ := hbranch.2 value hfolded
    exact ⟨hcode, hpool'.trans hpool, hlayouts'.trans hlayouts⟩
  | extension hreduced => exact hreduced.2 value hfolded
  | field =>
    rw [emitField_folded] at hfolded
    cases hfolded
  | binary =>
    rw [emitBinary_folded] at hfolded
    cases hfolded
  | pooled | embedded | slot | new | unary | shortCircuit | conditional | lambda | direct
    | invoke => cases hfolded

end ExprTree

import ExprTree.Proofs.Code.Derivation

namespace ExprTree

/-!
# With and without folding

Where a tree is emitted without folding, it is also emitted with folding, and then
collects no more (`Emits.leaner`):

* every node that is emitted with folding is emitted without it, in the same scope, so
  that the layouts of the one run are a sublist of those of the other;
* a node that is folded away puts one more constant into the code, and is counted.

What the other run collects in the meantime for the nodes that folding discards only adds to
it: emission never takes back what it has collected (`Emits.grows`).
-/

/-! ### Growing states -/

namespace EmitState

/-- A relation between states that each entry into them respects.  A node is only
    counted as folded if folding is on. -/
structure Accumulates (options : CompilerOptions) (rel : EmitState → EmitState → Prop) :
    Prop where
  refl : ∀ state, rel state state
  trans : ∀ {state between after}, rel state between → rel between after → rel state after
  visited : ∀ spot state, rel state (state.visited spot)
  withLiteral : ∀ state, rel state state.withLiteral
  withFolded : options.foldConstants = true → ∀ state, rel state state.withFolded
  withLayout : ∀ depth scope state, rel state (state.withLayout depth scope)
  withPooled : ∀ value state, rel state (state.withPooled value)

variable {options : CompilerOptions} {rel : EmitState → EmitState → Prop}

/-- What each step of a walk respects, the whole walk respects. -/
theorem Accumulates.threads (hrel : Accumulates options rel) {α β : Type}
    {step : EmitState → α → β → EmitState → Prop} {state after : EmitState} {items : List α}
    {results : List β} (h : Threads step state items results after)
    (hstep : ∀ {state a b after}, step state a b after → rel state after) : rel state after := by
  induction h with
  | nil => exact hrel.refl _
  | cons hfirst _ ih => exact hrel.trans (hstep hfirst) ih

end EmitState

namespace Emits

variable {options : CompilerOptions} {spot : Spot} {state after : EmitState}
  {expr : Expr Value} {emitted : Emitted}

/-- Emission respects what each of its entries respects. -/
theorem accumulates {rel : EmitState → EmitState → Prop}
    (hrel : EmitState.Accumulates options rel)
    (h : Emits options spot state expr emitted after) : rel state after := by
  refine induction (motive := fun _ state _ _ after => rel state after) ?_ h
  intro spot state expr emitted after hrule
  have hvisited := hrel.visited spot state
  -- a node that is folded is counted, and its value is a literal
  have hfolded : ∀ {value} {result : Option Value} (after : EmitState),
      Emit.folding options result = some value → rel after after.withFolded.withLiteral :=
    fun after hfold => hrel.trans (hrel.withFolded (Expr.folding_eq_some.1 hfold).1 after)
      (hrel.withLiteral _)
  cases hrule with
  | literal => exact hrel.trans hvisited (hrel.withLiteral _)
  | pooled => exact hrel.trans hvisited (hrel.withPooled _ _)
  | embedded | slot => exact hvisited
  | new hargs => exact hrel.trans hvisited (hrel.threads hargs fun h => h.2)
  | field hsub | unary hsub | extension hsub => exact hrel.trans hvisited hsub.2
  | foldedUnary hsub hfold | settled hsub hfold =>
    exact hrel.trans (hrel.trans hvisited hsub.2) (hfolded _ hfold)
  | foldedBinary hleft _ hright hfold =>
    exact hrel.trans (hrel.trans hvisited (hrel.trans hleft.2 hright.2)) (hfolded _ hfold)
  | shortCircuit hleft _ hright | binary hleft _ hright =>
    exact hrel.trans hvisited (hrel.trans hleft.2 hright.2)
  | taken htest htaken hbranch =>
    have hcounted := hrel.withFolded (Expr.folding_eq_some.1 htaken).1
    exact hrel.trans (hrel.trans hvisited htest.2) (hrel.trans (hcounted _) hbranch.2)
  | conditional htest _ hyes hno =>
    exact hrel.trans hvisited (hrel.trans htest.2 (hrel.trans hyes.2 hno.2))
  | lambda _ hbody => exact hrel.trans hvisited (hrel.trans (hrel.withLayout ..) hbody.2)
  | direct _ hbody hargs =>
    have hclosure := hrel.trans (hrel.withLayout ..) hbody.2
    exact hrel.trans hvisited (hrel.trans hclosure (hrel.threads hargs fun h => h.2))
  | invoke _ htarget hargs =>
    exact hrel.trans hvisited (hrel.trans htarget.2 (hrel.threads hargs fun h => h.2))

end Emits

/-- Layouts and constants in the code that were collected before are still there. -/
structure EmitState.Grows (state after : EmitState) : Prop where
  layouts : state.layouts.Sublist after.layouts
  inlineConstants : state.inlineConstants ≤ after.inlineConstants

namespace Emits

variable {options : CompilerOptions} {spot : Spot} {state after : EmitState}
  {expr : Expr Value} {emitted : Emitted}

/-- Emission never takes back what it has collected. -/
theorem grows (h : Emits options spot state expr emitted after) : state.Grows after :=
  h.accumulates
    { refl := fun _ => ⟨.refl _, Nat.le_refl _⟩
      trans := fun h h' => ⟨h.layouts.trans h'.layouts,
        Nat.le_trans h.inlineConstants h'.inlineConstants⟩
      visited := fun _ _ => ⟨.refl _, Nat.le_refl _⟩
      withLiteral := fun _ => ⟨.refl _, Nat.le_succ _⟩
      withFolded := fun _ _ => ⟨.refl _, Nat.le_refl _⟩
      withLayout := fun _ _ _ => ⟨List.sublist_append_left .., Nat.le_refl _⟩
      withPooled := fun _ _ => ⟨.refl _, Nat.le_refl _⟩ }

/-- Without folding no node is folded away. -/
theorem foldedNodes_eq (hfold : options.foldConstants = false)
    (h : Emits options spot state expr emitted after) :
    after.foldedNodes = state.foldedNodes := by
  have hrel : EmitState.Accumulates options fun state after =>
      after.foldedNodes = state.foldedNodes :=
    { refl := fun _ => rfl
      trans := fun h h' => h'.trans h
      visited := fun _ _ => rfl
      withLiteral := fun _ => rfl
      -- nothing is folded
      withFolded := fun hon => by
        rw [hfold] at hon
        cases hon
      withLayout := fun _ _ _ => rfl
      withPooled := fun _ _ => rfl }
  exact h.accumulates hrel

end Emits

/-! ### Two runs -/

/-- The `other` state has collected no more: the constants in its code that `state` does
    not have stand for nodes that were folded away. -/
structure EmitState.Leaner (state other : EmitState) : Prop where
  layouts : other.layouts.Sublist state.layouts
  inlineConstants : other.inlineConstants ≤ state.inlineConstants + other.foldedNodes

namespace EmitState.Leaner

variable {state other after : EmitState}

theorem visited (h : state.Leaner other) (spot : Spot) :
    (state.visited spot).Leaner (other.visited spot) :=
  ⟨h.layouts, h.inlineConstants⟩

/-- Both runs put one more constant into the code. -/
theorem withLiteral (h : state.Leaner other) : state.withLiteral.Leaner other.withLiteral := by
  refine ⟨h.layouts, ?_⟩
  show other.inlineConstants + 1 ≤ state.inlineConstants + 1 + other.foldedNodes
  have := h.inlineConstants
  omega

theorem withPooled (h : state.Leaner other) (value : Value) :
    (state.withPooled value).Leaner (other.withPooled value) :=
  ⟨h.layouts, h.inlineConstants⟩

theorem withLayout (h : state.Leaner other) (depth : Nat) (scope : Scope) :
    (state.withLayout depth scope).Leaner (other.withLayout depth scope) :=
  ⟨h.layouts.append (.refl _), h.inlineConstants⟩

/-- A conditional is replaced by a branch of it. -/
theorem withFolded (h : state.Leaner other) : state.Leaner other.withFolded :=
  ⟨h.layouts, Nat.le_succ_of_le h.inlineConstants⟩

/-- A node is replaced by its value. -/
theorem foldedTo (h : state.Leaner other) : state.Leaner other.withFolded.withLiteral :=
  ⟨h.layouts, Nat.succ_le_succ h.inlineConstants⟩

/-- One run stands still while the other one goes on. -/
theorem of_grows (h : state.Leaner other) (hgrows : state.Grows after) : after.Leaner other :=
  ⟨h.layouts.trans hgrows.layouts,
    Nat.le_trans h.inlineConstants (Nat.add_le_add_right hgrows.inlineConstants _)⟩

end EmitState.Leaner

namespace Emits

variable {options : CompilerOptions}

/-- Where a tree is emitted, it is also emitted with other options, from every state that
    has collected no more to one that has collected no more. -/
def Leanly (options : CompilerOptions) : Emission := fun spot state expr _ after =>
  ∀ other : EmitState, state.Leaner other → ∃ emitted' after',
    Emits options spot other expr emitted' after' ∧ after.Leaner after'

/-- Several trees are emitted leanly if each of them is. -/
theorem leanly_of_all {spot : Spot} {state after : EmitState} {exprs : List (Expr Value)}
    {emitted : List Emitted} (h : Threads (Leanly options spot) state exprs emitted after)
    {other : EmitState} (hother : state.Leaner other) :
    ∃ emitted' after', Threads (Emits options spot) other exprs emitted' after'
      ∧ after.Leaner after' := by
  induction h generalizing other with
  | nil => exact ⟨[], other, .nil, hother⟩
  | cons hfirst _ ih =>
    obtain ⟨first, between, hfirst, hbetween⟩ := hfirst other hother
    obtain ⟨others, last, hrest, hlast⟩ := ih hbetween
    exact ⟨first :: others, last, .cons hfirst hrest, hlast⟩

/-- A binary operator whose operands are emitted is emitted, whatever folding makes of it. -/
theorem exists_binary (op : BinaryOp) {spot : Spot} {state between after : EmitState}
    {left right : Expr Value} {first second : Emitted}
    (hleft : Emits options spot.below (state.visited spot) left first between)
    (hright : Emits options spot.below between right second after) :
    ∃ emitted last, Emits options spot state (.binary op left right) emitted last
      ∧ (last = between.withFolded.withLiteral ∨ last = after.withFolded.withLiteral
        ∨ last = after) := by
  cases hsettled : Emit.folding options (op.fold? first.folded none) with
  | some value => exact ⟨_, _, emits_iff.2 (.settled hleft hsettled), .inl rfl⟩
  | none =>
    -- the left operand leaves the value open, so the right one is emitted
    cases hfold : Emit.folding options (op.fold? first.folded second.folded) with
    | some value =>
      exact ⟨_, _, emits_iff.2 (.foldedBinary hleft hsettled hright hfold), .inr (.inl rfl)⟩
    | none =>
      cases hop : op.isShortCircuit with
      | true =>
        exact ⟨_, _, emits_iff.2 (.shortCircuit hleft hsettled hright hfold hop), .inr (.inr rfl)⟩
      | false =>
        exact ⟨_, _, emits_iff.2 (.binary hleft hsettled hright hfold hop), .inr (.inr rfl)⟩

/-- **Folding only removes work.**  What is emitted without folding is emitted with folding,
    and collects no more then. -/
theorem leaner {spot : Spot} {state after : EmitState} {expr : Expr Value} {emitted : Emitted}
    (h : Emits { options with foldConstants := false } spot state expr emitted after) :
    Leanly { options with foldConstants := true } spot state expr emitted after := by
  refine induction (motive := Leanly { options with foldConstants := true }) ?_ h
  intro spot state expr emitted after hrule other hother
  have hvisited := hother.visited spot
  -- both operands of a binary operator are emitted, and folding may discard the right one
  have hbinary : ∀ {op : BinaryOp} {left right : Expr Value} {first second : Emitted}
      {between after : EmitState},
      Leanly { options with foldConstants := true } spot.below (state.visited spot) left first
        between →
      Emits { options with foldConstants := false } spot.below between right second after
        ∧ Leanly { options with foldConstants := true } spot.below between right second after →
      ∃ emitted' after', Emits { options with foldConstants := true } spot other
        (.binary op left right) emitted' after' ∧ after.Leaner after' := by
    intro op left right first second between after hleft hright
    obtain ⟨first', between', hleft, hbetween⟩ := hleft _ hvisited
    obtain ⟨second', after', hright', hafter⟩ := hright.2 _ hbetween
    obtain ⟨emitted', last, hemits, hlast⟩ := exists_binary op hleft hright'
    refine ⟨emitted', last, hemits, ?_⟩
    rcases hlast with rfl | rfl | rfl
    · exact (hbetween.of_grows hright.1.grows).foldedTo
    · exact hafter.foldedTo
    · exact hafter
  cases hrule with
  | literal hprim => exact ⟨_, _, emits_iff.2 (.literal hprim), hvisited.withLiteral⟩
  | pooled hprim hhoist =>
    exact ⟨_, _, emits_iff.2 (.pooled hprim hhoist), hvisited.withPooled _⟩
  | embedded hprim hhoist => exact ⟨_, _, emits_iff.2 (.embedded hprim hhoist), hvisited⟩
  | slot hslot => exact ⟨_, _, emits_iff.2 (.slot hslot), hvisited⟩
  | new hargs =>
    obtain ⟨_, _, hargs, hafter⟩ := leanly_of_all hargs.right hvisited
    exact ⟨_, _, emits_iff.2 (.new hargs), hafter⟩
  | field htarget =>
    obtain ⟨_, _, htarget, hafter⟩ := htarget.2 _ hvisited
    exact ⟨_, _, emits_iff.2 (.field htarget), hafter⟩
  | foldedUnary _ hfold | settled _ hfold | foldedBinary _ _ _ hfold | taken _ hfold =>
    cases hfold
  | @unary _ _ op _ _ _ hoperand =>
    obtain ⟨first, between, hoperand, hbetween⟩ := hoperand.2 _ hvisited
    cases hfold : Emit.folding { options with foldConstants := true } (op.fold? first.folded) with
    | some value =>
      exact ⟨_, _, emits_iff.2 (.foldedUnary hoperand hfold), hbetween.foldedTo⟩
    | none => exact ⟨_, _, emits_iff.2 (.unary hoperand hfold), hbetween⟩
  | shortCircuit hleft _ hright | binary hleft _ hright => exact hbinary hleft.2 hright
  | conditional htest _ hyes hno =>
    obtain ⟨first, between, htest, hbetween⟩ := htest.2 _ hvisited
    cases htaken : Emit.folding { options with foldConstants := true }
      (foldTest? first.folded) with
    | none =>
      obtain ⟨_, _, hyes, hnext⟩ := hyes.2 _ hbetween
      obtain ⟨_, _, hno, hafter⟩ := hno.2 _ hnext
      exact ⟨_, _, emits_iff.2 (.conditional htest htaken hyes hno), hafter⟩
    | some taken =>
      -- the run without folding emits both branches, this one the branch that is taken
      cases taken with
      | true =>
        obtain ⟨_, _, hbranch, hnext⟩ := hyes.2 _ hbetween.withFolded
        exact ⟨_, _, emits_iff.2 (.taken htest htaken hbranch), hnext.of_grows hno.1.grows⟩
      | false =>
        obtain ⟨_, _, hbranch, hafter⟩ := hno.2 _ (hbetween.of_grows hyes.1.grows).withFolded
        exact ⟨_, _, emits_iff.2 (.taken htest htaken hbranch), hafter⟩
  | lambda hinner hbody =>
    obtain ⟨_, _, hbody, hafter⟩ := hbody.2 _ (hvisited.withLayout ..)
    exact ⟨_, _, emits_iff.2 (.lambda hinner hbody), hafter⟩
  | direct hinner hbody hargs =>
    obtain ⟨_, _, hbody, hbetween⟩ := hbody.2 _ (hvisited.withLayout ..)
    obtain ⟨_, _, hargs, hafter⟩ := leanly_of_all hargs.right hbetween
    exact ⟨_, _, emits_iff.2 (.direct hinner hbody hargs), hafter⟩
  | invoke hlambda htarget hargs =>
    obtain ⟨_, _, htarget, hbetween⟩ := htarget.2 _ hvisited
    obtain ⟨_, _, hargs, hafter⟩ := leanly_of_all hargs.right hbetween
    exact ⟨_, _, emits_iff.2 (.invoke hlambda htarget hargs), hafter⟩
  | extension hreduced =>
    obtain ⟨_, _, hreduced, hafter⟩ := hreduced.2 _ hvisited
    exact ⟨_, _, emits_iff.2 (.extension hreduced), hafter⟩

end Emits

end ExprTree

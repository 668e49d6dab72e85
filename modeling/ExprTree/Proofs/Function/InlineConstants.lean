import ExprTree.Proofs.Code.Derivation
import ExprTree.Proofs.Function.Denotation

namespace ExprTree

/-!
# Constants in the code

The plan counts a constant when it is put into the code.  Where folding then replaces a
node by its value, the constants of its operands are gone from the code, but they stay
counted.

`Expr.consumed` is the number of values that folding uses up in this way: one or two for
each node that is folded away.  The counter is the number of primitives in the code
together with these (`Lambda.inlineConstants_of_compileFast`), so it says how many
primitives the code holds if and only if nothing was folded.
-/

namespace Code

variable {κ : Type}

mutual

/-- The primitives that stand in code, those in the bodies of its closures among them. -/
def inlined : Code κ → List κ
  | literal value => [value]
  | embedded _ | pooled _ | slot _ => []
  | construct _ args | instantiate _ args => inlinedInAll args
  | fieldAt target _ _ | field target _ => target.inlined
  | unary _ operand => operand.inlined
  | shortCircuit _ left right | arithmetic _ left right | binary _ left right =>
    left.inlined ++ right.inlined
  | conditional test yes no => test.inlined ++ (yes.inlined ++ no.inlined)
  | closure _ _ body => body.inlined
  | invoke target args => target.inlined ++ inlinedInAll args

/-- The primitives that stand in several pieces of code. -/
def inlinedInAll : List (Code κ) → List κ
  | [] => []
  | code :: rest => code.inlined ++ inlinedInAll rest

end

end Code

/-! ### Values that folding uses up -/

namespace Expr

mutual

/-- How many known values folding uses up in a tree: the operands of the operators that it
    carries out, where a settled short circuit has only its left one, and the tests of the
    conditionals that it decides.  Nothing is looked at in what folding leaves out. -/
def consumed (fold : Bool) : Expr Value → Nat
  | constant _ | parameter _ => 0
  | new _ args => consumedInAll fold args
  | field target _ => target.consumed fold
  | unary op operand =>
    operand.consumed fold + if ((unary op operand).known? fold).isSome then 1 else 0
  | binary op left right =>
    if (if fold then op.fold? (left.known? fold) none else none).isSome then
      left.consumed fold + 1
    else
      left.consumed fold + right.consumed fold
        + if ((binary op left right).known? fold).isSome then 2 else 0
  | conditional test yes no =>
    match decided? fold test with
    | some true => test.consumed fold + 1 + yes.consumed fold
    | some false => test.consumed fold + 1 + no.consumed fold
    | none => test.consumed fold + (yes.consumed fold + no.consumed fold)
  | lambda _ body => body.consumed fold
  | invoke target args => target.consumed fold + consumedInAll fold args
  | extension _ operands _ => consumedInAll fold operands

/-- How many known values folding uses up in several trees. -/
def consumedInAll (fold : Bool) : List (Expr Value) → Nat
  | [] => 0
  | expr :: rest => expr.consumed fold + consumedInAll fold rest

end

variable {fold : Bool}

/-- The test of a decided conditional is used up, and the other branch is left out. -/
theorem consumed_of_decided {test yes no : Expr Value} {taken : Bool}
    (h : decided? fold test = some taken) :
    (conditional test yes no).consumed fold
      = test.consumed fold + 1 + (if taken then yes else no).consumed fold := by
  rw [consumed, h]
  cases taken <;> rfl

end Expr

/-! ### What emission counts -/

/-- Between two states `inlined` constants were put into the code to stay there and
    `consumed` others that folding replaced, one or two at a time. -/
structure EmitState.Counts (state : EmitState) (inlined consumed : Nat) (after : EmitState) :
    Prop where
  inlineConstants : after.inlineConstants = state.inlineConstants + inlined + consumed
  folded_le : after.foldedNodes ≤ state.foldedNodes + consumed
  le_folded : 2 * state.foldedNodes + consumed ≤ 2 * after.foldedNodes

namespace EmitState.Counts

variable {state between after : EmitState} {inlined inlined' consumed consumed' : Nat}

theorem refl (state : EmitState) : state.Counts 0 0 state :=
  ⟨rfl, Nat.le_refl _, Nat.le_refl _⟩

/-- Of two steps one after the other both counts add up. -/
theorem trans (h : state.Counts inlined consumed between)
    (h' : between.Counts inlined' consumed' after) :
    state.Counts (inlined + inlined') (consumed + consumed') after := by
  have := h.inlineConstants
  have := h'.inlineConstants
  have := h.folded_le
  have := h'.folded_le
  have := h.le_folded
  have := h'.le_folded
  constructor <;> omega

/-- Noting a node counts nothing. -/
theorem of_visited (spot : Spot) (h : (state.visited spot).Counts inlined consumed after) :
    state.Counts inlined consumed after :=
  ⟨h.inlineConstants, h.folded_le, h.le_folded⟩

/-- A layout counts nothing. -/
theorem of_withLayout {depth : Nat} {scope : Scope}
    (h : (state.withLayout depth scope).Counts inlined consumed after) :
    state.Counts inlined consumed after :=
  ⟨h.inlineConstants, h.folded_le, h.le_folded⟩

/-- A constant in the pool is not in the code. -/
theorem withPooled (value : Value) (state : EmitState) :
    state.Counts 0 0 (state.withPooled value) :=
  ⟨rfl, Nat.le_refl _, Nat.le_refl _⟩

/-- A constant is put into the code. -/
theorem withLiteral (state : EmitState) : state.Counts 1 0 state.withLiteral :=
  ⟨rfl, Nat.le_refl _, Nat.le_refl _⟩

/-- A node whose operands left one or two constants in the code is folded away. -/
theorem withFolded (h : state.Counts inlined consumed after) (hpos : 0 < inlined)
    (hle : inlined ≤ 2) : state.Counts 0 (consumed + inlined) after.withFolded := by
  have := h.inlineConstants
  have := h.folded_le
  have := h.le_folded
  constructor
  · show after.inlineConstants = _
    omega
  · show after.foldedNodes + 1 ≤ _
    omega
  · show _ ≤ 2 * (after.foldedNodes + 1)
    omega

/-- A node is replaced by its value. -/
theorem foldedTo (h : state.Counts inlined consumed after) (hpos : 0 < inlined)
    (hle : inlined ≤ 2) :
    state.Counts 1 (consumed + inlined) after.withFolded.withLiteral := by
  have := (h.withFolded hpos hle).trans (withLiteral _)
  rwa [Nat.zero_add, Nat.add_zero] at this

end EmitState.Counts

namespace Emits

variable {options : CompilerOptions} {spot : Spot} {state after : EmitState}

/-- The code of a node with a known value is one primitive. -/
theorem length_inlined_of_folded {expr : Expr Value} {emitted : Emitted} {value : Value}
    (h : Emits options spot state expr emitted after) (hfolded : emitted.folded = some value) :
    emitted.code.inlined.length = 1 := by
  rw [(h.of_folded hfolded).1]
  rfl

/-- Several trees are counted tree by tree. -/
theorem counts_of_all {exprs : List (Expr Value)} {emitted : List Emitted}
    (h : Threads (fun state (expr : Expr Value) (emitted : Emitted) after =>
      state.Counts emitted.code.inlined.length (expr.reduce.consumed options.foldConstants) after)
      state exprs emitted after) :
    state.Counts (Code.inlinedInAll (emitted.map (·.code))).length
      (Expr.consumedInAll options.foldConstants (Expr.reduceAll exprs)) after := by
  induction h with
  | nil => exact .refl _
  | cons hfirst _ ih =>
    rw [List.map_cons, Code.inlinedInAll, List.length_append]
    exact hfirst.trans ih

/-- **What emission counts as constants in the code.**  The primitives in the code, and what
    folding used up. -/
theorem counts {expr : Expr Value} {emitted : Emitted}
    (h : Emits options spot state expr emitted after) :
    state.Counts emitted.code.inlined.length (expr.reduce.consumed options.foldConstants)
      after := by
  refine induction (motive := fun _ state expr emitted after => state.Counts
    emitted.code.inlined.length (expr.reduce.consumed options.foldConstants) after) ?_ h
  intro spot state expr emitted after hrule
  have hemits : Emits options spot state expr emitted after := .of_rule hrule
  refine EmitState.Counts.of_visited spot ?_
  cases hrule with
  | literal => exact .withLiteral _
  | pooled => exact .withPooled _ _
  | embedded | slot => exact .refl _
  | new hargs =>
    rw [read_emitNew Code.inlined fun _ => rfl]
    exact counts_of_all hargs.right
  | field htarget =>
    rw [read_emitField Code.inlined fun _ _ => rfl]
    exact htarget.2
  | foldedUnary hoperand hfold =>
    obtain ⟨a, ha⟩ := Emit.known_of_unary hfold
    have hcounts := hoperand.2
    rw [length_inlined_of_folded hoperand.1 ha] at hcounts
    have hknown := hemits.folded_eq
    rw [Expr.reduce] at hknown ⊢
    rw [Expr.consumed, ← hknown]
    exact hcounts.foldedTo Nat.one_pos (Nat.le_succ 1)
  | unary hoperand =>
    have hknown := hemits.folded_eq
    rw [Expr.reduce] at hknown ⊢
    rw [Expr.consumed, ← hknown]
    exact hoperand.2
  | settled hleft hsettled =>
    obtain ⟨a, ha, _⟩ := Emit.known_of_binary hsettled
    have hcounts := hleft.2
    rw [length_inlined_of_folded hleft.1 ha] at hcounts
    rw [hleft.1.folded_eq, Emit.folding] at hsettled
    rw [Expr.reduce, Expr.consumed, hsettled]
    exact hcounts.foldedTo Nat.one_pos (Nat.le_succ 1)
  | foldedBinary hleft hopen hright hfold =>
    obtain ⟨a, ha, hrest⟩ := Emit.known_of_binary hfold
    obtain ⟨b, hb⟩ := hrest hopen
    -- both operands are one primitive each, and one takes their place
    have hcounts := hleft.2.trans hright.2
    rw [length_inlined_of_folded hleft.1 ha, length_inlined_of_folded hright.1 hb] at hcounts
    have hknown := hemits.folded_eq
    rw [hleft.1.folded_eq, Emit.folding] at hopen
    rw [Expr.reduce] at hknown ⊢
    rw [Expr.consumed, hopen, ← hknown]
    exact hcounts.foldedTo Nat.two_pos (Nat.le_refl 2)
  | shortCircuit hleft hopen hright =>
    have hknown := hemits.folded_eq
    rw [hleft.1.folded_eq, Emit.folding] at hopen
    rw [Expr.reduce] at hknown ⊢
    rw [Expr.consumed, hopen, ← hknown, Code.inlined, List.length_append]
    exact hleft.2.trans hright.2
  | binary hleft hopen hright =>
    have hknown := hemits.folded_eq
    rw [emitBinary_folded] at hknown
    rw [hleft.1.folded_eq, Emit.folding] at hopen
    rw [Expr.reduce] at hknown ⊢
    rw [Expr.consumed, hopen, ← hknown, read_emitBinary Code.inlined fun _ _ => rfl,
      Code.inlined, List.length_append]
    exact hleft.2.trans hright.2
  | @taken _ _ _ _ _ _ _ taken _ _ htest htaken hbranch =>
    -- the test was one primitive, which is not in the code of the branch
    have hcounts := htest.2
    rw [length_inlined_of_folded htest.1 (Emit.known_of_test htaken)] at hcounts
    have hdecided := htaken
    rw [htest.1.folded_eq] at hdecided
    rw [Expr.reduce, Expr.consumed_of_decided hdecided]
    have htotal := (hcounts.withFolded Nat.one_pos (Nat.le_succ 1)).trans hbranch.2
    rw [Nat.zero_add] at htotal
    cases taken <;> exact htotal
  | conditional htest hopen hyes hno =>
    rw [htest.1.folded_eq] at hopen
    have hopen : Expr.decided? options.foldConstants _ = none := hopen
    rw [Expr.reduce, Expr.consumed, hopen, Code.inlined, List.length_append, List.length_append]
    exact htest.2.trans (hyes.2.trans hno.2)
  | lambda _ hbody => exact hbody.2.of_withLayout
  | direct _ hbody hargs =>
    rw [Expr.reduce, Expr.consumed, Code.inlined, List.length_append]
    exact hbody.2.of_withLayout.trans (counts_of_all hargs.right)
  | invoke _ htarget hargs =>
    rw [Expr.reduce, Expr.consumed, Code.inlined, List.length_append]
    exact htarget.2.trans (counts_of_all hargs.right)
  | extension hreduced => exact hreduced.2

end Emits

/-! ### The plan -/

namespace Lambda

variable {lambda : Lambda Value} {options : CompilerOptions} {strict : Bool} {fn : CompiledFn}
  {plan : Plan}

/-- **What the plan counts as constants in the code**: the primitives that are there, and the
    known values that folding used up, one or two for each node that it counts as folded.
    So the code holds as many primitives as the plan says if and only if nothing was
    folded. -/
theorem inlineConstants_of_compileFast (h : lambda.compileFast options strict = .ok fn)
    (hplan : fn.plan? = some plan) :
    ∃ body, fn.callable = .compiled lambda.params body [] plan.constants
      ∧ plan.inlineConstants
        = body.inlined.length + lambda.reduce.body.consumed options.foldConstants
      ∧ plan.foldedNodes ≤ lambda.reduce.body.consumed options.foldConstants
      ∧ lambda.reduce.body.consumed options.foldConstants ≤ 2 * plan.foldedNodes
      ∧ (plan.inlineConstants = body.inlined.length ↔ plan.foldedNodes = 0) := by
  obtain ⟨emitted, state, hrun, hcallable, rfl⟩ := emit_eq_ok.1 (emit_of_compileFast h hplan).1
  -- all that is counted was counted while the body was emitted
  have hcounts := (emitBody_eq_ok.1 hrun).2.counts
  have hinline : state.inlineConstants
      = 0 + emitted.code.inlined.length + lambda.body.reduce.consumed options.foldConstants :=
    hcounts.inlineConstants
  have hfolded : state.foldedNodes ≤ 0 + lambda.body.reduce.consumed options.foldConstants :=
    hcounts.folded_le
  have hconsumed : 2 * 0 + lambda.body.reduce.consumed options.foldConstants
      ≤ 2 * state.foldedNodes := hcounts.le_folded
  rw [Nat.zero_add] at hinline hfolded
  rw [Nat.mul_zero, Nat.zero_add] at hconsumed
  refine ⟨emitted.code, hcallable, hinline, hfolded, hconsumed, ?_⟩
  show state.inlineConstants = _ ↔ state.foldedNodes = 0
  omega

/-- The sum of a parameter and a known sum. -/
def halfKnown : Lambda Value :=
  let one : Expr Value := .constant (.number ⟨1⟩)
  ⟨[⟨0, "x", .number⟩], .binary .add (.parameter ⟨0, "x", .number⟩) (.binary .add one one)⟩

/-- Folding the one sum of `halfKnown` leaves one primitive of three that are counted. -/
theorem inlineConstants_of_compileFast_halfKnown :
    ∃ fn plan body, halfKnown.compileFast {} true = .ok fn ∧ fn.plan? = some plan
      ∧ fn.callable = .compiled halfKnown.params body [] plan.constants
      ∧ plan.inlineConstants = body.inlined.length + halfKnown.reduce.body.consumed true
      ∧ plan.inlineConstants = 3 ∧ halfKnown.reduce.body.consumed true = 2
      ∧ plan.foldedNodes = 1 := by
  have hcompiles : halfKnown.compileFast {} true = .ok _ := rfl
  obtain ⟨body, hcallable, hinline, -, -, -⟩ := inlineConstants_of_compileFast hcompiles rfl
  exact ⟨_, _, body, hcompiles, rfl, hcallable, hinline, rfl, rfl, rfl⟩

/-- What the plan counts is in general not the number of primitives in the code. -/
theorem inlineConstants_ne_of_folded :
    ∃ (lambda : Lambda Value) (options : CompilerOptions) (fn : CompiledFn) (plan : Plan)
      (body : Code Value),
      lambda.compileFast options true = .ok fn ∧ fn.plan? = some plan
      ∧ fn.callable = .compiled lambda.params body [] plan.constants
      ∧ body.inlined.length = 1 ∧ plan.inlineConstants = 3 := by
  refine ⟨⟨[], .binary .add (.constant (.number ⟨1⟩)) (.constant (.number ⟨2⟩))⟩, {}, _, _, _,
    rfl, rfl, rfl, rfl, rfl⟩

end Lambda

end ExprTree

import ExprTree.Proofs.Code.Derivation
import ExprTree.Proofs.Code.Interning
import ExprTree.Proofs.Code.Uses

namespace ExprTree

/-!
# The pool of constants

The pool ends up with the constants that are hoisted out of a tree (`Expr.hoisted`), one
after the other, and the code reads them in that order (`Emits.pools`).

Whether constants are hoisted is of no importance to anything else that emission collects
(`Emits.of_hoisting`).
-/

namespace Code

variable {κ : Type}

mutual

/-- The positions of the pool that code reads, in evaluation order. -/
def loads : Code κ → List Nat
  | literal _ | embedded _ | slot _ => []
  | pooled index => [index]
  | construct _ args | instantiate _ args => loadsOfAll args
  | fieldAt target _ _ | field target _ => target.loads
  | unary _ operand => operand.loads
  | shortCircuit _ left right | arithmetic _ left right | binary _ left right =>
    left.loads ++ right.loads
  | conditional test yes no => test.loads ++ (yes.loads ++ no.loads)
  | closure _ _ body => body.loads
  | invoke target args => target.loads ++ loadsOfAll args

/-- The positions of the pool that several pieces of code read. -/
def loadsOfAll : List (Code κ) → List Nat
  | [] => []
  | code :: rest => code.loads ++ loadsOfAll rest

end

end Code

/-! ### Hoisted constants -/

namespace Expr

variable {options : CompilerOptions}

/-- The constants of a tree that go to the pool: none without hoisting, and otherwise all
    but the primitives that stand outside of what folding discards. -/
def hoisted (options : CompilerOptions) (expr : Expr Value) : List Value :=
  (if options.foldConstants then expr.uses else expr.literals).filter fun c =>
    options.hoistConstants && !c.isPrimitive

/-- The constants of several trees that go to the pool. -/
def hoistedOfAll (options : CompilerOptions) (exprs : List (Expr Value)) : List Value :=
  exprs.flatMap (hoisted options)

variable {target operand left right test yes no body : Expr Value} {args : List (Expr Value)}

/-- A constant is hoisted unless it is a primitive, or hoisting is off. -/
theorem hoisted_constant {value : Value} : (constant value).hoisted options
    = if options.hoistConstants && !value.isPrimitive then [value] else [] := by
  cases hfold : options.foldConstants <;> simp [hoisted, hfold, uses, literals, List.filter_cons]

theorem hoisted_parameter {param : Parameter} : (parameter param).hoisted options = [] := by
  cases hfold : options.foldConstants <;> simp [hoisted, hfold, uses, literals]

/-- The constants of several trees, one list or several. -/
theorem filter_eq_hoistedOfAll (exprs : List (Expr Value)) :
    (if options.foldConstants then usesOfAll exprs else literalsOfAll exprs).filter
      (fun c => options.hoistConstants && !c.isPrimitive) = hoistedOfAll options exprs := by
  induction exprs with
  | nil => cases hfold : options.foldConstants <;> simp [usesOfAll, literalsOfAll, hoistedOfAll]
  | cons expr rest ih =>
    unfold hoistedOfAll at ih ⊢
    rw [List.flatMap_cons, ← ih]
    cases hfold : options.foldConstants <;>
      simp [hoisted, hfold, usesOfAll, literalsOfAll, List.filter_append]

theorem hoisted_new {cls : ClassDef} : (new cls args).hoisted options = hoistedOfAll options args :=
  filter_eq_hoistedOfAll args

theorem hoisted_field {name : String} :
    (field target name).hoisted options = target.hoisted options :=
  rfl

theorem hoisted_lambda {params : List Parameter} :
    (lambda params body).hoisted options = body.hoisted options :=
  rfl

/-- The constants of the function come before those of the arguments. -/
theorem hoisted_invoke :
    (invoke target args).hoisted options = target.hoisted options ++ hoistedOfAll options args := by
  rw [← filter_eq_hoistedOfAll]
  cases hfold : options.foldConstants <;>
    simp [hoisted, hfold, uses, literals, List.filter_append]

/-- An operator that is not folded has the constants of its operands, from the left. -/
theorem hoisted_binary {op : BinaryOp}
    (h : (binary op left right).known? options.foldConstants = none) :
    (binary op left right).hoisted options = left.hoisted options ++ right.hoisted options := by
  cases hfold : options.foldConstants with
  | false => simp [hoisted, hfold, literals, List.filter_append]
  | true =>
    rw [hfold] at h
    simp [hoisted, hfold, uses_binary, h, List.filter_append]

/-- A conditional that is not decided has the constants of all its parts. -/
theorem hoisted_conditional (h : decided? options.foldConstants test = none) :
    (conditional test yes no).hoisted options
      = test.hoisted options ++ (yes.hoisted options ++ no.hoisted options) := by
  cases hfold : options.foldConstants with
  | false => simp [hoisted, hfold, literals, List.filter_append]
  | true =>
    rw [hfold, decided?, if_pos rfl] at h
    simp [hoisted, hfold, uses_conditional, h, List.filter_append]

/-- A conditional that is decided has those of the branch that is taken.  Those of its
    condition are primitives, as it is known. -/
theorem hoisted_of_decided {taken : Bool} (h : decided? options.foldConstants test = some taken) :
    (conditional test yes no).hoisted options = (if taken then yes else no).hoisted options := by
  cases hfold : options.foldConstants with
  | false =>
    rw [hfold] at h
    cases h
  | true =>
    rw [hfold, decided?, if_pos rfl] at h
    simp only [hoisted, hfold, if_true, uses_of_taken (foldTest?_eq_some.1 h)]

/-- Nothing is hoisted out of a tree with a known value. -/
theorem hoisted_of_known {expr : Expr Value} {value : Value}
    (h : expr.known? options.foldConstants = some value) : expr.hoisted options = [] := by
  rw [hoisted, List.filter_eq_nil_iff]
  intro c hc
  suffices c.isPrimitive = true by simp [this]
  cases hfold : options.foldConstants with
  | true =>
    rw [hfold] at h hc
    exact isPrimitive_of_uses h c hc
  | false =>
    -- without folding only a constant is known
    rw [hfold] at h hc
    cases expr with
    | constant value =>
      rw [known?, Option.ite_none_right_eq_some] at h
      simpa [literals] using (List.mem_singleton.1 hc) ▸ h.1
    | _ => simp [known?] at h

/-- Primitives stay where they are. -/
theorem not_isPrimitive_of_hoisted {expr : Expr Value} :
    ∀ c ∈ expr.hoisted options, c.isPrimitive = false := by
  intro c hc
  have := (List.mem_filter.1 hc).2
  simp_all

end Expr

/-! ### Emission and the pool -/

/-- The code reads the positions at which the values are in the pool afterwards. -/
def Pools (pool : Arena Value) (values : List Value) (loads : List Nat) (after : Arena Value) :
    Prop :=
  (loads, after) = pool.internAll values

namespace Pools

variable {pool between after : Arena Value} {values values' : List Value} {loads loads' : List Nat}

theorem nil : Pools pool [] [] pool := rfl

/-- One list of values is pooled after the other. -/
theorem append (h : Pools pool values loads between) (h' : Pools between values' loads' after) :
    Pools pool (values ++ values') (loads ++ loads') after := by
  unfold Pools at h h' ⊢
  rw [Arena.internAll_append, ← h, ← h']

end Pools

namespace Emits

variable {options : CompilerOptions} {spot : Spot} {state after : EmitState}

/-- The values of several trees are pooled tree by tree. -/
theorem pools_of_all {exprs : List (Expr Value)} {emitted : List Emitted}
    (h : Threads (fun state (expr : Expr Value) (emitted : Emitted) after =>
      Pools state.pool (expr.reduce.hoisted options) emitted.code.loads after.pool)
      state exprs emitted after) :
    Pools state.pool (Expr.hoistedOfAll options (Expr.reduceAll exprs))
      (Code.loadsOfAll (emitted.map (·.code))) after.pool := by
  induction h with
  | nil => exact .nil
  | cons hfirst _ ih => exact hfirst.append ih

/-- **The pool takes up what is hoisted out of the tree**, and the code reads it from there. -/
theorem pools {expr : Expr Value} {emitted : Emitted}
    (h : Emits options spot state expr emitted after) :
    Pools state.pool (expr.reduce.hoisted options) emitted.code.loads after.pool := by
  refine induction (motive := fun _ state expr emitted after =>
    Pools state.pool (expr.reduce.hoisted options) emitted.code.loads after.pool) ?_ h
  intro spot state expr emitted after hrule
  have hemits : Emits options spot state expr emitted after := .of_rule hrule
  cases hfolded : emitted.folded with
  | some value =>
    -- a known value is in the code, and nothing else is left of the node
    have hknown := hemits.folded_eq
    rw [hfolded] at hknown
    obtain ⟨hcode, hpool, _⟩ := hemits.of_folded hfolded
    rw [Expr.hoisted_of_known hknown.symm, hcode, hpool]
    exact .nil
  | none =>
    have hknown := hemits.folded_eq
    rw [hfolded] at hknown
    cases hrule with
    | literal | foldedUnary | settled | foldedBinary => cases hfolded
    | pooled hprim hhoist =>
      rw [Expr.reduce, Expr.hoisted_constant, hprim, hhoist]
      rfl
    | embedded hprim hhoist =>
      rw [Expr.reduce, Expr.hoisted_constant, hhoist]
      exact .nil
    | slot hslot =>
      rw [Expr.reduce, Expr.hoisted_parameter]
      exact .nil
    | new hargs =>
      have hpools := pools_of_all hargs.right
      rw [Expr.reduce, Expr.hoisted_new, read_emitNew Code.loads fun _ => rfl]
      exact hpools
    | field htarget =>
      rw [Expr.reduce, Expr.hoisted_field, read_emitField Code.loads fun _ _ => rfl]
      exact htarget.2
    | unary hoperand => exact hoperand.2
    | shortCircuit hleft _ hright =>
      rw [Expr.reduce, Expr.hoisted_binary hknown.symm]
      exact hleft.2.append hright.2
    | binary hleft _ hright =>
      rw [Expr.reduce, Expr.hoisted_binary hknown.symm,
        read_emitBinary Code.loads fun _ _ => rfl]
      exact hleft.2.append hright.2
    | @taken _ _ _ _ _ _ _ taken _ _ htest htaken hbranch =>
      -- the test is known, so that it leaves nothing in the pool
      obtain ⟨_, hpool, _⟩ := htest.1.of_folded (Emit.known_of_test htaken)
      rw [EmitState.visited_pool] at hpool
      have hdecided := htaken
      rw [htest.1.folded_eq] at hdecided
      rw [Expr.reduce, Expr.hoisted_of_decided hdecided, ← hpool]
      cases taken <;> exact hbranch.2
    | conditional htest hopen hyes hno =>
      rw [htest.1.folded_eq] at hopen
      rw [Expr.reduce, Expr.hoisted_conditional hopen]
      exact htest.2.append (hyes.2.append hno.2)
    | lambda _ hbody => exact hbody.2
    | direct _ hbody hargs =>
      rw [Expr.reduce, Expr.hoisted_invoke, Expr.reduce, Expr.hoisted_lambda]
      exact hbody.2.append (pools_of_all hargs.right)
    | invoke _ htarget hargs =>
      rw [Expr.reduce, Expr.hoisted_invoke]
      exact htarget.2.append (pools_of_all hargs.right)
    | extension hreduced => exact hreduced.2

end Emits

/-! ### With and without hoisting -/

/-- Two states differ in the pool at most. -/
structure EmitState.SameCounts (state other : EmitState) : Prop where
  layouts : other.layouts = state.layouts
  inlineConstants : other.inlineConstants = state.inlineConstants
  foldedNodes : other.foldedNodes = state.foldedNodes

namespace EmitState.SameCounts

variable {state other : EmitState}

theorem visited (h : state.SameCounts other) (spot : Spot) :
    (state.visited spot).SameCounts (other.visited spot) :=
  ⟨h.layouts, h.inlineConstants, h.foldedNodes⟩

theorem withLiteral (h : state.SameCounts other) : state.withLiteral.SameCounts other.withLiteral :=
  ⟨h.layouts, congrArg (· + 1) h.inlineConstants, h.foldedNodes⟩

theorem withFolded (h : state.SameCounts other) : state.withFolded.SameCounts other.withFolded :=
  ⟨h.layouts, h.inlineConstants, congrArg (· + 1) h.foldedNodes⟩

theorem withLayout (h : state.SameCounts other) (depth : Nat) (scope : Scope) :
    (state.withLayout depth scope).SameCounts (other.withLayout depth scope) :=
  ⟨congrArg (· ++ _) h.layouts, h.inlineConstants, h.foldedNodes⟩

end EmitState.SameCounts

/-- What is known about two pieces of code is the same. -/
structure Emitted.SameFacts (emitted other : Emitted) : Prop where
  ty : other.ty = emitted.ty
  folded : other.folded = emitted.folded

namespace Emitted.SameFacts

variable {emitted other first first' second second' : Emitted}

/-- The type of a field is found from the type of the object. -/
theorem field (h : emitted.SameFacts other) (name : String) :
    (emitField emitted name).SameFacts (emitField other name) := by
  refine ⟨?_, by rw [emitField_folded, emitField_folded]⟩
  unfold emitField
  rw [h.ty]
  split
  · split <;> rfl
  · rfl

/-- The type of a unary operator is found from that of its operand. -/
theorem unary (h : emitted.SameFacts other) (op : UnaryOp) :
    (emitUnary op emitted).SameFacts (emitUnary op other) := by
  refine ⟨?_, rfl⟩
  unfold emitUnary
  rw [h.ty]

/-- The type of a binary operator is found from those of its operands. -/
theorem binary (h : first.SameFacts first') (h' : second.SameFacts second') (op : BinaryOp) :
    (emitBinary op first second).SameFacts (emitBinary op first' second') := by
  refine ⟨?_, by rw [emitBinary_folded, emitBinary_folded]⟩
  unfold emitBinary
  rw [h.ty, h'.ty]
  dsimp only
  split <;> rfl

end Emitted.SameFacts

namespace Emits

variable {options : CompilerOptions}

/-- Where a tree is emitted, it is also emitted from other states with other options, to
    the same counts and facts. -/
def Likewise (options : CompilerOptions) : Emission := fun spot state expr emitted after =>
  ∀ other : EmitState, state.SameCounts other → ∃ emitted' after',
    Emits options spot other expr emitted' after'
      ∧ after.SameCounts after' ∧ emitted.SameFacts emitted'

/-- Several trees are emitted likewise if each of them is. -/
theorem likewise_of_all {spot : Spot} {state after : EmitState} {exprs : List (Expr Value)}
    {emitted : List Emitted} (h : Threads (Likewise options spot) state exprs emitted after)
    {other : EmitState} (hother : state.SameCounts other) :
    ∃ emitted' after', Threads (Emits options spot) other exprs emitted' after'
      ∧ after.SameCounts after' := by
  induction h generalizing other with
  | nil => exact ⟨[], other, .nil, hother⟩
  | cons hfirst _ ih =>
    obtain ⟨first, between, hfirst, hbetween, _⟩ := hfirst other hother
    obtain ⟨others, last, hrest, hlast⟩ := ih hbetween
    exact ⟨first :: others, last, .cons hfirst hrest, hlast⟩

/-- **Hoisting changes nothing but the pool.** -/
theorem of_hoisting (hoist : Bool) {spot : Spot} {state after : EmitState} {expr : Expr Value}
    {emitted : Emitted} (h : Emits options spot state expr emitted after) :
    Likewise { options with hoistConstants := hoist } spot state expr emitted after := by
  refine induction (motive := Likewise { options with hoistConstants := hoist }) ?_ h
  intro spot state expr emitted after hrule other hother
  have hvisited := hother.visited spot
  suffices ∃ emitted' after', EmitRule { options with hoistConstants := hoist }
      (Emits { options with hoistConstants := hoist }) spot other expr emitted' after'
      ∧ after.SameCounts after' ∧ emitted.SameFacts emitted' by
    obtain ⟨emitted', after', hrule, hsame⟩ := this
    exact ⟨emitted', after', emits_iff.2 hrule, hsame⟩
  -- each rule asks of its operands what they are folded to, which is the same in both
  -- runs, so the same rule applies; only constants go to different places
  cases hrule with
  | literal hprim => exact ⟨_, _, .literal hprim, hvisited.withLiteral, rfl, rfl⟩
  | pooled hprim | embedded hprim =>
    cases hhoist : hoist with
    | true => exact ⟨_, _, .pooled hprim rfl, ⟨hvisited.1, hvisited.2, hvisited.3⟩, rfl, rfl⟩
    | false => exact ⟨_, _, .embedded hprim rfl, ⟨hvisited.1, hvisited.2, hvisited.3⟩, rfl, rfl⟩
  | slot hslot => exact ⟨_, _, .slot hslot, hvisited, rfl, rfl⟩
  | new hargs =>
    obtain ⟨_, _, hargs, hafter⟩ := likewise_of_all hargs.right hvisited
    exact ⟨_, _, .new hargs, hafter, rfl, rfl⟩
  | field htarget =>
    obtain ⟨_, _, htarget, hafter, hfacts⟩ := htarget.2 _ hvisited
    exact ⟨_, _, .field htarget, hafter, hfacts.field _⟩
  | foldedUnary hoperand hfold =>
    obtain ⟨_, _, hoperand, hafter, hfacts⟩ := hoperand.2 _ hvisited
    rw [← hfacts.folded] at hfold
    exact ⟨_, _, .foldedUnary hoperand hfold, hafter.withFolded.withLiteral, rfl, rfl⟩
  | unary hoperand hopen =>
    obtain ⟨_, _, hoperand, hafter, hfacts⟩ := hoperand.2 _ hvisited
    rw [← hfacts.folded] at hopen
    exact ⟨_, _, .unary hoperand hopen, hafter, hfacts.unary _⟩
  | settled hleft hsettled =>
    obtain ⟨_, _, hleft, hafter, hfacts⟩ := hleft.2 _ hvisited
    rw [← hfacts.folded] at hsettled
    exact ⟨_, _, .settled hleft hsettled, hafter.withFolded.withLiteral, rfl, rfl⟩
  | foldedBinary hleft hopen hright hfold =>
    obtain ⟨_, _, hleft, hbetween, hfacts⟩ := hleft.2 _ hvisited
    obtain ⟨_, _, hright, hafter, hfacts'⟩ := hright.2 _ hbetween
    rw [← hfacts.folded] at hopen hfold
    rw [← hfacts'.folded] at hfold
    exact ⟨_, _, .foldedBinary hleft hopen hright hfold, hafter.withFolded.withLiteral, rfl, rfl⟩
  | shortCircuit hleft hopen hright hfold hop =>
    obtain ⟨_, _, hleft, hbetween, hfacts⟩ := hleft.2 _ hvisited
    obtain ⟨_, _, hright, hafter, hfacts'⟩ := hright.2 _ hbetween
    rw [← hfacts.folded] at hopen hfold
    rw [← hfacts'.folded] at hfold
    exact ⟨_, _, .shortCircuit hleft hopen hright hfold hop, hafter, rfl, rfl⟩
  | binary hleft hopen hright hfold hop =>
    obtain ⟨_, _, hleft, hbetween, hfacts⟩ := hleft.2 _ hvisited
    obtain ⟨_, _, hright, hafter, hfacts'⟩ := hright.2 _ hbetween
    rw [← hfacts.folded] at hopen hfold
    rw [← hfacts'.folded] at hfold
    exact ⟨_, _, .binary hleft hopen hright hfold hop, hafter, hfacts.binary hfacts' _⟩
  | taken htest htaken hbranch =>
    obtain ⟨_, _, htest, hbetween, hfacts⟩ := htest.2 _ hvisited
    obtain ⟨_, _, hbranch, hafter, hfacts'⟩ := hbranch.2 _ hbetween.withFolded
    rw [← hfacts.folded] at htaken
    exact ⟨_, _, .taken htest htaken hbranch, hafter, hfacts'⟩
  | conditional htest hopen hyes hno =>
    obtain ⟨_, _, htest, hbetween, hfacts⟩ := htest.2 _ hvisited
    obtain ⟨_, _, hyes, hnext, hfacts'⟩ := hyes.2 _ hbetween
    obtain ⟨_, _, hno, hafter, hfacts''⟩ := hno.2 _ hnext
    rw [← hfacts.folded] at hopen
    refine ⟨_, _, .conditional htest hopen hyes hno, hafter, ?_, rfl⟩
    rw [hfacts'.ty, hfacts''.ty]
  | lambda hinner hbody =>
    obtain ⟨_, _, hbody, hafter, _⟩ := hbody.2 _ (hvisited.withLayout ..)
    exact ⟨_, _, .lambda hinner hbody, hafter, rfl, rfl⟩
  | direct hinner hbody hargs =>
    obtain ⟨_, _, hbody, hbetween, hfacts⟩ := hbody.2 _ (hvisited.withLayout ..)
    obtain ⟨_, _, hargs, hafter⟩ := likewise_of_all hargs.right hbetween
    exact ⟨_, _, .direct hinner hbody hargs, hafter, hfacts.ty, rfl⟩
  | invoke hlambda htarget hargs =>
    obtain ⟨_, _, htarget, hbetween, _⟩ := htarget.2 _ hvisited
    obtain ⟨_, _, hargs, hafter⟩ := likewise_of_all hargs.right hbetween
    exact ⟨_, _, .invoke hlambda htarget hargs, hafter, rfl, rfl⟩
  | extension hreduced =>
    obtain ⟨_, _, hreduced, hafter, hfacts⟩ := hreduced.2 _ hvisited
    exact ⟨_, _, .extension hreduced, hafter, hfacts⟩

end Emits

end ExprTree

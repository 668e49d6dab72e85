import ExprTree.Proofs.Run.Steps
import ExprTree.Proofs.Value.Correspondence

namespace ExprTree

/-!
# Two runs of one tree

Two runs of one tree, on one stack and with one supply of ids, go together step
by step (`Expr.runsAgree`): they give corresponding values or the same error, and
leave the same stack and the same supply.  It does not matter which of them walk
the tree and which run code, nor under which options the code was emitted.

The induction is on the room on the stack, for calls, and inside it on the tree.
-/

/-- The host does the same twice, up to what corresponds: on corresponding arguments, and
    with the same ids to give out, a function of it gives corresponding results and leaves
    the same ids.

    Function ids have come past `start` before and after, from where on every id stands
    for itself, so that the functions which the host makes in both runs correspond. -/
def Hosts.Respects (hosts : Hosts) (ρ : Nat → Nat → Prop) (start : Nat) : Prop :=
  ∀ host args args' supply, start ≤ supply.nextFunction →
    List.Forall₂ (Value.Corresponds ρ) args args' → Value.AllOf Value.Fits host.captured →
    Value.AllOf Value.Fits args → Value.AllOf Value.Fits args' →
    ResultsAgree (Value.Corresponds ρ) (hosts host args supply).1 (hosts host args' supply).1
      ∧ (hosts host args supply).2 = (hosts host args' supply).2
      ∧ start ≤ (hosts host args supply).2.nextFunction

/-! ### Outcomes -/

namespace Outcome

variable {α β : Type} {R : α → α → Prop} {S : β → β → Prop} {start : Nat} {stack : CallStack}

/-- Two outcomes agree: in their results up to `R`, and exactly in what is left of
    the stack and of the ids, where function ids have come past `start`. -/
structure Agrees (R : α → α → Prop) (start : Nat) (outcome outcome' : Outcome stack α) : Prop where
  result : ResultsAgree R outcome.result outcome'.result
  after : outcome.stack = outcome'.stack
  supply : outcome.supply = outcome'.supply
  fresh : start ≤ outcome.supply.nextFunction

/-- Outcomes at once agree if their results do. -/
theorem agrees_done {supply : Supply} {result result' : Except RuntimeError α}
    (hfresh : start ≤ supply.nextFunction) (h : ResultsAgree R result result') :
    (done stack supply result).Agrees R start (done stack supply result') :=
  ⟨h, rfl, rfl, hfresh⟩

/-- Outcomes that agree are gone on from in the same way. -/
theorem Agrees.bind {outcome outcome' : Outcome stack α}
    {next next' : α → (after : CallStack) → after.room ≤ stack.room → Supply → Outcome after β}
    (h : outcome.Agrees R start outcome')
    (hnext : ∀ a a' (after : CallStack) (hroom : after.room ≤ stack.room) supply,
      outcome.result = .ok a → outcome'.result = .ok a' → R a a' →
      start ≤ supply.nextFunction →
      (next a after hroom supply).Agrees S start (next' a' after hroom supply)) :
    (outcome.bind next).Agrees S start (outcome'.bind next') := by
  obtain ⟨result, after, supply, hroom⟩ := outcome
  obtain ⟨result', after', supply', hroom'⟩ := outcome'
  obtain ⟨hresult, hafter, hsupply, hfresh⟩ := h
  have hafter : after = after' := hafter
  have hsupply : supply = supply' := hsupply
  subst hafter hsupply
  have hresult : ResultsAgree R result result' := hresult
  -- both outcomes are errors, or both go on with values that correspond
  cases hresult with
  | error => exact ⟨.error, rfl, rfl, hfresh⟩
  | ok ha =>
    obtain ⟨hresult, hafter, hsupply, hfresh⟩ := hnext _ _ after hroom supply rfl rfl ha hfresh
    exact ⟨hresult, hafter, hsupply, hfresh⟩

/-- Calls agree if their bodies do, and neither is begun on a full stack. -/
theorem agrees_during {supply : Supply}
    {body body' : (inner : CallStack) → inner.room < stack.room → Outcome inner α}
    (hfresh : start ≤ supply.nextFunction)
    (h : ∀ inner hroom, (body inner hroom).Agrees R start (body' inner hroom)) :
    (stack.during supply body).Agrees R start (stack.during supply body') := by
  unfold CallStack.during
  split
  · exact agrees_done hfresh .error
  · obtain ⟨hresult, hafter, hsupply, hfresh⟩ := h _ _
    exact ⟨hresult, congrArg CallStack.exit hafter, hsupply, hfresh⟩

section

variable {R : Value → Value → Prop} {supply : Supply}

/-- Two operands, and what `apply` makes of them. -/
theorem agrees_pair {apply : Value → Value → Except RuntimeError Value}
    (happly : ∀ {a a' b b'}, R a a' → R b b' → ResultsAgree R (apply a b) (apply a' b'))
    {first first' : Outcome stack Value}
    {second second' : (after : CallStack) → Supply → Outcome after Value}
    (hfirst : first.Agrees R start first')
    (hsecond : ∀ (after : CallStack) supply, after.room ≤ stack.room →
      start ≤ supply.nextFunction →
      (second after supply).Agrees R start (second' after supply)) :
    (first.bind fun a after _ supply => (second after supply).bind fun b after _ supply =>
        done after supply (apply a b)).Agrees R start
      (first'.bind fun a after _ supply => (second' after supply).bind fun b after _ supply =>
        done after supply (apply a b)) := by
  refine hfirst.bind fun a a' after hafter supply _ _ ha hfresh => ?_
  -- the second operand runs where the first one has left the stack and the supply
  exact (hsecond after supply hafter hfresh).bind fun b b' _ _ _ _ _ hb hfresh =>
    agrees_done hfresh (happly ha hb)

variable (halike : ∀ {a a'}, R a a' → Value.Alike a a') {value value' : Value}
  (hvalue : R value value') (hfresh : start ≤ supply.nextFunction)

include halike hvalue hfresh

/-- A short circuit goes the same way on both values. -/
theorem agrees_shortCircuit (hscalar : ∀ {value : Value}, value.isScalar = true → R value value)
    {op : BinaryOp} {second second' : Outcome stack Value}
    (hsecond : second.Agrees R start second') :
    (match value.test op.symbol with
      | .error error => .done stack supply (.error error)
      | .ok b =>
        match op.settled? b with
        | some result => .done stack supply (.ok result)
        | none => second.bind fun value stack _ supply =>
          .done stack supply ((value.test op.symbol).map .bool) : Outcome stack Value).Agrees
      R start
      (match value'.test op.symbol with
      | .error error => .done stack supply (.error error)
      | .ok b =>
        match op.settled? b with
        | some result => .done stack supply (.ok result)
        | none => second'.bind fun value stack _ supply =>
          .done stack supply ((value.test op.symbol).map .bool)) := by
  rw [← (halike hvalue).test_eq op.symbol]
  split
  · exact agrees_done hfresh .error
  · split
    · -- what a short circuit settles on is a scalar, and corresponds to itself
      rename_i settled hsettled
      rw [BinaryOp.settled?_eq_some hsettled]
      exact agrees_done hfresh (.ok (hscalar rfl))
    · refine hsecond.bind fun b b' _ _ supply _ _ hb hfresh => agrees_done hfresh ?_
      rw [← (halike hb).test_eq op.symbol]
      refine .of_eq fun result hresult => ?_
      obtain ⟨b, _, rfl⟩ := Value.exists_of_map_test hresult
      exact hscalar rfl

/-- A conditional goes the same way on both values. -/
theorem agrees_conditional {yes yes' no no' : Outcome stack Value}
    (hyes : yes.Agrees R start yes') (hno : no.Agrees R start no') :
    (match value.test "condition" with
      | .error error => .done stack supply (.error error)
      | .ok true => yes
      | .ok false => no : Outcome stack Value).Agrees R start
      (match value'.test "condition" with
      | .error error => .done stack supply (.error error)
      | .ok true => yes'
      | .ok false => no') := by
  rw [← (halike hvalue).test_eq "condition"]
  split
  · exact agrees_done hfresh .error
  · exact hyes
  · exact hno

end

end Outcome

/-! ### Runs -/

section

variable {hosts : Hosts} {ρ : Nat → Nat → Prop} {start room : Nat}

/-- Calls of corresponding functions that find at most `room` on the stack agree. -/
def CallsAgree (hosts : Hosts) (ρ : Nat → Nat → Prop) (start room : Nat) : Prop :=
  ∀ {id id' : Nat} {callable callable' : Callable Value} {args args' : List Value}
    {stack : CallStack} {supply : Supply},
    stack.room ≤ room → start ≤ supply.nextFunction →
    Value.Corresponds ρ (.function id callable) (.function id' callable') →
    Value.AllOf Value.Fits callable.parts → Value.AllOf Value.Fits callable'.parts →
    List.Forall₂ (Value.Corresponds ρ) args args' →
    Value.AllOf Value.Fits args → Value.AllOf Value.Fits args' →
    (call hosts callable args stack supply).Agrees (Value.Corresponds ρ) start
      (call hosts callable' args' stack supply)

/-- Constructor calls on corresponding arguments make one object twice. -/
theorem agrees_instantiate {cls : ClassDef} {values values' : List Value} {stack : CallStack}
    {supply : Supply} (hfresh : start ≤ supply.nextFunction)
    (h : List.Forall₂ (Value.Corresponds ρ) values values') :
    (Outcome.done stack (cls.instantiate values supply).2 (cls.instantiate values supply).1).Agrees
      (Value.Corresponds ρ) start
      (.done stack (cls.instantiate values' supply).2 (cls.instantiate values' supply).1) := by
  rw [ClassOver.instantiate, ClassOver.instantiate,
    checkArguments_eq (h.imp fun _ _ => Value.Corresponds.alike)]
  split
  · exact Outcome.agrees_done hfresh .error
  · exact Outcome.agrees_done hfresh (.ok (.object h))

/-- A function of the host that is called on corresponding arguments does the same. -/
theorem agrees_host (hrespects : hosts.Respects ρ start) {host : HostFunction Value}
    {args args' : List Value} {stack : CallStack} {supply : Supply}
    (hfresh : start ≤ supply.nextFunction)
    (hargs : List.Forall₂ (Value.Corresponds ρ) args args')
    (hcaptured : Value.AllOf Value.Fits host.captured)
    (hargsSound : Value.AllOf Value.Fits args) (hargsSound' : Value.AllOf Value.Fits args') :
    (Outcome.done stack (hosts host args supply).2 (hosts host args supply).1).Agrees
      (Value.Corresponds ρ) start
      (.done stack (hosts host args' supply).2 (hosts host args' supply).1) := by
  obtain ⟨hresult, hsupply, hafter⟩ :=
    hrespects host args args' supply hfresh hargs hcaptured hargsSound hargsSound'
  exact ⟨hresult, rfl, hsupply, hafter⟩

/-- Only functions can be called, and corresponding values are called alike. -/
theorem agrees_callValue (calls : CallsAgree hosts ρ start room) {target target' : Value}
    {args args' : List Value} {stack : CallStack} {supply : Supply} (hroom : stack.room ≤ room)
    (hfresh : start ≤ supply.nextFunction) (htarget : Value.Corresponds ρ target target')
    (hsound : target.Sound) (hsound' : target'.Sound)
    (hargs : List.Forall₂ (Value.Corresponds ρ) args args')
    (hargsSound : Value.AllOf Value.Fits args) (hargsSound' : Value.AllOf Value.Fits args') :
    (callValue hosts target args stack supply).Agrees (Value.Corresponds ρ) start
      (callValue hosts target' args' stack supply) := by
  have hcall : ∀ {id id' : Nat} {callable callable' : Callable Value},
      target = .function id callable → target' = .function id' callable' →
      (callValue hosts target args stack supply).Agrees (Value.Corresponds ρ) start
        (callValue hosts target' args' stack supply) := by
    rintro id id' callable callable' rfl rfl
    exact calls hroom hfresh htarget (fun part hpart => hsound.part hpart)
      (fun part hpart => hsound'.part hpart) hargs hargsSound hargsSound'
  -- of corresponding values both are functions, or neither is
  cases htarget with
  | scalar hscalar =>
    cases target with
    | object | function => cases hscalar
    | _ => exact Outcome.agrees_done hfresh .error
  | object _ => exact Outcome.agrees_done hfresh .error
  | native _ => exact hcall rfl rfl
  | closure => exact hcall rfl rfl

variable {val val' : Valuation}

/-- Two runs of a tree agree on a stack with at most `room` left, where what the tree reads
    corresponds and so do the constants that it uses. -/
def Expr.RunsAgree (hosts : Hosts) (ρ : Nat → Nat → Prop) (start room : Nat)
    (val val' : Valuation) (expr : Expr Value) : Prop :=
  ∀ {run run' : Run Value} {stack : CallStack} {supply : Supply},
    Runs hosts run expr val → Runs hosts run' expr val' →
    (∀ param ∈ expr.reads, Option.Rel (Value.Corresponds ρ) (val param) (val' param)) →
    (∀ c ∈ expr.uses, Value.Corresponds ρ c c) → stack.room ≤ room →
    start ≤ supply.nextFunction →
    (run stack supply).Agrees (Value.Corresponds ρ) start (run' stack supply)

/-- Runs of several trees agree when runs of each of them do. -/
theorem RunsAll.agree {exprs : List (Expr Value)}
    (ih : ∀ expr ∈ exprs, expr.RunsAgree hosts ρ start room val val')
    {runs runs' : Run (List Value)} {stack : CallStack} {supply : Supply}
    (h : RunsAll hosts val runs exprs) (h' : RunsAll hosts val' runs' exprs)
    (hreads : ∀ param ∈ Expr.readsOfAll exprs,
      Option.Rel (Value.Corresponds ρ) (val param) (val' param))
    (huses : ∀ c ∈ Expr.usesOfAll exprs, Value.Corresponds ρ c c)
    (hroom : stack.room ≤ room) (hfresh : start ≤ supply.nextFunction) :
    (runs stack supply).Agrees (List.Forall₂ (Value.Corresponds ρ)) start (runs' stack supply) := by
  induction exprs generalizing runs runs' stack supply with
  | nil =>
    cases h
    cases h'
    exact Outcome.agrees_done hfresh (.ok .nil)
  | cons expr rest ihrest =>
    rw [List.forall_mem_cons] at ih
    cases h with
    | cons hhead hrest =>
      cases h' with
      | cons hhead' hrest' =>
        rw [Expr.readsOfAll, List.forall_mem_append] at hreads
        rw [Expr.usesOfAll, List.forall_mem_append] at huses
        refine (ih.1 hhead hhead' hreads.1 huses.1 hroom hfresh).bind
          fun value value' after hafter supply _ _ hvalue hfresh => ?_
        refine (ihrest ih.2 hrest hrest' hreads.2 huses.2 (Nat.le_trans hafter hroom) hfresh).bind
          fun values values' _ _ supply _ _ hvalues hfresh => ?_
        exact Outcome.agrees_done hfresh (.ok (.cons hvalue hvalues))

/-- Inside a call, the parameters stand for corresponding values if the arguments
    and what the functions know from outside correspond. -/
theorem Valuation.rel_bind {lambda : Lambda Value} {args args' : List Value}
    (hargs : List.Forall₂ (Value.Corresponds ρ) args args')
    (hreads : ∀ param ∈ lambda.reads, Option.Rel (Value.Corresponds ρ) (val param) (val' param)) :
    ∀ param ∈ lambda.body.reads, Option.Rel (Value.Corresponds ρ)
      (val.bind lambda.params args param) (val'.bind lambda.params args' param) := by
  intro param hparam
  unfold Valuation.bind
  split
  · exact forall₂_getElem? hargs _
  · rename_i hnone
    exact hreads param (Lambda.mem_reads.2 ⟨hparam, lastIndexOf?_eq_none.1 hnone⟩)

/-! ### One lemma for each kind of node -/

variable {target test yes no left right : Expr Value} {args : List (Expr Value)}

/-- A parameter gives values that correspond, or is unknown to both runs. -/
theorem runsAgree_parameter (param : Parameter) :
    (Expr.parameter param).RunsAgree hosts ρ start room val val' := by
  intro run run' stack supply h h' hreads _ _ hfresh
  rw [h.parameter, h'.parameter]
  refine Outcome.agrees_done hfresh ?_
  have hparam := hreads param (by simp [Expr.reads])
  unfold Valuation.resolve
  generalize val param = value at hparam ⊢
  generalize val' param = value' at hparam ⊢
  cases hparam with
  | none => exact .error
  | some hvalue => exact .ok hvalue

/-- A unary operator gives one scalar in both runs. -/
theorem runsAgree_unary (op : UnaryOp) {operand : Expr Value}
    (hoperand : operand.RunsAgree hosts ρ start room val val') :
    (Expr.unary op operand).RunsAgree hosts ρ start room val val' := by
  intro run run' stack supply h h' hreads huses hroom hfresh
  obtain ⟨inner, hinner, rfl⟩ := h.unary
  obtain ⟨inner', hinner', rfl⟩ := h'.unary
  refine (hoperand hinner hinner' hreads huses hroom hfresh).bind
    fun value value' _ _ supply _ _ hvalue hfresh => Outcome.agrees_done hfresh ?_
  rw [← hvalue.alike.unary_eq op]
  exact .of_eq fun result hresult => .scalar (UnaryOp.apply_eq_ok hresult).2

/-- A binary operator that was not folded gives one scalar in both runs. -/
theorem runsAgree_operator (hmatching : Matching ρ start) {op : BinaryOp}
    (hop : op.isShortCircuit = false)
    (hknown : (Expr.binary op left right).known? true = none)
    (hleft : left.RunsAgree hosts ρ start room val val')
    (hright : right.RunsAgree hosts ρ start room val val') :
    (Expr.binary op left right).RunsAgree hosts ρ start room val val' := by
  intro run run' stack supply h h' hreads huses hroom hfresh
  rw [Expr.reads, List.forall_mem_append] at hreads
  rw [Expr.uses_binary, hknown, if_neg (by simp), List.forall_mem_append] at huses
  obtain ⟨first, second, hfirst, hsecond, rfl⟩ := h.binary hop
  obtain ⟨first', second', hfirst', hsecond', rfl⟩ := h'.binary hop
  refine Outcome.agrees_pair (fun ha hb => ?_) (hleft hfirst hfirst' hreads.1 huses.1 hroom hfresh)
    fun after _ hafter hfresh =>
      hright hsecond hsecond' hreads.2 huses.2 (Nat.le_trans hafter hroom) hfresh
  rw [← Value.Corresponds.binary_eq hmatching ha hb op]
  exact .of_eq fun result hresult => .scalar (BinaryOp.isScalar_of_apply hresult)

/-- A short circuit that was not folded is settled in both runs or in neither. -/
theorem runsAgree_shortCircuit {op : BinaryOp} (hop : op.isShortCircuit = true)
    (hknown : (Expr.binary op left right).known? true = none)
    (hleft : left.RunsAgree hosts ρ start room val val')
    (hright : right.RunsAgree hosts ρ start room val val') :
    (Expr.binary op left right).RunsAgree hosts ρ start room val val' := by
  intro run run' stack supply h h' hreads huses hroom hfresh
  rw [Expr.reads, List.forall_mem_append] at hreads
  rw [Expr.uses_binary, hknown, if_neg (by simp), List.forall_mem_append] at huses
  obtain ⟨_, hsome, _⟩ | ⟨first, second, hfirst, hsecond, rfl⟩ := h.shortCircuit hop
  · rw [hknown] at hsome
    cases hsome
  obtain ⟨_, hsome, _⟩ | ⟨first', second', hfirst', hsecond', rfl⟩ := h'.shortCircuit hop
  · rw [hknown] at hsome
    cases hsome
  refine (hleft hfirst hfirst' hreads.1 huses.1 hroom hfresh).bind
    fun a a' after hafter supply _ _ ha hfresh => ?_
  exact Outcome.agrees_shortCircuit Value.Corresponds.alike ha hfresh .scalar
    (hright hsecond hsecond' hreads.2 huses.2 (Nat.le_trans hafter hroom) hfresh)

/-- Both runs of a binary operator give what folding found, or have its operands done. -/
theorem runsAgree_binary (hmatching : Matching ρ start) (op : BinaryOp)
    (hleft : left.RunsAgree hosts ρ start room val val')
    (hright : right.RunsAgree hosts ρ start room val val') :
    (Expr.binary op left right).RunsAgree hosts ρ start room val val' := by
  cases hknown : (Expr.binary op left right).known? true with
  | some value =>
    intro run run' stack supply h h' _ _ _ hfresh
    rw [h.of_known? hknown, h'.of_known? hknown]
    exact Outcome.agrees_done hfresh
      (.ok (.scalar (Value.isScalar_of_isPrimitive (Expr.isPrimitive_of_known? hknown))))
  | none =>
    cases hop : op.isShortCircuit with
    | false => exact runsAgree_operator hmatching hop hknown hleft hright
    | true => exact runsAgree_shortCircuit hop hknown hleft hright

/-- Both runs of a conditional take the same branch.  Where the test is known only that
    branch has to agree, since code may have been emitted for no other. -/
theorem runsAgree_conditional (htest : test.RunsAgree hosts ρ start room val val')
    (hyes : yes.RunsAgree hosts ρ start room val val')
    (hno : no.RunsAgree hosts ρ start room val val') :
    (Expr.conditional test yes no).RunsAgree hosts ρ start room val val' := by
  intro run run' stack supply h h' hreads huses hroom hfresh
  rw [Expr.reads, List.forall_mem_append, List.forall_mem_append] at hreads
  cases hfolded : foldTest? (test.known? true) with
  | some taken =>
    have hknown := Expr.foldTest?_eq_some.1 hfolded
    rw [Expr.uses_of_taken hknown] at huses
    have h := h.taken hknown
    have h' := h'.taken hknown
    cases taken with
    | true => exact hyes h h' hreads.1.2 huses hroom hfresh
    | false => exact hno h h' hreads.2 huses hroom hfresh
  | none =>
    have hopen : ∀ taken, test.known? true ≠ some (.bool taken) := fun taken htaken => by
      rw [Expr.foldTest?_eq_some.2 htaken] at hfolded
      cases hfolded
    rw [Expr.uses_conditional, hfolded, List.forall_mem_append, List.forall_mem_append] at huses
    obtain ⟨taken, htaken, _⟩ | ⟨first, second, third, hfirst, hsecond, hthird, rfl⟩ :=
      h.conditional
    · exact absurd htaken (hopen taken)
    obtain ⟨taken, htaken, _⟩ | ⟨first', second', third', hfirst', hsecond', hthird', rfl⟩ :=
      h'.conditional
    · exact absurd htaken (hopen taken)
    refine (htest hfirst hfirst' hreads.1.1 huses.1.1 hroom hfresh).bind
      fun a a' after hafter supply _ _ ha hfresh => ?_
    exact Outcome.agrees_conditional Value.Corresponds.alike ha hfresh
      (hyes hsecond hsecond' hreads.1.2 huses.1.2 (Nat.le_trans hafter hroom) hfresh)
      (hno hthird hthird' hreads.2 huses.2 (Nat.le_trans hafter hroom) hfresh)

/-- Both runs make a closure of the lambda, each with what it knows. -/
theorem runsAgree_lambda (hmatching : Matching ρ start) (params : List Parameter)
    (body : Expr Value) :
    (Expr.lambda params body).RunsAgree hosts ρ start room val val' := by
  intro run run' stack supply h h' hreads huses _ hfresh
  obtain ⟨callable, known, hdenotes, _, hknown, rfl⟩ := h.lambda
  obtain ⟨callable', known', hdenotes', _, hknown', rfl⟩ := h'.lambda
  refine Outcome.agrees_done (Nat.le_succ_of_le hfresh) (.ok ?_)
  refine .closure (hmatching.fresh hfresh) hdenotes hdenotes' huses fun param hparam => ?_
  rw [hknown param hparam, hknown' param hparam]
  exact hreads param hparam

/-- Both runs call corresponding values on corresponding arguments. -/
theorem runsAgree_invoke (hhosts : hosts.Sound) (calls : CallsAgree hosts ρ start room)
    (htarget : target.RunsAgree hosts ρ start room val val')
    (hargs : ∀ arg ∈ args, arg.RunsAgree hosts ρ start room val val') :
    (Expr.invoke target args).RunsAgree hosts ρ start room val val' := by
  intro run run' stack supply h h' hreads huses hroom hfresh
  rw [Expr.reads, List.forall_mem_append] at hreads
  rw [Expr.uses, List.forall_mem_append] at huses
  obtain ⟨first, others, hfirst, hothers, rfl⟩ := h.invoke
  obtain ⟨first', others', hfirst', hothers', rfl⟩ := h'.invoke
  refine (htarget hfirst hfirst' hreads.1 huses.1 hroom hfresh).bind
    fun target target' after hafter supply hresult hresult' hcalled hfresh => ?_
  refine (RunsAll.agree hargs hothers hothers' hreads.2 huses.2 (Nat.le_trans hafter hroom)
    hfresh).bind fun values values' last hlast supply hvalues hvalues' hpassed hfresh => ?_
  exact agrees_callValue calls (Nat.le_trans hlast (Nat.le_trans hafter hroom)) hfresh hcalled
    (hfirst.sound hhosts hresult) (hfirst'.sound hhosts hresult') hpassed
    (hothers.sound hhosts hvalues) (hothers'.sound hhosts hvalues')

/-! ### All runs -/

variable (hhosts : hosts.Sound) (hrespects : hosts.Respects ρ start)
  (hmatching : Matching ρ start)

include hhosts hrespects hmatching

/-- **Two runs of one tree agree**, if calls do that leave no more room. -/
theorem Expr.runsAgree (calls : CallsAgree hosts ρ start room) (expr : Expr Value) :
    expr.RunsAgree hosts ρ start room val val' := by
  induction expr with
  | constant value =>
    intro run run' stack supply h h' _ huses _ hfresh
    rw [h.constant, h'.constant]
    exact Outcome.agrees_done hfresh (.ok (huses value (by simp [Expr.uses])))
  | parameter param => exact runsAgree_parameter param
  | new cls args ih =>
    intro run run' stack supply h h' hreads huses hroom hfresh
    obtain ⟨runs, hruns, rfl⟩ := h.new hhosts
    obtain ⟨runs', hruns', rfl⟩ := h'.new hhosts
    exact (RunsAll.agree ih hruns hruns' hreads huses hroom hfresh).bind
      fun values values' _ _ supply _ _ hvalues hfresh => agrees_instantiate hfresh hvalues
  | field target name ih =>
    intro run run' stack supply h h' hreads huses hroom hfresh
    obtain ⟨operand, hoperand, rfl⟩ := h.field hhosts
    obtain ⟨operand', hoperand', rfl⟩ := h'.field hhosts
    exact (ih hoperand hoperand' hreads huses hroom hfresh).bind
      fun value value' _ _ supply _ _ hvalue hfresh =>
        Outcome.agrees_done hfresh (hvalue.field_rel name)
  | unary op operand ih => exact runsAgree_unary op ih
  | binary op left right ihl ihr => exact runsAgree_binary hmatching op ihl ihr
  | conditional test yes no iht ihy ihn => exact runsAgree_conditional iht ihy ihn
  | lambda params body _ => exact runsAgree_lambda hmatching params body
  | invoke target args iht _ ih => exact runsAgree_invoke hhosts calls iht ih
  | extension node operands reduction ih _ =>
    intro run run' stack supply h h' hreads huses hroom hfresh
    obtain ⟨hcaptured, runs, hruns, rfl⟩ := h.extension
    obtain ⟨_, runs', hruns', rfl⟩ := h'.extension
    exact (RunsAll.agree ih hruns hruns' hreads huses hroom hfresh).bind
      fun values values' _ _ supply hvalues hvalues' hargs hfresh =>
        agrees_host hrespects hfresh hargs hcaptured (hruns.sound hhosts hvalues)
          (hruns'.sound hhosts hvalues')

/-- Calls agree, as long as deeper calls do. -/
theorem calls_agree (deeper : ∀ room' < room, CallsAgree hosts ρ start room') :
    CallsAgree hosts ρ start room := by
  intro id id' callable callable' args args' stack supply hroom hfresh hcorresponds hparts hparts'
    hargs hargsSound hargsSound'
  cases hcorresponds with
  | scalar hscalar => cases hscalar
  | native _ =>
    rw [call, call, hargs.length_eq]
    split
    · exact Outcome.agrees_done hfresh .error
    · exact Outcome.agrees_during hfresh fun inner _ =>
        agrees_host hrespects hfresh hargs hparts hargsSound hargsSound'
  | closure _ hdenotes hdenotes' huses hreads =>
    obtain ⟨run, hrun, hcall⟩ := hdenotes.call hosts hparts hargsSound
    obtain ⟨run', hrun', hcall'⟩ := hdenotes'.call hosts hparts' hargsSound'
    -- the arguments are alike, so both calls refuse them or neither does
    have hcheck := checkParameters_eq (hargs.imp fun _ _ => Value.Corresponds.alike)
    rw [hcall, hcall', ← hcheck]
    split
    · exact Outcome.agrees_done hfresh .error
    · rename_i hok
      refine Outcome.agrees_during hfresh fun inner hinner => ?_
      have calls : CallsAgree hosts ρ start inner.room :=
        deeper inner.room (Nat.lt_of_lt_of_le hinner hroom)
      exact Expr.runsAgree hhosts hrespects hmatching calls _ (hrun hok) (hrun' (hcheck _ ▸ hok))
        (Valuation.rel_bind hargs hreads) huses (Nat.le_refl _) hfresh

/-- **Every two calls of corresponding functions agree**, however deep the calls in
    them are nested. -/
theorem callsAgree (room : Nat) : CallsAgree hosts ρ start room := by
  induction room using Nat.strongRecOn with
  | ind room ih => exact calls_agree hhosts hrespects hmatching ih

end

end ExprTree

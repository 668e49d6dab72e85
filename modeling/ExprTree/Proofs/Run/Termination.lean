import ExprTree.Function
import ExprTree.Proofs.Code.Basic
import ExprTree.Proofs.Run.Machine

namespace ExprTree

/-!
# Every call ends

`Machine.step` may be repeated without end.  For the tasks of an evaluation it never
is: the machine halts, with the outcome that `call` gives
(`CompiledFn.invoke_terminates`).  On the way every job is inside the one that started
it, where it has less room on the call stack or a smaller node.

`Job.Gives` says that a job ends with the outcome of a run, and `Resumption.Gives` that
the rest of a job does.  The rules for the rest of a job follow `Move.after`; from
these comes the outcome of a body where all calls end (`gives_tree`, `gives_code`), and
from bodies with less room that of a call (`gives_call`).
-/

/-! ### Outcomes in sequence -/

namespace Outcome

variable {α β γ : Type} {stack : CallStack}

/-- What comes last may be put behind the second outcome or behind both. -/
theorem bind_bind {outcome : Outcome stack α}
    {next : α → (after : CallStack) → after.room ≤ stack.room → Supply → Outcome after β}
    {last : β → (after : CallStack) → Supply → Outcome after γ} :
    (outcome.bind next).bind (fun b after _ supply => last b after supply)
      = outcome.bind fun a after hroom supply =>
        (next a after hroom supply).bind fun b after _ supply => last b after supply := by
  obtain ⟨result, after, supply, hroom⟩ := outcome
  cases result with
  | error error => rfl
  | ok a =>
    rcases hsecond : next a after hroom supply with ⟨result, later, supply', hroom'⟩
    cases result <;> simp only [bind, hsecond]

theorem bind_ok {outcome : Outcome stack α} :
    outcome.bind (fun a after _ supply => done after supply (.ok a)) = outcome := by
  obtain ⟨result, after, supply, hroom⟩ := outcome
  cases result <;> rfl

end Outcome

/-! ### Jobs -/

variable {hosts : Hosts} {task : Task} {stack : CallStack}

/-- A job that has come to these values ends with the outcome of a run, on the stack
    that it was started on. -/
def Task.Gives (hosts : Hosts) (task : Task) (values : List Value) (stack : CallStack)
    (run : Run Value) : Prop :=
  ∀ jobs supply,
    Machine.Reaches hosts ⟨none, ⟨task, values, stack⟩ :: jobs, stack, supply⟩
        ⟨some (run stack supply).result, jobs, stack, (run stack supply).supply⟩
      ∧ (run stack supply).stack = stack

/-- A job that finishes ends after one step. -/
theorem Task.gives_of_finish {values : List Value} {result : Supply → Except RuntimeError Value}
    {later : Supply → Supply} {run : Run Value}
    (hnext : ∀ supply, task.next hosts supply values = .finish (result supply) (later supply))
    (hrun : ∀ supply, run stack supply = .done stack (later supply) (result supply)) :
    task.Gives hosts values stack run := by
  intro jobs supply
  rw [hrun supply]
  refine ⟨Relation.ReflTransGen.single ?_, rfl⟩
  simp only [Machine.step, hnext, Outcome.done]

/-- What a task still does, as a function of the values to come. -/
abbrev Resumption := Supply → List Value → Move

namespace Resumption

/-- A task that has this before it ends with the outcome of a run. -/
def Gives (hosts : Hosts) (task : Task) (stack : CallStack) (resumption : Resumption)
    (run : Run Value) : Prop :=
  ∀ values, (∀ supply more, task.next hosts supply (values ++ more) = resumption supply more) →
    task.Gives hosts values stack run

/-- A new job has all of its task before it. -/
theorem Gives.job {resumption : Resumption} {run run' : Run Value}
    (h : Gives hosts task stack resumption run)
    (hnext : ∀ supply values, task.next hosts supply values = resumption supply values)
    (hrun : ∀ supply, run' stack supply = run stack supply) :
    task.Gives hosts [] stack run' := by
  intro jobs supply
  rw [hrun supply]
  exact h [] hnext jobs supply

/-! ### Rules -/

/-- A job that is done gives its result. -/
theorem gives_finish {result : Supply → Except RuntimeError Value} {later : Supply → Supply} :
    Gives hosts task stack (fun supply _ => .finish (result supply) (later supply))
      fun stack supply => .done stack (later supply) (result supply) := by
  intro values hnext
  refine Task.gives_of_finish (fun supply => ?_) fun _ => rfl
  have hmove := hnext supply []
  rwa [List.append_nil] at hmove

/-- A task that starts another one ends with its error, or goes on with its value. -/
theorem gives_after (hcall : task.isCall = false) {sub : Task} {first : Run Value}
    (hsub : sub.Gives hosts [] stack first) {next : Supply → Value → List Value → Move}
    {run : Value → Run Value}
    (hnext : ∀ value, Gives hosts task stack (fun supply => next supply value) (run value)) :
    Gives hosts task stack (fun supply => .after sub (next supply)) fun stack supply =>
      (first stack supply).bind fun value stack _ supply => run value stack supply := by
  intro values hresume jobs supply
  have hmove := hresume supply []
  rw [List.append_nil] at hmove
  have hstart : (Machine.mk none (⟨task, values, stack⟩ :: jobs) stack supply).step hosts
      = some ⟨none, ⟨sub, [], stack⟩ :: ⟨task, values, stack⟩ :: jobs, stack, supply⟩ := by
    simp only [Machine.step, hmove, Move.after]
  -- The job waits, with its values, until the one inside it is done.
  obtain ⟨hreaches, hstack⟩ := hsub (⟨task, values, stack⟩ :: jobs) supply
  have hreaches := Machine.Reaches.head hstart hreaches
  beta_reduce
  generalize first stack supply = outcome at hreaches hstack ⊢
  obtain ⟨result, after, supply', hroom⟩ := outcome
  have hstack : after = stack := hstack
  subst hstack
  cases result with
  | error error =>
    refine ⟨hreaches.tail ?_, rfl⟩
    simp [Machine.step, hcall, Outcome.bind]
  | ok value =>
    have hvalues : ∀ supply more,
        task.next hosts supply (values ++ [value] ++ more) = next supply value more :=
      fun supply more => by
        rw [List.append_assoc]
        exact hresume supply (value :: more)
    obtain ⟨hrest, hstack⟩ := hnext value (values ++ [value]) hvalues jobs supply'
    refine ⟨Relation.ReflTransGen.trans (hreaches.tail ?_) hrest, hstack⟩
    simp [Machine.step, hcall]

/-- A job that hands over gives what the other task gives. -/
theorem gives_pass (hcall : task.isCall = false) {sub : Task} {run : Run Value}
    (hsub : sub.Gives hosts [] stack run) :
    Gives hosts task stack (fun supply => .pass sub supply) run := by
  have hfinish : ∀ value, Gives hosts task stack (fun supply _ => .finish (.ok value) supply)
      fun stack supply => .done stack supply (.ok value) := fun _ => gives_finish
  have h := gives_after hcall hsub hfinish
  simp only [Outcome.bind_ok] at h
  exact h

end Resumption

/-- Tasks end one after the other with the outcome of a run of all of them. -/
inductive Task.GivesAll (hosts : Hosts) (stack : CallStack) :
    List Task → Run (List Value) → Prop
  | nil : GivesAll hosts stack [] fun stack supply => .done stack supply (.ok [])
  | cons {sub : Task} {subs : List Task} {first : Run Value} {others : Run (List Value)} :
      sub.Gives hosts [] stack first → GivesAll hosts stack subs others →
      GivesAll hosts stack (sub :: subs) fun stack supply =>
        (first stack supply).bind fun value stack _ supply =>
          (others stack supply).bind fun values stack _ supply =>
            .done stack supply (.ok (value :: values))

namespace Resumption

/-- A job that has several tasks done first goes on with all their values. -/
theorem gives_afterAll (hcall : task.isCall = false) {subs : List Task} {runs : Run (List Value)}
    (hsubs : Task.GivesAll hosts stack subs runs)
    {next : Supply → List Value → List Value → Move} {run : List Value → Run Value}
    (hnext : ∀ values, Gives hosts task stack (fun supply => next supply values) (run values)) :
    Gives hosts task stack (fun supply => .afterAll subs (next supply)) fun stack supply =>
      (runs stack supply).bind fun values stack _ supply => run values stack supply := by
  induction hsubs generalizing next run with
  | nil => exact hnext []
  | cons hsub _ ih =>
    have h := gives_after hcall hsub fun value => ih fun values => hnext (value :: values)
    simp only [Outcome.bind_bind, Outcome.done_bind]
    exact h

/-- Two operands, one after the other. -/
theorem gives_pair (hcall : task.isCall = false) {left right : Task} {first second : Run Value}
    (hleft : left.Gives hosts [] stack first) (hright : right.Gives hosts [] stack second)
    (apply : Value → Value → Except RuntimeError Value) :
    Gives hosts task stack
      (fun supply => .after left fun a => .after right fun b _ => .finish (apply a b) supply)
      fun stack supply =>
        (first stack supply).bind fun a stack _ supply =>
          (second stack supply).bind fun b stack _ supply =>
            .done stack supply (apply a b) :=
  gives_after hcall hleft fun _ => gives_after hcall hright fun _ => gives_finish

/-- A short circuit gives what its operands do. -/
theorem gives_shortCircuit (hcall : task.isCall = false) (op : BinaryOp) {left right : Task}
    {first second : Run Value} (hleft : left.Gives hosts [] stack first)
    (hright : right.Gives hosts [] stack second) :
    Gives hosts task stack (fun supply => .shortCircuit op left right supply) fun stack supply =>
      (first stack supply).bind fun value stack _ supply =>
        match value.test op.symbol with
        | .error error => .done stack supply (.error error)
        | .ok b =>
          match op.settled? b with
          | some result => .done stack supply (.ok result)
          | none =>
            (second stack supply).bind fun value stack _ supply =>
              .done stack supply ((value.test op.symbol).map .bool) := by
  refine gives_after hcall hleft fun value => ?_
  cases htest : value.test op.symbol with
  | error error => exact gives_finish
  | ok b =>
    dsimp only
    cases hsettled : op.settled? b with
    | some result => exact gives_finish
    | none => exact gives_after hcall hright fun value => gives_finish

/-- A conditional gives what its test and its branches do. -/
theorem gives_conditional (hcall : task.isCall = false) {test yes no : Task}
    {first second third : Run Value} (htest : test.Gives hosts [] stack first)
    (hyes : yes.Gives hosts [] stack second) (hno : no.Gives hosts [] stack third) :
    Gives hosts task stack (fun supply => .conditional test yes no supply) fun stack supply =>
      (first stack supply).bind fun value stack _ supply =>
        match value.test "condition" with
        | .error error => .done stack supply (.error error)
        | .ok true => second stack supply
        | .ok false => third stack supply := by
  refine gives_after hcall htest fun value => ?_
  rcases htest : value.test "condition" with error | ⟨_ | _⟩
  · exact gives_finish
  · exact gives_pass hcall hno
  · exact gives_pass hcall hyes

/-- An invocation gives what the call does, after the target and the arguments. -/
theorem gives_invocation (hcall : task.isCall = false)
    (hcalls : ∀ callable args, (Task.call callable args).Gives hosts [] stack
      fun stack supply => call hosts callable args stack supply)
    {target : Task} {args : List Task} {first : Run Value} {others : Run (List Value)}
    (htarget : target.Gives hosts [] stack first) (hargs : Task.GivesAll hosts stack args others) :
    Gives hosts task stack (fun supply => .invocation target args supply) fun stack supply =>
      (first stack supply).bind fun target stack _ supply =>
        (others stack supply).bind fun values stack _ supply =>
          match target with
          | .function _ callable => call hosts callable values stack supply
          | other => .done stack supply (.error (.notCallable other.typeName)) := by
  refine gives_after hcall htarget fun target => gives_afterAll hcall hargs fun values => ?_
  cases target with
  | function id callable => exact gives_pass hcall (hcalls callable values)
  | _ => exact gives_finish

end Resumption

/-! ### Bodies -/

/-- Trees are walked one after the other. -/
theorem givesAll_tree {exprs : List (Expr Value)} {env : Env Value}
    (h : ∀ expr ∈ exprs, (Task.tree expr env).Gives hosts [] stack
      fun stack supply => eval hosts expr env stack supply) :
    Task.GivesAll hosts stack (exprs.map (.tree · env))
      fun stack supply => evalAll hosts exprs env stack supply := by
  induction exprs with
  | nil =>
    simp only [evalAll]
    exact .nil
  | cons expr rest ih =>
    rw [List.forall_mem_cons] at h
    simp only [evalAll]
    exact .cons h.1 (ih h.2)

/-- Pieces of code run one after the other. -/
theorem givesAll_code {codes : List (Code Value)} {activation : Activation}
    (h : ∀ code ∈ codes, (Task.code code activation).Gives hosts [] stack
      fun stack supply => exec hosts code activation stack supply) :
    Task.GivesAll hosts stack (codes.map (.code · activation))
      fun stack supply => execAll hosts codes activation stack supply := by
  induction codes with
  | nil =>
    simp only [execAll]
    exact .nil
  | cons code rest ih =>
    rw [List.forall_mem_cons] at h
    simp only [execAll]
    exact .cons h.1 (ih h.2)

open Resumption

/-- Where the calls on a stack end, so does the walk of a tree. -/
theorem gives_tree (hcalls : ∀ callable args, (Task.call callable args).Gives hosts [] stack
      fun stack supply => call hosts callable args stack supply)
    (expr : Expr Value) (env : Env Value) :
    (Task.tree expr env).Gives hosts [] stack
      fun stack supply => eval hosts expr env stack supply := by
  induction expr with
  | constant | parameter | lambda =>
    exact gives_finish.job (fun _ _ => rfl) fun _ => by rw [eval]
  | new cls args ih =>
    exact (gives_afterAll rfl (givesAll_tree ih) fun _ => gives_finish).job
      (fun _ _ => rfl) fun _ => by rw [eval]
  | field target name ih =>
    exact (gives_after rfl ih fun _ => gives_finish).job (fun _ _ => rfl) fun _ => by rw [eval]
  | unary op operand ih =>
    exact (gives_after rfl ih fun _ => gives_finish).job (fun _ _ => rfl) fun _ => by rw [eval]
  | binary op left right ihl ihr =>
    cases hop : op.isShortCircuit with
    | true =>
      -- a binary operator is a short circuit or has both operands done
      refine (gives_shortCircuit rfl op ihl ihr).job (fun _ _ => ?_) fun _ => ?_
      · rw [Task.next, Expr.next, if_pos hop]
      · exact (eval.eq_def ..).trans (if_pos hop)
    | false =>
      refine (gives_pair rfl ihl ihr op.apply).job (fun _ _ => ?_) fun _ => ?_
      · rw [Task.next, Expr.next, if_neg (by simp [hop])]
      · rw [eval, if_neg (by simp [hop])]
  | conditional test yes no iht ihy ihn =>
    exact (gives_conditional rfl iht ihy ihn).job (fun _ _ => rfl) fun _ =>
      eval.eq_def ..
  | invoke target args iht _ ih =>
    exact (gives_invocation rfl hcalls iht (givesAll_tree ih)).job (fun _ _ => rfl) fun _ =>
      eval.eq_def ..
  | extension node operands reduction ih _ =>
    exact (gives_afterAll rfl (givesAll_tree ih) fun _ => gives_finish).job
      (fun _ _ => rfl) fun _ => by rw [eval]

/-- Where the calls on a stack end, so does a piece of code. -/
theorem gives_code (hcalls : ∀ callable args, (Task.call callable args).Gives hosts [] stack
      fun stack supply => call hosts callable args stack supply)
    (code : Code Value) (activation : Activation) :
    (Task.code code activation).Gives hosts [] stack
      fun stack supply => exec hosts code activation stack supply := by
  induction code with
  | literal | embedded | pooled | slot =>
    exact gives_finish.job (fun _ _ => rfl) fun _ => by rw [exec]
  | construct cls args ih =>
    exact (gives_afterAll rfl (givesAll_code ih) fun _ => gives_finish).job
      (fun _ _ => rfl) fun _ => by rw [exec]
  | instantiate cls args ih =>
    exact (gives_afterAll rfl (givesAll_code ih) fun _ => gives_finish).job
      (fun _ _ => rfl) fun _ => by rw [exec]
  | fieldAt target index name ih =>
    exact (gives_after rfl ih fun _ => gives_finish).job (fun _ _ => rfl) fun _ => by rw [exec]
  | field target name ih =>
    exact (gives_after rfl ih fun _ => gives_finish).job (fun _ _ => rfl) fun _ => by rw [exec]
  | unary op operand ih =>
    exact (gives_after rfl ih fun _ => gives_finish).job (fun _ _ => rfl) fun _ => by rw [exec]
  | shortCircuit op left right ihl ihr =>
    exact (gives_shortCircuit rfl op ihl ihr).job (fun _ _ => rfl) fun _ =>
      exec.eq_def ..
  | arithmetic op left right ihl ihr =>
    exact (gives_pair rfl ihl ihr op.direct).job (fun _ _ => rfl) fun _ => exec_direct
  | binary op left right ihl ihr =>
    exact (gives_pair rfl ihl ihr op.apply).job (fun _ _ => rfl) fun _ => by rw [exec]
  | conditional test yes no iht ihy ihn =>
    exact (gives_conditional rfl iht ihy ihn).job (fun _ _ => rfl) fun _ =>
      exec.eq_def ..
  | closure params captures body _ =>
    -- a closure is made in one step, or a capture is missing
    cases hcapture : activation.capture captures with
    | error error =>
      exact gives_finish.job (fun _ _ => by rw [Task.next, Code.next, hcapture])
        fun _ => by rw [exec, hcapture]
    | ok captured =>
      exact gives_finish.job (fun _ _ => by rw [Task.next, Code.next, hcapture])
        fun _ => by rw [exec, hcapture]
  | invoke target args iht ih =>
    exact (gives_invocation rfl hcalls iht (givesAll_code ih)).job (fun _ _ => rfl) fun _ =>
      exec.eq_def ..

/-! ### Calls -/

/-- A call that takes its arguments ends with its body, if that ends on the stack that
    the call has entered. -/
theorem gives_enter {callable : Callable Value} {args : List Value} {body : Task} {run : Run Value}
    (hbody : ∀ inner, stack.enter = .ok inner → body.Gives hosts [] inner run)
    (hnext : ∀ supply, callable.next hosts args supply [] = .enter body)
    (hcall : ∀ supply, call hosts callable args stack supply
      = stack.during supply fun inner _ => run inner supply) :
    (Task.call callable args).Gives hosts [] stack
      fun stack supply => call hosts callable args stack supply := by
  intro jobs supply
  beta_reduce
  rw [hcall]
  unfold CallStack.during
  split
  · rename_i error henter
    -- the stack is full, so the call ends without having begun
    refine ⟨Relation.ReflTransGen.single ?_, rfl⟩
    simp [Machine.step, Task.next, hnext, henter, Outcome.done]
  · rename_i inner henter
    have hstart :
        (Machine.mk none (⟨.call callable args, [], stack⟩ :: jobs) stack supply).step hosts
          = some ⟨none, ⟨body, [], inner⟩ :: ⟨.call callable args, [], stack⟩ :: jobs, inner,
            supply⟩ := by
      simp [Machine.step, Task.next, hnext, henter]
    obtain ⟨hreaches, hstack⟩ :=
      hbody inner henter (⟨.call callable args, [], stack⟩ :: jobs) supply
    have hreaches := Machine.Reaches.head hstart hreaches
    -- when the body has ended, the call takes its answer and exits the stack
    have hexit : inner.exit = stack := CallStack.exit_enter henter
    have hleave : (run inner supply).stack.exit = stack := by rw [hstack, hexit]
    refine ⟨?_, hleave⟩
    cases hresult : (run inner supply).result with
    | error error =>
      rw [hresult] at hreaches
      refine hreaches.tail ?_
      simp [Machine.step, Task.isCall, hexit]
    | ok value =>
      rw [hresult] at hreaches
      have hvalue : (Machine.mk (some (.ok value)) (⟨.call callable args, [], stack⟩ :: jobs) inner
            (run inner supply).supply).step hosts
          = some ⟨none, ⟨.call callable args, [value], stack⟩ :: jobs, stack,
            (run inner supply).supply⟩ := by
        simp [Machine.step, Task.isCall, hexit]
      refine (hreaches.tail hvalue).tail ?_
      simp [Machine.step, Task.next, Callable.next]

/-- A call of a function of the host ends at once. -/
theorem gives_native {name : String} {arity : Nat} {host : HostFunction Value} {args : List Value} :
    (Task.call (.native name arity host) args).Gives hosts [] stack
      fun stack supply => call hosts (.native name arity host) args stack supply := by
  by_cases harity : args.length = arity
  · intro jobs supply
    beta_reduce
    rw [call, if_neg (not_not.2 harity)]
    unfold CallStack.during
    split
    · rename_i error henter
      refine ⟨Relation.ReflTransGen.single ?_, rfl⟩
      simp [Machine.step, Task.next, Callable.next, harity, henter, Outcome.done]
    · rename_i inner henter
      have hexit : inner.exit = stack := CallStack.exit_enter henter
      -- a native function enters the stack and exits it in one step
      refine ⟨Relation.ReflTransGen.single ?_, hexit⟩
      simp [Machine.step, Task.next, Callable.next, harity, henter, Outcome.done, hexit]
  · exact Task.gives_of_finish (fun _ => by rw [Task.next, Callable.next, if_pos harity])
      fun _ => by rw [call, if_pos harity]

/-- **Every call ends**, with the outcome that `call` gives.  The induction is on the
    room on the stack: a body runs where its call has taken some of it. -/
theorem gives_call (callable : Callable Value) (args : List Value) (stack : CallStack) :
    (Task.call callable args).Gives hosts [] stack
      fun stack supply => call hosts callable args stack supply := by
  induction hroom : stack.room using Nat.strongRecOn generalizing callable args stack with
  | ind room ih =>
    subst hroom
    -- a body has less room than its call, so the calls in it end
    have hcalls : ∀ inner, stack.enter = .ok inner → ∀ callable args,
        (Task.call callable args).Gives hosts [] inner
          fun stack supply => call hosts callable args stack supply :=
      fun inner henter callable args =>
        ih inner.room (CallStack.room_lt_of_enter henter) callable args inner rfl
    cases callable with
    | interpreted params body env =>
      cases hcheck : checkParameters params args with
      | error error =>
        exact Task.gives_of_finish (fun _ => by rw [Task.next, Callable.next, hcheck])
          fun _ => by rw [call, hcheck]
      | ok _ =>
        exact gives_enter (fun inner henter => gives_tree (hcalls inner henter) body _)
          (fun _ => by rw [Callable.next, hcheck]) fun _ => by rw [call, hcheck]
    | compiled params body captured constants =>
      cases hcheck : checkParameters params args with
      | error error =>
        exact Task.gives_of_finish (fun _ => by rw [Task.next, Callable.next, hcheck])
          fun _ => by rw [call, hcheck]
      | ok _ =>
        exact gives_enter (fun inner henter => gives_code (hcalls inner henter) body _)
          (fun _ => by rw [Callable.next, hcheck]) fun _ => by rw [call, hcheck]
    | native name arity host => exact gives_native

/-- **Every invocation terminates.**  Whatever the function and the arguments are,
    the machine that runs the call halts, with the value or the error that `invoke`
    gives and the stack as empty as before.  At every moment until then each job is
    inside the one that started it: a body where its call has taken room from the
    stack, and anything else on the same stack at a smaller node. -/
theorem CompiledFn.invoke_terminates (hosts : Hosts) (fn : CompiledFn) (args : List Value)
    (supply : Supply) :
    (Machine.start (.call fn.callable args) (.new fn.maxCallDepth) supply).Halts hosts
        ⟨some (fn.invoke hosts args supply).1, [], .new fn.maxCallDepth,
          (fn.invoke hosts args supply).2⟩
      ∧ ∀ machine,
        (Machine.start (.call fn.callable args) (.new fn.maxCallDepth) supply).Reaches hosts
          machine →
        machine.jobs.IsChain fun inner outer =>
          inner.Inside outer ∧ inner.measure < outer.measure := by
  refine ⟨⟨(gives_call fn.callable args _ [] supply).1, rfl⟩, fun machine hreaches => ?_⟩
  exact (Machine.nested_of_reaches hreaches).isChain.imp fun _ _ h => ⟨h, h.measure_lt⟩

end ExprTree

import ExprTree.Proofs.Run.Tasks
import Mathlib.Data.List.Chain
import Mathlib.Data.Prod.Lex

namespace ExprTree

/-!
# Evaluation in single steps

A `Machine` takes the tasks of an evaluation one step at a time.  It keeps the jobs
that are running, innermost first, the call stack and the supply of ids.  Nothing
in `Machine.step` bounds the number of steps: it is an ordinary interpreter with a
stack of its own, and a call enters and exits the call stack as it would in a loop.

* `Task.next` — what a task does next, given the values that the tasks it started
  so far have given;
* `Machine.step` — one step: a job starts another one, or gives its answer to the
  job around it;
* `Job.Inside` — how a job sits in the one that started it: a body on the stack that
  its call has entered, and an operand on the same stack but smaller;
* `Machine.Nested.of_reaches` — in every state that a machine reaches, each job is
  inside the next one.
-/

/-- What a task does next.

* `start` — an operand, or the call that an invocation makes;
* `enter` — a call enters the stack and starts its body;
* `native` — a call enters the stack, and the host answers at once;
* `finish` — the task is done. -/
inductive Move where
  | start (sub : Task)
  | enter (body : Task)
  | native (result : Except RuntimeError Value) (supply : Supply)
  | finish (result : Except RuntimeError Value) (supply : Supply)

namespace Move

/-! ### Tasks in order

A move depends on the values that a task has so far.  These are put together from
`after`, which takes the first of them. -/

/-- Starts `sub`, or goes on with the value that it gave. -/
def after (sub : Task) (next : Value → List Value → Move) : List Value → Move
  | [] => start sub
  | value :: rest => next value rest

/-- Starts several tasks from left to right, and goes on with their values. -/
def afterAll : List Task → (List Value → List Value → Move) → List Value → Move
  | [], next => next []
  | sub :: subs, next =>
    after sub fun value => afterAll subs fun values => next (value :: values)

/-- Ends with the value of `sub`. -/
def pass (sub : Task) (supply : Supply) : List Value → Move :=
  after sub fun value _ => finish (.ok value) supply

/-- Starts the right operand of a short circuit only if the left one does not settle it. -/
def shortCircuit (op : BinaryOp) (left right : Task) (supply : Supply) : List Value → Move :=
  after left fun value rest =>
    match value.test op.symbol with
    | .error error => finish (.error error) supply
    | .ok b =>
      match op.settled? b with
      | some result => finish (.ok result) supply
      | none => after right (fun value _ => finish ((value.test op.symbol).map .bool) supply) rest

/-- Starts one of two branches. -/
def conditional (test yes no : Task) (supply : Supply) : List Value → Move :=
  after test fun value rest =>
    match value.test "condition" with
    | .error error => finish (.error error) supply
    | .ok true => pass yes supply rest
    | .ok false => pass no supply rest

/-- Starts the target and the arguments, and then the call. -/
def invocation (target : Task) (args : List Task) (supply : Supply) : List Value → Move :=
  after target fun target => afterAll args fun values rest =>
    match target with
    | .function _ callable => pass (.call callable values) supply rest
    | other => finish (.error (.notCallable other.typeName)) supply

end Move

/-! ### Moves of tasks -/

/-- The moves of a tree. -/
def Expr.next (hosts : Hosts) (env : Env Value) (supply : Supply) (values : List Value) :
    Expr Value → Move
  | constant value => .finish (.ok value) supply
  | parameter param => .finish (env.resolve param) supply
  | new cls args => .afterAll (args.map (.tree · env)) (fun fields _ =>
    .finish (cls.instantiate fields supply).1 (cls.instantiate fields supply).2) values
  | field target name => .after (.tree target env) (fun value _ =>
    .finish (value.field name) supply) values
  | unary op operand => .after (.tree operand env) (fun value _ =>
    .finish (op.apply value) supply) values
  | binary op left right =>
    if op.isShortCircuit then .shortCircuit op (.tree left env) (.tree right env) supply values
    else .after (.tree left env) (fun a => .after (.tree right env) fun b _ =>
      .finish (op.apply a b) supply) values
  | conditional test yes no =>
    .conditional (.tree test env) (.tree yes env) (.tree no env) supply values
  | lambda params body =>
    .finish (.ok (supply.function (.interpreted params body env)).1)
      (supply.function (.interpreted params body env)).2
  | invoke target args => .invocation (.tree target env) (args.map (.tree · env)) supply values
  | extension node operands _ => .afterAll (operands.map (.tree · env)) (fun operands _ =>
    .finish (hosts node.host operands supply).1 (hosts node.host operands supply).2) values

/-- The moves of a piece of code. -/
def Code.next (activation : Activation) (supply : Supply) (values : List Value) :
    Code Value → Move
  | literal value | embedded value => .finish (.ok value) supply
  | pooled index => .finish (Activation.entry activation.constants index) supply
  | slot place => .finish (activation.read place) supply
  | construct cls args => .afterAll (args.map (.code · activation)) (fun fields _ =>
    .finish (.ok (supply.object cls fields).1) (supply.object cls fields).2) values
  | instantiate cls args => .afterAll (args.map (.code · activation)) (fun fields _ =>
    .finish (cls.instantiate fields supply).1 (cls.instantiate fields supply).2) values
  | fieldAt target index name => .after (.code target activation) (fun value _ =>
    .finish (value.fieldAt index name) supply) values
  | field target name => .after (.code target activation) (fun value _ =>
    .finish (value.field name) supply) values
  | unary op operand => .after (.code operand activation) (fun value _ =>
    .finish (op.apply value) supply) values
  | shortCircuit op left right =>
    .shortCircuit op (.code left activation) (.code right activation) supply values
  | arithmetic op left right =>
    .after (.code left activation) (fun a => .after (.code right activation) fun b _ =>
      .finish (op.direct a b) supply) values
  | binary op left right =>
    .after (.code left activation) (fun a => .after (.code right activation) fun b _ =>
      .finish (op.apply a b) supply) values
  | conditional test yes no =>
    .conditional (.code test activation) (.code yes activation) (.code no activation) supply values
  | closure params captures body =>
    match activation.capture captures with
    | .error error => .finish (.error error) supply
    | .ok captured =>
      .finish (.ok (supply.function (.compiled params body captured activation.constants)).1)
        (supply.function (.compiled params body captured activation.constants)).2
  | invoke target args =>
    .invocation (.code target activation) (args.map (.code · activation)) supply values

/-- The moves of a call.  Only a body gives it a value, which becomes its own. -/
def Callable.next (hosts : Hosts) (args : List Value) (supply : Supply) (values : List Value)
    (callable : Callable Value) : Move :=
  match values, callable with
  | value :: _, _ => .finish (.ok value) supply
  | [], interpreted params body env =>
    match checkParameters params args with
    | .error error => .finish (.error error) supply
    | .ok () => .enter (.tree body (Frame.bind params args :: env))
  | [], compiled params body captured constants =>
    match checkParameters params args with
    | .error error => .finish (.error error) supply
    | .ok () => .enter (.code body ⟨args, captured, constants⟩)
  | [], native name arity host =>
    if args.length ≠ arity then .finish (.error (.arityMismatch name arity args.length)) supply
    else .native (hosts host args supply).1 (hosts host args supply).2

namespace Task

/-- What a task does next when it has the values of the tasks that it started. -/
def next (hosts : Hosts) (supply : Supply) (values : List Value) : Task → Move
  | tree expr env => expr.next hosts env supply values
  | code piece activation => piece.next activation supply values
  | call callable args => callable.next hosts args supply values

/-- Whether a task is a call. -/
def isCall : Task → Bool
  | call _ _ => true
  | _ => false

/-- The size of the node that a task runs; a call runs none itself. -/
noncomputable def size : Task → Nat
  | tree expr _ => sizeOf expr
  | code piece _ => sizeOf piece
  | call _ _ => 0

end Task

/-! ### The machine -/

/-- A task that is running, with the values that it has so far and the call stack
    on which it was started. -/
structure Job where
  task : Task
  values : List Value
  stack : CallStack

/-- A state of the machine: the answer that is under way to the innermost job, if
    there is one, the jobs, the call stack and the supply of ids. -/
structure Machine where
  answer? : Option (Except RuntimeError Value)
  jobs : List Job
  stack : CallStack
  supply : Supply

namespace Machine

/-- A machine with a single task. -/
def start (task : Task) (stack : CallStack) (supply : Supply) : Machine :=
  ⟨none, [⟨task, [], stack⟩], stack, supply⟩

/-- One step.  The innermost job moves, or it takes the answer of the job that was
    inside it: a value lets it go on, an error ends it too.  A call exits the stack
    in both cases. -/
def step (hosts : Hosts) : Machine → Option Machine
  | ⟨_, [], _, _⟩ => none
  | ⟨none, job :: jobs, stack, supply⟩ =>
    match job.task.next hosts supply job.values with
    | .start sub => some ⟨none, ⟨sub, [], stack⟩ :: job :: jobs, stack, supply⟩
    | .enter body =>
      match stack.enter with
      | .error error => some ⟨some (.error error), jobs, stack, supply⟩
      | .ok inner => some ⟨none, ⟨body, [], inner⟩ :: job :: jobs, inner, supply⟩
    | .native result later =>
      match stack.enter with
      | .error error => some ⟨some (.error error), jobs, stack, supply⟩
      | .ok inner => some ⟨some result, jobs, inner.exit, later⟩
    | .finish result supply => some ⟨some result, jobs, stack, supply⟩
  | ⟨some result, job :: jobs, stack, supply⟩ =>
    let stack := if job.task.isCall then stack.exit else stack
    match result with
    | .error error => some ⟨some (.error error), jobs, stack, supply⟩
    | .ok value => some ⟨none, { job with values := job.values ++ [value] } :: jobs, stack, supply⟩

/-- What one step can do.

* `start` — the innermost job starts an operand, or the call of an invocation;
* `full` — a call finds no room on the stack;
* `enter` — a call starts its body, on the stack that it has entered;
* `native` — the host answers a call, which has left the stack again;
* `finish` — the innermost job is done;
* `fail` — an error ends the job around the one that gave it;
* `resume` — a value lets the job around the one that gave it go on. -/
inductive Step (hosts : Hosts) : Machine → Machine → Prop
  | start {job : Job} {jobs : List Job} {stack : CallStack} {supply : Supply} {sub : Task} :
      job.task.next hosts supply job.values = .start sub →
      Step hosts ⟨none, job :: jobs, stack, supply⟩
        ⟨none, ⟨sub, [], stack⟩ :: job :: jobs, stack, supply⟩
  | full {job : Job} {jobs : List Job} {stack : CallStack} {supply : Supply}
      {error : RuntimeError} :
      ((∃ body, job.task.next hosts supply job.values = .enter body)
        ∨ ∃ result later, job.task.next hosts supply job.values = .native result later) →
      stack.enter = .error error →
      Step hosts ⟨none, job :: jobs, stack, supply⟩ ⟨some (.error error), jobs, stack, supply⟩
  | enter {job : Job} {jobs : List Job} {stack inner : CallStack} {supply : Supply}
      {body : Task} :
      job.task.next hosts supply job.values = .enter body → stack.enter = .ok inner →
      Step hosts ⟨none, job :: jobs, stack, supply⟩
        ⟨none, ⟨body, [], inner⟩ :: job :: jobs, inner, supply⟩
  | native {job : Job} {jobs : List Job} {stack inner : CallStack} {supply later : Supply}
      {result : Except RuntimeError Value} :
      job.task.next hosts supply job.values = .native result later → stack.enter = .ok inner →
      Step hosts ⟨none, job :: jobs, stack, supply⟩ ⟨some result, jobs, inner.exit, later⟩
  | finish {job : Job} {jobs : List Job} {stack : CallStack} {supply later : Supply}
      {result : Except RuntimeError Value} :
      job.task.next hosts supply job.values = .finish result later →
      Step hosts ⟨none, job :: jobs, stack, supply⟩ ⟨some result, jobs, stack, later⟩
  | fail {job : Job} {jobs : List Job} {stack : CallStack} {supply : Supply}
      {error : RuntimeError} :
      Step hosts ⟨some (.error error), job :: jobs, stack, supply⟩
        ⟨some (.error error), jobs, if job.task.isCall then stack.exit else stack, supply⟩
  | resume {job : Job} {jobs : List Job} {stack : CallStack} {supply : Supply} {value : Value} :
      Step hosts ⟨some (.ok value), job :: jobs, stack, supply⟩
        ⟨none, { job with values := job.values ++ [value] } :: jobs,
          if job.task.isCall then stack.exit else stack, supply⟩

/-- A step is one of these. -/
theorem step_eq_some {hosts : Hosts} {machine next : Machine} :
    machine.step hosts = some next ↔ Step hosts machine next := by
  constructor
  · intro h
    obtain ⟨answer?, jobs, stack, supply⟩ := machine
    cases jobs with
    | nil => cases h
    | cons job jobs =>
      cases answer? with
      -- there is an answer, so the job around takes it: an error ends that job too
      | some result =>
        cases result with
        | error error =>
          cases h
          exact .fail
        | ok value =>
          cases h
          exact .resume
      | none =>
        -- the job on top moves, and its move decides what becomes of the machine
        unfold step at h
        simp only at h
        split at h
        · cases h
          exact .start ‹_›
        · split at h <;> cases h
          · exact .full (.inl ⟨_, ‹_›⟩) ‹_›
          · exact .enter ‹_› ‹_›
        · split at h <;> cases h
          · exact .full (.inr ⟨_, _, ‹_›⟩) ‹_›
          · exact .native ‹_› ‹_›
        · cases h
          exact .finish ‹_›
  · intro h
    cases h with
    | start hmove | finish hmove => simp only [step, hmove]
    | enter hmove henter | native hmove henter => simp only [step, hmove, henter]
    | full hmove henter =>
      rcases hmove with ⟨_, hmove⟩ | ⟨_, _, hmove⟩ <;> simp only [step, hmove, henter]
    | fail | resume => rfl

/-- A machine comes to a state in some number of steps. -/
def Reaches (hosts : Hosts) (machine last : Machine) : Prop :=
  Relation.ReflTransGen (fun before after => before.step hosts = some after) machine last

/-- A machine halts in a state from which there is no step. -/
def Halts (hosts : Hosts) (machine last : Machine) : Prop :=
  machine.Reaches hosts last ∧ last.step hosts = none

theorem Reaches.head {hosts : Hosts} {before after last : Machine}
    (h : before.step hosts = some after) (hlast : after.Reaches hosts last) :
    before.Reaches hosts last :=
  Relation.ReflTransGen.head h hlast

theorem Reaches.tail {hosts : Hosts} {before after last : Machine} (h : before.Reaches hosts after)
    (hlast : after.step hosts = some last) : before.Reaches hosts last :=
  Relation.ReflTransGen.tail h hlast

/-- A machine halts in one state only. -/
theorem Halts.eq {hosts : Hosts} {machine last last' : Machine} (h : machine.Halts hosts last)
    (h' : machine.Halts hosts last') : last = last' := by
  obtain ⟨hreaches, hend⟩ := h
  induction hreaches using Relation.ReflTransGen.head_induction_on with
  -- a machine without a step to take reaches itself only
  | refl =>
    rcases Relation.ReflTransGen.cases_head h'.1 with heq | ⟨_, hstep, _⟩
    · exact heq
    · rw [hend] at hstep
      cases hstep
  | head hstep _ ih =>
    refine ih ⟨?_, h'.2⟩
    rcases Relation.ReflTransGen.cases_head h'.1 with rfl | ⟨_, hstep', hrest⟩
    · rw [h'.2] at hstep
      cases hstep
    · rw [hstep] at hstep'
      cases hstep'
      exact hrest

end Machine

/-! ### Jobs inside jobs -/

namespace Job

/-- The stack on which a job starts others. -/
def Enters (job : Job) (stack : CallStack) : Prop :=
  if job.task.isCall then job.stack.enter = .ok stack else stack = job.stack

/-- How a job sits in the one that started it.  The body of a call runs on the stack
    that the call has entered.  Anything else is smaller, on the same stack. -/
def Inside (inner outer : Job) : Prop :=
  outer.Enters inner.stack ∧ (outer.task.isCall = false → inner.task.size < outer.task.size)

/-- What decreases on the way in: the room on the call stack, then the size of the node. -/
noncomputable def measure (job : Job) : ℕ ×ₗ ℕ := toLex (job.stack.room, job.task.size)

/-- Calls take room from the stack, and other tasks are smaller. -/
theorem Inside.measure_lt {inner outer : Job} (h : inner.Inside outer) :
    inner.measure < outer.measure := by
  obtain ⟨henters, hsize⟩ := h
  refine Prod.Lex.toLex_lt_toLex.2 ?_
  unfold Enters at henters
  split at henters
  · exact .inl (CallStack.room_lt_of_enter henters)
  · rename_i hcall
    rw [Bool.not_eq_true] at hcall
    exact .inr ⟨by rw [henters], hsize hcall⟩

/-- After the job inside it, a job is back on its own stack. -/
theorem Enters.leave {job : Job} {stack : CallStack} (h : job.Enters stack) :
    (if job.task.isCall then stack.exit else stack) = job.stack := by
  unfold Enters at h
  split at h
  · rename_i hcall
    rw [if_pos hcall]
    exact CallStack.exit_enter h
  · rename_i hcall
    rw [if_neg hcall]
    exact h

end Job

/-! ### What a task starts is smaller -/

/-- The moves of a tree or of code of that size: they start smaller tasks only, and
    enter nothing. -/
def Move.Descends (size : Nat) : Move → Prop
  | start sub => sub.size < size
  | enter _ | native _ _ => False
  | finish _ _ => True

namespace Move

variable {size : Nat} {supply : Supply}

theorem descends_finish {result : Except RuntimeError Value} :
    (finish result supply).Descends size :=
  trivial

/-- A smaller task may be started first. -/
theorem descends_after {sub : Task} {next : Value → List Value → Move} (hsub : sub.size < size)
    (hnext : ∀ value rest, (next value rest).Descends size) (values : List Value) :
    (after sub next values).Descends size := by
  cases values with
  | nil => exact hsub
  | cons value rest => exact hnext value rest

/-- Any number of smaller tasks may. -/
theorem descends_afterAll {subs : List Task} {next : List Value → List Value → Move}
    (hsubs : ∀ sub ∈ subs, sub.size < size)
    (hnext : ∀ values rest, (next values rest).Descends size) (values : List Value) :
    (afterAll subs next values).Descends size := by
  induction subs generalizing next values with
  | nil => exact hnext [] values
  | cons sub subs ih =>
    rw [List.forall_mem_cons] at hsubs
    exact descends_after hsubs.1
      (fun value => ih hsubs.2 fun values => hnext (value :: values)) values

theorem descends_pass {sub : Task} (hsub : sub.size < size) (values : List Value) :
    (pass sub supply values).Descends size :=
  descends_after hsub (fun _ _ => descends_finish) values

/-- Both operands of a short circuit are smaller than it. -/
theorem descends_shortCircuit {op : BinaryOp} {left right : Task} (hleft : left.size < size)
    (hright : right.size < size) (values : List Value) :
    (shortCircuit op left right supply values).Descends size := by
  refine descends_after hleft (fun value rest => ?_) values
  split
  · trivial
  · split
    · trivial
    · exact descends_after hright (fun _ _ => descends_finish) rest

/-- The test and the branches of a conditional are smaller than it. -/
theorem descends_conditional {test yes no : Task} (htest : test.size < size)
    (hyes : yes.size < size) (hno : no.size < size) (values : List Value) :
    (conditional test yes no supply values).Descends size := by
  refine descends_after htest (fun value rest => ?_) values
  split
  · trivial
  · exact descends_pass hyes rest
  · exact descends_pass hno rest

/-- A call has no size, so it is smaller than the invocation that makes it. -/
theorem descends_invocation {target : Task} {args : List Task} (htarget : target.size < size)
    (hargs : ∀ arg ∈ args, arg.size < size) (values : List Value) :
    (invocation target args supply values).Descends size := by
  refine descends_after htarget (fun value rest =>
    descends_afterAll hargs (fun values rest => ?_) rest) values
  split
  · exact descends_pass (Nat.zero_lt_of_lt htarget) rest
  · trivial

end Move

/-- The operands of a piece of code are smaller than it. -/
theorem Code.sizeOf_lt_of_mem_operands {code sub : Code Value} (h : sub ∈ code.operands) :
    sizeOf sub < sizeOf code := by
  cases code with
  | literal | embedded | pooled | slot | closure => cases h
  | construct cls args | instantiate cls args =>
    -- an operand in a list is smaller than the list
    have hsize : sizeOf sub < sizeOf args := List.sizeOf_lt_of_mem h
    simp only [construct.sizeOf_spec, instantiate.sizeOf_spec]
    omega
  | fieldAt target index name | field target name | unary op operand =>
    cases List.mem_singleton.1 h
    simp only [fieldAt.sizeOf_spec, field.sizeOf_spec, unary.sizeOf_spec]
    omega
  | shortCircuit op left right | arithmetic op left right | binary op left right =>
    simp only [shortCircuit.sizeOf_spec, arithmetic.sizeOf_spec, binary.sizeOf_spec]
    rcases List.mem_pair.1 h with rfl | rfl <;> omega
  | conditional test yes no =>
    simp only [operands, List.mem_cons, List.not_mem_nil, or_false] at h
    simp only [conditional.sizeOf_spec]
    rcases h with rfl | rfl | rfl <;> omega
  | invoke target args =>
    simp only [invoke.sizeOf_spec]
    rcases List.mem_cons.1 h with rfl | h
    · omega
    · have hsize : sizeOf sub < sizeOf args := List.sizeOf_lt_of_mem h
      omega

/-- A tree starts nothing but its operands and calls. -/
theorem Expr.descends_next {hosts : Hosts} {env : Env Value} {supply : Supply} (expr : Expr Value)
    (values : List Value) : (expr.next hosts env supply values).Descends (sizeOf expr) := by
  have operand : ∀ {sub}, sub ∈ expr.children → (Task.tree sub env).size < sizeOf expr :=
    sizeOf_lt_of_mem_children
  cases expr with
  | constant | parameter | lambda =>
    rw [next]
    trivial
  | new | extension =>
    rw [next]
    exact Move.descends_afterAll (List.forall_mem_map.2 fun _ => operand)
      (fun _ _ => Move.descends_finish) values
  | field | unary =>
    rw [next]
    exact Move.descends_after (operand (by simp [children]))
      (fun _ _ => Move.descends_finish) values
  | binary op left right =>
    rw [next]
    split
    · exact Move.descends_shortCircuit (operand (by simp [children]))
        (operand (by simp [children])) values
    · exact Move.descends_after (operand (by simp [children]))
        (fun _ => Move.descends_after (operand (by simp [children])) fun _ _ =>
          Move.descends_finish) values
  | conditional test yes no =>
    rw [next]
    exact Move.descends_conditional (operand (by simp [children])) (operand (by simp [children]))
      (operand (by simp [children])) values
  | invoke target args =>
    rw [next]
    exact Move.descends_invocation (operand (List.mem_cons_self ..))
      (List.forall_mem_map.2 fun _ hsub => operand (List.mem_cons_of_mem target hsub)) values

/-- Code starts nothing but its operands and calls. -/
theorem Code.descends_next {activation : Activation} {supply : Supply} (code : Code Value)
    (values : List Value) : (code.next activation supply values).Descends (sizeOf code) := by
  have operand : ∀ {sub}, sub ∈ code.operands → (Task.code sub activation).size < sizeOf code :=
    sizeOf_lt_of_mem_operands
  cases code with
  | literal | embedded | pooled | slot =>
    rw [next]
    trivial
  | closure =>
    rw [next]
    -- a closure is made, or a capture is missing; its body waits for a call
    split <;> trivial
  | construct | instantiate =>
    rw [next]
    exact Move.descends_afterAll (List.forall_mem_map.2 fun _ => operand)
      (fun _ _ => Move.descends_finish) values
  | fieldAt | field | unary =>
    rw [next]
    exact Move.descends_after (operand (by simp [operands]))
      (fun _ _ => Move.descends_finish) values
  | shortCircuit =>
    rw [next]
    exact Move.descends_shortCircuit (operand (by simp [operands])) (operand (by simp [operands]))
      values
  | arithmetic | binary =>
    rw [next]
    exact Move.descends_after (operand (by simp [operands]))
      (fun _ => Move.descends_after (operand (by simp [operands])) fun _ _ =>
        Move.descends_finish) values
  | conditional test yes no =>
    rw [next]
    exact Move.descends_conditional (operand (by simp [operands])) (operand (by simp [operands]))
      (operand (by simp [operands])) values
  | invoke target args =>
    rw [next]
    exact Move.descends_invocation (operand (List.mem_cons_self ..))
      (List.forall_mem_map.2 fun _ hsub => operand (List.mem_cons_of_mem target hsub)) values

/-- A call starts nothing but its body, for which it enters the stack. -/
theorem Callable.next_ne_start {hosts : Hosts} {args : List Value} {supply : Supply}
    (callable : Callable Value) (values : List Value) (sub : Task) :
    callable.next hosts args supply values ≠ .start sub := by
  intro h
  unfold next at h
  split at h
  · cases h
  · split at h <;> cases h
  · split at h <;> cases h
  · split at h <;> cases h

namespace Task

variable {hosts : Hosts} {supply : Supply} {task sub : Task} {values : List Value}

/-- A task that is no call starts smaller ones. -/
theorem descends_next (hcall : task.isCall = false) :
    (task.next hosts supply values).Descends task.size := by
  cases task with
  | tree expr env => exact expr.descends_next values
  | code piece activation => exact piece.descends_next values
  | call => cases hcall

/-- What a task starts without entering the stack is smaller. -/
theorem size_lt_of_start (h : task.next hosts supply values = .start sub) :
    task.isCall = false ∧ sub.size < task.size := by
  cases hcall : task.isCall with
  | false =>
    have hdescends : (task.next hosts supply values).Descends task.size := descends_next hcall
    rw [h] at hdescends
    exact ⟨rfl, hdescends⟩
  | true =>
    cases task with
    | call callable args => exact absurd h (callable.next_ne_start values sub)
    | _ => cases hcall

/-- Only a call enters the stack. -/
theorem isCall_of_enter (h : task.next hosts supply values = .enter sub) :
    task.isCall = true := by
  by_contra hcall
  rw [Bool.not_eq_true] at hcall
  have hdescends : (task.next hosts supply values).Descends task.size := descends_next hcall
  rw [h] at hdescends
  exact hdescends

end Task

/-! ### Reachable states -/

namespace Machine

/-- Each job is inside the next one, and the machine is on the stack of the innermost
    one, or on the stack on which that one has started others. -/
def Nested : Machine → Prop
  | ⟨none, [], _, _⟩ => False
  | ⟨none, job :: jobs, stack, _⟩ => job.stack = stack ∧ (job :: jobs).IsChain Job.Inside
  | ⟨some _, jobs, stack, _⟩ => (∀ job ∈ jobs.head?, job.Enters stack) ∧ jobs.IsChain Job.Inside

variable {hosts : Hosts}

/-- The jobs of a nested machine are nested in one another. -/
theorem Nested.isChain {machine : Machine} (h : machine.Nested) :
    machine.jobs.IsChain Job.Inside := by
  obtain ⟨answer?, jobs, stack, supply⟩ := machine
  cases answer? with
  | some _ => exact h.2
  | none =>
    cases jobs with
    | nil => exact .nil
    | cons job jobs => exact h.2

/-- When a job ends on its own stack, the one around it is where it started it. -/
theorem nested_answer {job : Job} {jobs : List Job} (h : (job :: jobs).IsChain Job.Inside)
    {result : Except RuntimeError Value} {supply : Supply} :
    Nested ⟨some result, jobs, job.stack, supply⟩ := by
  rw [List.isChain_cons] at h
  exact ⟨fun outer houter => (h.1 outer houter).1, h.2⟩

/-- A job may start another one inside it. -/
theorem nested_start {job inner : Job} {jobs : List Job} (h : (job :: jobs).IsChain Job.Inside)
    (hinner : inner.Inside job) {supply : Supply} :
    Nested ⟨none, inner :: job :: jobs, inner.stack, supply⟩ :=
  ⟨rfl, .cons_cons hinner h⟩

/-- A step leaves jobs inside jobs. -/
theorem Nested.step {before after : Machine} (h : before.Nested)
    (hstep : before.step hosts = some after) : after.Nested := by
  cases step_eq_some.1 hstep with
  | start hmove =>
    -- an operand or a branch: smaller, on the same stack
    obtain ⟨rfl, hchain⟩ := h
    obtain ⟨hcall, hsize⟩ := Task.size_lt_of_start hmove
    exact nested_start hchain ⟨by simp [Job.Enters, hcall], fun _ => hsize⟩
  | enter hmove henter =>
    -- the body of a call: on the stack that the call enters
    obtain ⟨rfl, hchain⟩ := h
    have hcall := Task.isCall_of_enter hmove
    exact nested_start hchain ⟨by simp [Job.Enters, hcall, henter], by simp [hcall]⟩
  | full | finish =>
    obtain ⟨rfl, hchain⟩ := h
    exact nested_answer hchain
  | native hmove henter =>
    -- the host: in and out of the stack in one step
    obtain ⟨rfl, hchain⟩ := h
    rw [CallStack.exit_enter henter]
    exact nested_answer hchain
  | @fail job =>
    obtain ⟨henters, hchain⟩ := h
    rw [(henters job rfl).leave]
    exact nested_answer hchain
  | @resume job =>
    obtain ⟨henters, hchain⟩ := h
    refine ⟨(henters job rfl).leave.symm, ?_⟩
    -- more values change nothing about where a job sits
    rw [List.isChain_cons] at hchain ⊢
    exact hchain

/-- **A machine that starts with one task only ever has jobs inside jobs.** -/
theorem nested_of_reaches {task : Task} {stack : CallStack} {supply : Supply} {machine : Machine}
    (h : (start task stack supply).Reaches hosts machine) : machine.Nested := by
  induction h with
  | refl => exact ⟨rfl, .singleton _⟩
  | tail _ hstep ih => exact ih.step hstep

end Machine

end ExprTree

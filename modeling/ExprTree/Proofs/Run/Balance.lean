import ExprTree.Proofs.Run.Termination

namespace ExprTree

/-!
# The call stack while a call runs

A machine enters the call stack once for each body that it starts and exits it once
when that body ends, with a value or with an error.  `Machine.Balanced` says so for
one moment: the depth is that before the call and one more for each body that is
running.  Every step keeps it (`Machine.Balanced.step`), and so does a whole run.

By `call_stack_balanced` every call leaves the stack as it was, is never deeper than
the limit on the way, and does nothing at all on a stack that is full.
-/

/-- What a call asks of its arguments before it enters the stack. -/
def Callable.checkArguments (callable : Callable Value) (args : List Value) :
    Except RuntimeError Unit :=
  match callable with
  | .interpreted params _ _ | .compiled params _ _ _ => checkParameters params args
  | .native name arity _ =>
    if args.length ≠ arity then .error (.arityMismatch name arity args.length) else .ok ()

/-- A counter of 32 bits does not wrap where the limit is one of them. -/
theorem CallStack.word_of_enter {stack inner : CallStack} (hlimit : stack.limit < UInt32.size)
    (h : stack.enter = .ok inner) : (UInt32.ofNat stack.depth + 1).toNat = inner.depth := by
  obtain ⟨hdepth, hsame⟩ := enter_eq_ok h
  have hle := inner.depth_le_limit
  have hsize : UInt32.size = 2 ^ 32 := rfl
  have hone : (1 : UInt32).toNat = 1 := rfl
  rw [UInt32.toNat_add, UInt32.toNat_ofNat', hone]
  omega

/-! ### Running bodies -/

namespace Machine

/-- The jobs that wait for the one inside them. -/
def waiting : Machine → List Job
  | ⟨none, jobs, _, _⟩ => jobs.tail
  | ⟨some _, jobs, _, _⟩ => jobs

/-- How many bodies are running.  A call waits for its body and for nothing else. -/
def running (machine : Machine) : Nat := machine.waiting.countP (·.task.isCall)

/-- The stack of a machine that began on another one: the limit is the same, and every
    body that is running accounts for one unit of the depth. -/
structure Balanced (stack : CallStack) (machine : Machine) : Prop where
  limit : machine.stack.limit = stack.limit
  depth : machine.stack.depth = stack.depth + machine.running

variable {hosts : Hosts} {stack : CallStack} {machine next : Machine}

/-- Every step keeps the balance. -/
theorem Balanced.step (h : machine.Balanced stack) (hstep : machine.step hosts = some next) :
    next.Balanced stack := by
  obtain ⟨hlimit, hdepth⟩ := h
  have leave : ∀ {job : Job} {jobs : List Job} {inner : CallStack}, inner.limit = stack.limit →
      inner.depth = stack.depth + (job :: jobs).countP (·.task.isCall) →
      (if job.task.isCall then inner.exit else inner).limit = stack.limit
        ∧ (if job.task.isCall then inner.exit else inner).depth
          = stack.depth + jobs.countP (·.task.isCall) := by
    intro job jobs inner hlimit hdepth
    rw [List.countP_cons] at hdepth
    split
    · rename_i hcall
      rw [if_pos hcall] at hdepth
      refine ⟨hlimit, ?_⟩
      simp only [CallStack.exit]
      omega
    · rename_i hcall
      rw [if_neg hcall] at hdepth
      exact ⟨hlimit, hdepth⟩
  cases step_eq_some.1 hstep with
  | start hmove =>
    -- what starts another task without entering the stack is no call
    have hcall := (Task.size_lt_of_start hmove).1
    refine ⟨hlimit, ?_⟩
    simpa [running, waiting, hcall] using hdepth
  | enter hmove henter =>
    -- one more body is running, and the stack is one deeper
    have hcall := Task.isCall_of_enter hmove
    obtain ⟨hinner, hsame⟩ := CallStack.enter_eq_ok henter
    refine ⟨hsame.trans hlimit, ?_⟩
    simp only [running, waiting, List.tail_cons, List.countP_cons, if_pos hcall] at hdepth ⊢
    omega
  | full | finish => exact ⟨hlimit, hdepth⟩
  | native hmove henter =>
    rw [CallStack.exit_enter henter]
    exact ⟨hlimit, hdepth⟩
  | fail | resume =>
    -- a body that ends gives its unit back, whatever it ends with
    obtain ⟨hlimit, hdepth⟩ := leave hlimit hdepth
    exact ⟨hlimit, hdepth⟩

/-- A run of a single task is balanced at every moment. -/
theorem balanced_of_reaches {task : Task} {supply : Supply}
    (h : (start task stack supply).Reaches hosts machine) : machine.Balanced stack := by
  induction h with
  | refl => exact ⟨rfl, rfl⟩
  | tail _ hstep ih => exact ih.step hstep

end Machine

/-! ### Full stacks -/

section

variable {hosts : Hosts} {callable : Callable Value} {args : List Value} {stack : CallStack}
  {supply : Supply}

/-- A call that takes its arguments goes on to its body, if it finds room for it. -/
theorem Callable.next_of_checked (h : callable.checkArguments args = .ok ()) :
    (∃ body, callable.next hosts args supply [] = .enter body)
      ∨ ∃ result later, callable.next hosts args supply [] = .native result later := by
  cases callable with
  | interpreted | compiled =>
    have hcheck : checkParameters _ args = .ok () := h
    exact .inl ⟨_, by rw [next, hcheck]⟩
  | native name arity host =>
    by_cases harity : args.length = arity
    · exact .inr ⟨_, _, by rw [next, if_neg (not_not_intro harity)]⟩
    · simp [checkArguments, harity] at h

/-- On a full stack a call fails at once. -/
theorem Machine.step_of_full (hfull : stack.depth = stack.limit)
    (hcheck : callable.checkArguments args = .ok ()) :
    (start (.call callable args) stack supply).step hosts
      = some ⟨some (.error (.recursionLimit stack.limit)), [], stack, supply⟩ :=
  step_eq_some.2 (.full (Callable.next_of_checked hcheck) (CallStack.enter_of_full hfull))

end

/-- **Calls balance the stack.**  Whatever is called with whatever arguments, be it a
    tree, code or a function of the host, by itself or inside a `CompiledFn`,

* the stack after the call is the one before it, for a value and for an error;
* the machine that runs the call halts on that stack with the outcome of the call,
  and at every moment until then its stack has the same limit, and the depth before
  the call with one more for each body that is running.  Starting one more body keeps
  within the limit, and does not wrap a counter of 32 bits if the limit is one;
* on a full stack a call that takes its arguments fails in one step, without running
  anything and without using an id. -/
theorem call_stack_balanced (hosts : Hosts) (callable : Callable Value) (args : List Value)
    (stack : CallStack) (supply : Supply) :
    (call hosts callable args stack supply).stack = stack
    ∧ (Machine.start (.call callable args) stack supply).Halts hosts
        ⟨some (call hosts callable args stack supply).result, [], stack,
          (call hosts callable args stack supply).supply⟩
    ∧ (∀ machine, (Machine.start (.call callable args) stack supply).Reaches hosts machine →
        machine.stack.limit = stack.limit
        ∧ machine.stack.depth = stack.depth + machine.running
        ∧ machine.stack.depth ≤ stack.limit
        ∧ ∀ inner, machine.stack.enter = .ok inner →
            inner.depth = stack.depth + machine.running + 1
            ∧ inner.depth ≤ stack.limit
            ∧ (stack.limit < UInt32.size →
                (UInt32.ofNat machine.stack.depth + 1).toNat = inner.depth))
    ∧ (stack.depth = stack.limit → callable.checkArguments args = .ok () →
        (Machine.start (.call callable args) stack supply).step hosts
            = some ⟨some (.error (.recursionLimit stack.limit)), [], stack, supply⟩
          ∧ (call hosts callable args stack supply).result
              = .error (.recursionLimit stack.limit)
          ∧ (call hosts callable args stack supply).supply = supply) := by
  have hhalts : (Machine.start (.call callable args) stack supply).Halts hosts
      ⟨some (call hosts callable args stack supply).result, [], stack,
        (call hosts callable args stack supply).supply⟩ :=
    ⟨(gives_call callable args stack [] supply).1, rfl⟩
  refine ⟨(gives_call callable args stack [] supply).2, hhalts, fun machine hreaches => ?_,
    fun hfull hcheck => ?_⟩
  · obtain ⟨hlimit, hdepth⟩ := Machine.balanced_of_reaches hreaches
    refine ⟨hlimit, hdepth, hlimit ▸ machine.stack.depth_le_limit, fun inner henter => ?_⟩
    obtain ⟨hinner, hsame⟩ := CallStack.enter_eq_ok henter
    have hle := inner.depth_le_limit
    refine ⟨by omega, by omega, fun hword => ?_⟩
    exact CallStack.word_of_enter (hlimit ▸ hword) henter
  · have hstep : (Machine.start (.call callable args) stack supply).step hosts
        = some ⟨some (.error (.recursionLimit stack.limit)), [], stack, supply⟩ :=
      Machine.step_of_full hfull hcheck
    have hfailed : (Machine.start (.call callable args) stack supply).Halts hosts
        ⟨some (.error (.recursionLimit stack.limit)), [], stack, supply⟩ :=
      ⟨.single hstep, rfl⟩
    -- there is one outcome only
    injection hhalts.eq hfailed with hresult _ _ hsupply
    exact ⟨hstep, Option.some.inj hresult, hsupply⟩

end ExprTree

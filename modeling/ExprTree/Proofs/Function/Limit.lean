import ExprTree.Proofs.Function.Compilation
import ExprTree.Proofs.Host
import ExprTree.Proofs.Run.Invariant

namespace ExprTree

/-!
# The limit of the call stack

What a machine does next depends on the limit only when a call enters the stack.  So
a machine that may nest more calls takes the same steps (`Machine.Step.raise`), until
the one with the lower limit finds its stack full; and from then on that one does
nothing but fail (`Machine.Exceeded.step`).

By `Lambda.invoke_raised` a higher limit gives a compiled function the results that it
had with the lower one, except for the errors about the limit.
-/

/-! ### Higher limits -/

/-- The same stack with room for more calls. -/
def CallStack.raise (extra : Nat) (stack : CallStack) : CallStack :=
  ⟨stack.depth, stack.limit + extra, Nat.le_add_right_of_le stack.depth_le_limit⟩

/-- What was entered under the lower limit is entered under the higher one. -/
theorem CallStack.enter_raise {stack inner : CallStack} (extra : Nat)
    (h : stack.enter = .ok inner) : (stack.raise extra).enter = .ok (inner.raise extra) := by
  unfold enter at h
  split at h
  · rename_i hroom
    cases h
    exact dif_pos (Nat.lt_add_right extra hroom)
  · cases h

/-- A job that was started on a stack with room for more calls. -/
def Job.raise (extra : Nat) (job : Job) : Job := { job with stack := job.stack.raise extra }

namespace Machine

variable {hosts : Hosts} {machine next last : Machine}

/-- A machine at the same point of its run that may nest more calls. -/
def raise (extra : Nat) (machine : Machine) : Machine :=
  ⟨machine.answer?, machine.jobs.map (·.raise extra), machine.stack.raise extra, machine.supply⟩

/-- An error about the limit is under way. -/
def Exceeded (machine : Machine) : Prop :=
  ∃ limit, machine.answer? = some (.error (.recursionLimit limit))

/-- Nothing in the language catches an error about the limit. -/
theorem Exceeded.step (h : machine.Exceeded) (hstep : machine.step hosts = some next) :
    next.Exceeded := by
  obtain ⟨limit, hanswer⟩ := h
  cases step_eq_some.1 hstep with
  | start | full | enter | native | finish | resume => cases hanswer
  | fail => exact ⟨limit, hanswer⟩

/-- A call leaves the stack in the same way under both limits. -/
theorem leave_raise (extra : Nat) (job : Job) (stack : CallStack) :
    (if job.task.isCall then stack.exit else stack).raise extra
      = if (job.raise extra).task.isCall then (stack.raise extra).exit
        else stack.raise extra := by
  unfold Job.raise
  split <;> rfl

/-- With more room a machine takes the same step, unless its stack was full. -/
theorem Step.raise (extra : Nat) (h : Step hosts machine next) :
    Step hosts (machine.raise extra) (next.raise extra) ∨ next.Exceeded := by
  -- a move does not look at the stack, so the two machines make the same one; what
  -- differs is whether a call finds room for its body
  cases h with
  | @start job _ _ _ _ hmove => exact .inl (@Step.start _ (job.raise extra) _ _ _ _ hmove)
  | @enter job _ _ _ _ _ hmove henter =>
    have henter := CallStack.enter_raise extra henter
    exact .inl (@Step.enter _ (job.raise extra) _ _ _ _ _ hmove henter)
  | @native job _ _ _ _ _ _ hmove henter =>
    have henter := CallStack.enter_raise extra henter
    exact .inl (@Step.native _ (job.raise extra) _ _ _ _ _ _ hmove henter)
  | @finish job _ _ _ _ _ hmove => exact .inl (@Step.finish _ (job.raise extra) _ _ _ _ _ hmove)
  | full hmove henter =>
    exact .inr ⟨_, congrArg _ (congrArg _ (CallStack.enter_eq_error henter))⟩
  | @fail job | @resume job =>
    refine .inl ?_
    unfold Machine.raise
    rw [leave_raise]
    constructor

/-- With more room a machine takes the same steps, until its stack would have been full. -/
theorem raise_of_reaches (extra : Nat) (h : machine.Reaches hosts last) :
    (machine.raise extra).Reaches hosts (last.raise extra) ∨ last.Exceeded := by
  -- induction on the run of the machine with less room: the other one is at the same
  -- point, or there is an error about the limit on its way out
  induction h with
  | refl => exact .inl .refl
  | tail _ hstep ih =>
    rcases ih with hreaches | hexceeded
    · rcases (step_eq_some.1 hstep).raise extra with hraised | hexceeded
      · exact .inl (hreaches.tail (step_eq_some.2 hraised))
      · exact .inr hexceeded
    · exact .inr (hexceeded.step hstep)

end Machine

/-! ### Calls -/

/-- A call that does not fail for want of room has the same outcome with more of it. -/
theorem call_raise {hosts : Hosts} {callable : Callable Value} {args : List Value}
    {stack : CallStack} {supply : Supply} (extra : Nat)
    (h : ∀ limit, (call hosts callable args stack supply).result
      ≠ .error (.recursionLimit limit)) :
    (call hosts callable args (stack.raise extra) supply).result
        = (call hosts callable args stack supply).result
      ∧ (call hosts callable args (stack.raise extra) supply).supply
        = (call hosts callable args stack supply).supply := by
  have hgives : (Machine.start (.call callable args) stack supply).Reaches hosts _ :=
    (gives_call callable args stack [] supply).1
  rcases Machine.raise_of_reaches extra hgives with hraised | ⟨limit, hexceeded⟩
  · have hhigh : (Machine.start (.call callable args) (stack.raise extra) supply).Reaches hosts _ :=
      (gives_call callable args (stack.raise extra) [] supply).1
    -- both runs start from the same machine, which halts in one state only
    injection Machine.Halts.eq ⟨hhigh, rfl⟩ ⟨hraised, rfl⟩ with hresult _ _ hsupply
    exact ⟨Option.some.inj hresult, hsupply⟩
  · exact absurd (Option.some.inj hexceeded) (h limit)

/-- The host has no errors about the call stack. -/
def Hosts.Unlimited (hosts : Hosts) : Prop :=
  ∀ host args supply limit, (hosts host args supply).1 ≠ .error (.recursionLimit limit)

/-- The standard host fails for reasons of its own only. -/
theorem Hosts.standard_unlimited : standard.Unlimited := by
  have sum : ∀ args total limit, sumFrom total args ≠ .error (.recursionLimit limit) := by
    intro args
    induction args with
    | nil => nofun
    | cons arg rest ih =>
      cases arg with
      | number n => exact fun total => ih (total + n)
      | _ => nofun
  intro host args supply limit h
  unfold standard answer at h
  dsimp only at h
  split at h
  · exact sum _ _ _ h
  all_goals cases h

/-- An error about the limit of the call stack is no error of a task. -/
theorem Task.Fails.of_recursionLimit {hosts : Hosts} {task : Task} {limit : Nat}
    (h : task.Fails hosts (.recursionLimit limit)) :
    ∃ host args supply, (hosts host args supply).1 = .error (.recursionLimit limit) := by
  rcases h.origin with hoperational | hhost | ⟨_, _, _, hresolve⟩ | ⟨_, heq⟩
  · exact hoperational.elim
  · exact hhost
  · cases Env.resolve_eq_error hresolve
  · cases heq

/-- Every task will do. -/
def TaskInvariant.anything : TaskInvariant where
  Calls _ := True
  Walks _ _ _ := True
  Executes _ _ := True
  Happens _ _ := True
  native := ⟨⟩
  operand _ _ := ⟨⟩
  lambda _ _ := ⟨⟩
  walk _ _ := ⟨⟩
  piece _ _ := ⟨⟩
  closure _ _ := ⟨⟩
  run _ _ := ⟨⟩

theorem TaskInvariant.all_anything (value : Value) : value.All anything.Admits := by
  intro part _
  cases part <;> exact ⟨⟩

/-- The limit in an error is that of the call stack. -/
theorem limit_of_call {hosts : Hosts} (hhosts : hosts.Unlimited) {callable : Callable Value}
    {args : List Value} {stack : CallStack} {supply : Supply} {limit : Nat}
    (h : (call hosts callable args stack supply).result = .error (.recursionLimit limit)) :
    limit = stack.limit := by
  have hhosted : TaskInvariant.anything.Hosted hosts :=
    fun _ _ _ value _ _ _ => TaskInvariant.all_anything value
  have hholds : TaskInvariant.anything.Holds [] (.call callable args) :=
    ⟨⟨⟩, fun value _ => TaskInvariant.all_anything value,
      fun value _ => TaskInvariant.all_anything value⟩
  rcases error_of_call hhosted hholds (fun _ _ _ _ _ => ⟨⟩) h with heq | ⟨_, _, _, hfails⟩
  · exact RuntimeError.recursionLimit.inj heq
  · obtain ⟨host, args, supply, hhost⟩ := hfails.of_recursionLimit
    exact absurd hhost (hhosts host args supply limit)

/-! ### Compiled functions -/

/-- Emission does not look at the limit of the call stack. -/
theorem Expr.emit_of_limit (options : CompilerOptions) (limit : Nat) :
    Expr.emit { options with maxCallDepth := limit } = Expr.emit options := by
  delta Expr.emit
  rfl

namespace Lambda

variable {lambda : Lambda Value} {options : CompilerOptions} {strategy : Strategy}
  {strict : Bool} {fn : CompiledFn}

/-- All that compilation does with the limit of the call stack is to keep it. -/
theorem compileBy_of_limit (lambda : Lambda Value) (strategy : Strategy)
    (options : CompilerOptions) (strict : Bool) (limit : Nat) :
    lambda.compileBy strategy { options with maxCallDepth := limit } strict
      = (lambda.compileBy strategy options strict).map ({ · with maxCallDepth := limit }) := by
  cases strategy with
  | baseline =>
    simp only [compileBy, compile]
    cases lambda.validate options.maxTreeDepth <;> rfl
  | fast =>
    -- code does not depend on the limit: it is looked at when functions are called
    have hemit : lambda.emit { options with maxCallDepth := limit } = lambda.emit options := by
      unfold emit emitBody
      rw [Expr.emit_of_limit]
    simp only [compileBy, compileFast, hemit]
    cases lambda.validate options.maxTreeDepth with
    | error error => rfl
    | ok ty =>
      cases lambda.emit options with
      | ok pair => rfl
      | error error =>
        cases error with
        | notSupported what => cases strict <;> rfl
        | _ => rfl

/-- **A higher limit only removes errors about the limit.**  A lambda that compiles
    with one limit of the call stack compiles with a higher one in the same way.

* Where the first function has another result than an error about the limit, the
  second one has the same result, with the same ids, and leaves the same supply.
* The error about the limit that the first function gives has its own limit in it,
  if the host does not give such errors. -/
theorem invoke_raised (options : CompilerOptions) {low high : Nat} (hlimit : low ≤ high)
    (h : lambda.compileBy strategy { options with maxCallDepth := low } strict = .ok fn) :
    ∃ raised, lambda.compileBy strategy { options with maxCallDepth := high } strict = .ok raised
      ∧ ∀ hosts args supply,
        ((∀ limit, (fn.invoke hosts args supply).1 ≠ .error (.recursionLimit limit)) →
          raised.invoke hosts args supply = fn.invoke hosts args supply)
        ∧ (hosts.Unlimited → ∀ limit,
          (fn.invoke hosts args supply).1 = .error (.recursionLimit limit) → limit = low) := by
  have hlow : fn.maxCallDepth = low := (compileBy_eq_ok h).2
  refine ⟨{ fn with maxCallDepth := high }, ?_, fun hosts args supply => ⟨fun hresult => ?_,
    fun hhosts limit hresult => ?_⟩⟩
  · have hhigh : lambda.compileBy strategy { options with maxCallDepth := high } strict = _ :=
      compileBy_of_limit lambda strategy { options with maxCallDepth := low } strict high
    rw [h] at hhigh
    exact hhigh
  · obtain ⟨extra, rfl⟩ := Nat.exists_eq_add_of_le hlimit
    obtain ⟨hsame, hsupply⟩ := call_raise extra hresult
    -- a higher limit is the lower one with extra room
    subst hlow
    exact Prod.ext hsame hsupply
  · exact (limit_of_call hhosts hresult).trans hlow

/-- A lambda that calls another one: two bodies run at once. -/
def thunk : Lambda Value := ⟨[], .invoke (.lambda [] (.constant (.bool true))) []⟩

/-- What the baseline makes of `thunk`. -/
def thunkFn (limit : Nat) : CompiledFn :=
  ⟨.interpreted thunk.params thunk.body [], .baseline, limit, none⟩

/-- Room for two calls is enough, and so is room for five; with room for one the error says so. -/
theorem invoke_raised_thunk :
    thunk.compileBy .baseline { maxCallDepth := 1 } false = .ok (thunkFn 1)
      ∧ thunk.compileBy .baseline { maxCallDepth := 2 } false = .ok (thunkFn 2)
      ∧ (∃ raised, thunk.compileBy .baseline { maxCallDepth := 5 } false = .ok raised
        ∧ raised.invoke Hosts.standard [] {} = (.ok (.bool true), { nextFunction := 2 }))
      ∧ ((thunkFn 1).invoke Hosts.standard [] {}).1 = .error (.recursionLimit 1)
      ∧ ∀ limit, ((thunkFn 1).invoke Hosts.standard [] {}).1 = .error (.recursionLimit limit) →
        limit = 1 := by
  have hone : thunk.compileBy .baseline { maxCallDepth := 1 } false = .ok (thunkFn 1) := rfl
  have htwo : thunk.compileBy .baseline { maxCallDepth := 2 } false = .ok (thunkFn 2) := rfl
  have hfull : ((thunkFn 1).invoke Hosts.standard [] {}).1 = .error (.recursionLimit 1) := by
    simp [CompiledFn.invoke, thunkFn, thunk, call, checkParameters, firstMisfit?,
      CallStack.during, CallStack.enter, CallStack.new, eval, evalAll, Outcome.bind, Outcome.done,
      Supply.function]
  have hresult : (thunkFn 2).invoke Hosts.standard [] {}
      = (.ok (.bool true), { nextFunction := 2 }) := by
    simp [CompiledFn.invoke, thunkFn, thunk, call, checkParameters, firstMisfit?,
      CallStack.during, CallStack.enter, CallStack.new, eval, evalAll, Outcome.bind, Outcome.done,
      Supply.function]
  -- two nested calls are enough, and one is not
  obtain ⟨raised, hraised, hinvoke⟩ := invoke_raised {} (by decide : 2 ≤ 5) htwo
  obtain ⟨_, _, hlimit⟩ := invoke_raised {} (by decide : 1 ≤ 5) hone
  refine ⟨hone, htwo, ⟨raised, hraised, ?_⟩, hfull,
    (hlimit Hosts.standard [] {}).2 Hosts.standard_unlimited⟩
  rw [(hinvoke Hosts.standard [] {}).1 (by simp [hresult]), hresult]

end Lambda

end ExprTree

import ExprTree.Proofs.Function.Compilation
import ExprTree.Proofs.Session
import ExprTree.Proofs.Tree.Occurrence

namespace ExprTree

/-!
# Lexical scoping

A tree that is walked looks its parameters up in an environment, which a closure keeps
for longer than the calls last that it was made of.  `Lambda.Site` ties the two sides
together: the tree stands somewhere in a lambda, and its environment holds one call of
each lambda around it there, innermost first.

These are the calls that really were made.  The first one is the call that is running
(`Task.running?`), with the arguments that it got; each of the others was running when
the closure was made which the call before it called.  A moment at which that happened
is among the ones that are known of (`TreeCall.Made`).

What a parameter then stands for is its argument in the innermost of these calls that
binds it (`TreeCall.lookup?_frames`), and in a lambda that validation accepts there is
one.  By `Session.Reachable.resolves_lexically` no look-up ever comes back with nothing.
-/

/-! ### Calls of closures over trees -/

/-- A call of a closure over a tree: the closure, and the arguments that it got. -/
structure TreeCall where
  params : List Parameter
  body : Expr Value
  env : Env Value
  args : List Value

/-- The call whose body is running: the innermost one of the tasks around.  There is none
    if that call is not one of a closure over a tree. -/
def Task.running? : List Task → Option TreeCall
  | [] => none
  | .call (.interpreted params body env) args :: _ => some ⟨params, body, env, args⟩
  | .call _ _ :: _ => none
  | .tree _ _ :: around | .code _ _ :: around => running? around

namespace TreeCall

/-- What the call adds to the environment. -/
def frame (call : TreeCall) : Frame Value := Frame.bind call.params call.args

/-- The environment in which the body is walked. -/
def inner (call : TreeCall) : Env Value := call.frame :: call.env

/-- The argument of a parameter, in the innermost call of a lambda that declares it. -/
def innermost? : List TreeCall → Parameter → Option Value
  | [], _ => none
  | call :: outer, param =>
    if param ∈ call.params then call.args[call.params.idxOf param]? else innermost? outer param

variable {call : TreeCall} {calls : List TreeCall}

/-- One argument for each parameter, and no parameter twice. -/
structure Regular (call : TreeCall) : Prop where
  nodup : call.params.Nodup
  length_eq : call.params.length = call.args.length

/-- The parameters of a call are bound to its arguments, each to the one in its place. -/
theorem lookup?_frame (h : call.Regular) (param : Parameter) :
    call.frame.lookup? param
      = if param ∈ call.params then call.args[call.params.idxOf param]? else none := by
  rw [frame, Frame.lookup?_bind h.length_eq]
  cases hindex : lastIndexOf? param call.params with
  | none =>
    rw [if_neg (lastIndexOf?_eq_none.1 hindex)]
    rfl
  | some index =>
    obtain ⟨hlt, rfl⟩ := List.getElem?_eq_some_iff.1 (getElem?_of_lastIndexOf? hindex)
    rw [if_pos (List.getElem_mem hlt), h.nodup.idxOf_getElem index hlt]
    rfl

/-- The argument of a declared parameter. -/
theorem getElem?_idxOf (h : call.Regular) {param : Parameter} (hparam : param ∈ call.params) :
    ∃ value, call.args[call.params.idxOf param]? = some value :=
  ⟨_, List.getElem?_eq_getElem (h.length_eq ▸ List.idxOf_lt_length_of_mem hparam)⟩

/-- **An environment of calls gives a parameter its innermost argument.** -/
theorem lookup?_frames (h : ∀ call ∈ calls, call.Regular) (param : Parameter) :
    Env.lookup? (calls.map (·.frame)) param = innermost? calls param := by
  induction calls with
  | nil => rfl
  | cons call outer ih =>
    obtain ⟨hregular, houter⟩ := List.forall_mem_cons.1 h
    rw [List.map_cons, Env.lookup?, lookup?_frame hregular, innermost?]
    split
    · rename_i hparam
      obtain ⟨value, hvalue⟩ := getElem?_idxOf hregular hparam
      rw [hvalue]
      rfl
    · exact ih houter

/-- A parameter that is declared somewhere has an argument. -/
theorem exists_innermost? (h : ∀ call ∈ calls, call.Regular) {param : Parameter}
    (hparam : ∃ params ∈ calls.map (·.params), param ∈ params) :
    ∃ value, innermost? calls param = some value := by
  induction calls with
  | nil => simp at hparam
  | cons call outer ih =>
    obtain ⟨hregular, houter⟩ := List.forall_mem_cons.1 h
    rw [innermost?]
    split
    · exact getElem?_idxOf hregular ‹_›
    · rename_i hnot
      exact ih houter (by simpa [hnot] using hparam)

/-- Where a closure was made: at a moment when its lambda was evaluated in its environment,
    while the first of the `outer` calls was running.  Where there are none, it is the
    function that was compiled, which no call has made. -/
def Made (performed : List Task → Task → Prop) (outer : List TreeCall) (params : List Parameter)
    (body : Expr Value) (env : Env Value) : Prop :=
  ∀ creator ∈ outer.head?, ∃ around, performed around (.tree (.lambda params body) env)
    ∧ Task.running? around = some creator

end TreeCall

/-! ### Sites -/

/-- A tree at its place in a lambda, with an environment, and the calls whose arguments
    this holds, innermost first: one of each of the lambdas around the tree.

* `root` — the lambda by itself, around which there is nothing;
* `operand` — an operand stands where its node does;
* `body` — a closure that was made at the place of its lambda is called, on arguments
  that this accepts: its body is walked with these arguments bound. -/
inductive Lambda.Site (lambda : Lambda Value) (performed : List Task → Task → Prop) :
    List TreeCall → Expr Value → Env Value → Prop
  | root : Site lambda performed [] lambda.toExpr []
  | operand {calls : List TreeCall} {expr sub : Expr Value} {env : Env Value} :
      Site lambda performed calls expr env → sub ∈ expr.children →
      Site lambda performed calls sub env
  | body {outer : List TreeCall} {call : TreeCall} :
      Site lambda performed outer (.lambda call.params call.body) call.env →
      TreeCall.Made performed outer call.params call.body call.env →
      checkParameters call.params call.args = .ok () →
      Site lambda performed (call :: outer) call.body call.inner

namespace Lambda.Site

variable {lambda : Lambda Value} {performed performed' : List Task → Task → Prop}
  {calls : List TreeCall} {expr : Expr Value} {env : Env Value}

/-- The lambdas of the calls are those around the tree. -/
theorem occurs (h : lambda.Site performed calls expr env) :
    lambda.Occurs (calls.map (·.params)) expr := by
  induction h with
  | root => exact .root
  | operand _ hsub ih => exact .operand ih hsub
  | body _ _ _ ih => exact .body ih

/-- The arguments of every call around a site were accepted. -/
theorem accepted (h : lambda.Site performed calls expr env) :
    ∀ call ∈ calls, checkParameters call.params call.args = .ok () := by
  induction h with
  | root => exact List.forall_mem_nil _
  | operand _ _ ih => exact ih
  | body _ _ hcheck ih => exact List.forall_mem_cons.2 ⟨hcheck, ih⟩

/-- **Every frame was pushed by its call**: the environment binds the arguments of the calls,
    and nothing else. -/
theorem env_eq (h : lambda.Site performed calls expr env) : env = calls.map (·.frame) := by
  induction h with
  | root => rfl
  | operand _ _ ih => exact ih
  | body _ _ _ ih => rw [TreeCall.inner, ih, List.map_cons]

/-- In a valid lambda all calls around a tree bind what is declared there, once. -/
theorem regular (h : lambda.Site performed calls expr env) {limit : Nat} {ty : Ty}
    (hvalid : lambda.validate limit = .ok ty) : ∀ call ∈ calls, call.Regular :=
  fun call hcall =>
    ⟨h.occurs.nodup hvalid _ (List.mem_map_of_mem hcall),
      (checkParameters_eq_ok.1 (h.accepted call hcall)).length_eq⟩

/-- **A parameter of a valid lambda is found**, and stands for its innermost argument. -/
theorem resolve {param : Parameter} (h : lambda.Site performed calls (.parameter param) env)
    {limit : Nat} {ty : Ty} (hvalid : lambda.validate limit = .ok ty) :
    ∃ value, TreeCall.innermost? calls param = some value ∧ env.resolve param = .ok value := by
  have hregular := h.regular hvalid
  obtain ⟨value, hvalue⟩ := TreeCall.exists_innermost? hregular (h.occurs.declared hvalid)
  refine ⟨value, hvalue, ?_⟩
  rw [Env.resolve, h.env_eq, TreeCall.lookup?_frames hregular, hvalue]

/-- There may be more moments at which closures were made. -/
theorem mono (hle : ∀ around task, performed around task → performed' around task)
    (h : lambda.Site performed calls expr env) : lambda.Site performed' calls expr env := by
  induction h with
  | root => exact .root
  | operand _ hsub ih => exact .operand ih hsub
  | body _ hmade hcheck ih =>
    refine .body ih (fun creator hcreator => ?_) hcheck
    obtain ⟨around, hperformed, hrunning⟩ := hmade creator hcreator
    exact ⟨around, hle _ _ hperformed, hrunning⟩

end Lambda.Site

/-! ### The invariant -/

section

variable (sources : Lambda Value → Prop) (performed : List Task → Task → Prop)

/-- A tree at a place in one of the sources, in the body of the call that is running. -/
def Expr.Stands (around : List Task) (expr : Expr Value) (env : Env Value) : Prop :=
  ∃ lambda running outer, sources lambda ∧ Task.running? around = some running
    ∧ lambda.Site performed (running :: outer) expr env

/-- A closure over a tree was made at a place in one of the sources.  Other functions
    walk nothing. -/
def Callable.Stands : Callable Value → Prop
  | interpreted params body env => ∃ lambda outer, sources lambda
    ∧ lambda.Site performed outer (.lambda params body) env
    ∧ TreeCall.Made performed outer params body env
  | _ => True

/-- All trees that are walked stand in the sources. -/
def TaskInvariant.lexical : TaskInvariant where
  Calls := Callable.Stands sources performed
  Walks := Expr.Stands sources performed
  Executes _ _ := True
  Happens := performed
  native := ⟨⟩
  operand := by
    rintro around expr sub env ⟨lambda, running, outer, hsource, hrunning, hsite⟩ hsub
    exact ⟨lambda, running, outer, hsource, hrunning, hsite.operand hsub⟩
  lambda := by
    -- the closure is made here and now, by the call that is running
    rintro around params body env ⟨lambda, running, outer, hsource, hrunning, hsite⟩ hhappens
    refine ⟨lambda, running :: outer, hsource, hsite, fun creator hcreator => ?_⟩
    cases hcreator
    exact ⟨around, hhappens, hrunning⟩
  walk := by
    rintro around params body env args ⟨lambda, outer, hsource, hsite, hmade⟩ hcheck
    exact ⟨lambda, ⟨params, body, env, args⟩, outer, hsource, rfl, .body hsite hmade hcheck⟩
  piece _ _ := ⟨⟩
  closure _ _ := ⟨⟩
  run _ _ := ⟨⟩

end

/-- A callable stands for its lambda whatever further lambdas and moments are known of. -/
theorem Callable.Stands.mono {sources sources' : Lambda Value → Prop}
    {performed performed' : List Task → Task → Prop}
    (hsources : ∀ lambda, sources lambda → sources' lambda)
    (hperformed : ∀ around task, performed around task → performed' around task)
    {callable : Callable Value} (h : callable.Stands sources performed) :
    callable.Stands sources' performed' := by
  cases callable with
  | interpreted =>
    obtain ⟨lambda, outer, hsource, hsite, hmade⟩ := h
    refine ⟨lambda, outer, hsources lambda hsource, hsite.mono hperformed, ?_⟩
    intro creator hcreator
    obtain ⟨around, hmoment, hrunning⟩ := hmade creator hcreator
    exact ⟨around, hperformed _ _ hmoment, hrunning⟩
  | _ => trivial

/-- What is found where it is looked for is not missing. -/
theorem Task.Fails.of_undefinedParameter {hosts : Hosts} {task : Task} {name : String}
    (h : task.Fails hosts (.undefinedParameter name))
    (hresolves : ∀ param env, task = .tree (.parameter param) env →
      ∃ value, env.resolve param = .ok value) :
    ∃ host args supply, (hosts host args supply).1 = .error (.undefinedParameter name) := by
  rcases h.origin with hoperational | hhost | ⟨param, env, htask, hresolve⟩ | ⟨_, heq⟩
  · exact hoperational.elim
  · exact hhost
  · obtain ⟨value, hvalue⟩ := hresolves param env htask
    rw [hvalue] at hresolve
    cases hresolve
  · cases heq

/-! ### Sessions -/

/-- A compiled function is code, or walks the tree of its lambda. -/
theorem Lambda.stands_of_compileBy {lambda : Lambda Value} {strategy : Strategy}
    {options : CompilerOptions} {strict : Bool} {fn : CompiledFn}
    (h : lambda.compileBy strategy options strict = .ok fn) {sources : Lambda Value → Prop}
    (hsource : fn.callable = .interpreted lambda.params lambda.body [] → sources lambda)
    (performed : List Task → Task → Prop) : fn.callable.Stands sources performed := by
  have hinterpret : fn = lambda.interpret options → fn.callable.Stands sources performed := by
    rintro rfl
    exact ⟨lambda, [], hsource rfl, .root, fun _ hnone => by cases hnone⟩
  obtain ⟨⟨ty, hvalidate⟩, _⟩ := compileBy_eq_ok h
  cases strategy with
  | baseline =>
    have h : lambda.compile options = .ok fn := h
    rw [compile_of_ok hvalidate] at h
    cases h
    exact hinterpret rfl
  | fast =>
    rcases compileFast_eq_ok h with ⟨callable, plan, hemit, rfl⟩ | hfn
    · rw [emit_eq] at hemit
      split at hemit
      · cases hemit
      · split at hemit <;> cases hemit
        trivial
    · exact hinterpret hfn

namespace Session

variable {session next : Session}

/-- The lambdas whose trees are walked: valid ones, of functions at hand. -/
def Walks (session : Session) (lambda : Lambda Value) : Prop :=
  (∃ fn ∈ session.functions, fn.callable = .interpreted lambda.params lambda.body [])
    ∧ ∃ limit ty, lambda.validate limit = .ok ty

/-- Functions stay at hand, and calls are not forgotten. -/
theorem Step.subset (h : session.Step next) :
    session.functions ⊆ next.functions ∧ session.calls ⊆ next.calls := by
  cases h with
  | compile => exact ⟨List.subset_cons_self _ _, List.Subset.refl _⟩
  | instantiate =>
    rw [functions_after, calls_after]
    exact ⟨List.Subset.refl _, List.Subset.refl _⟩
  | invoke | call =>
    rw [making, functions_after]
    exact ⟨List.Subset.refl _, List.subset_cons_self _ _⟩
  | _ => exact ⟨List.Subset.refl _, List.Subset.refl _⟩

/-- A lambda that is walked is walked in all later sessions. -/
theorem Walks.of_step {lambda : Lambda Value} (h : session.Walks lambda)
    (hstep : session.Step next) : next.Walks lambda := by
  obtain ⟨⟨fn, hfn, hcallable⟩, hvalid⟩ := h
  exact ⟨⟨fn, hstep.subset.1 hfn, hcallable⟩, hvalid⟩

/-- A moment of a run that was performed before a step was performed after it, too. -/
theorem Performed.of_step {around : List Task} {task : Task} (h : session.Performed around task)
    (hstep : session.Step next) : next.Performed around task := by
  obtain ⟨made, hmade, hperforms⟩ := h
  exact ⟨made, hstep.subset.2 hmade, hperforms⟩

/-- There may be more sources, and more moments. -/
theorem Upholds.mono_lexical {sources sources' : Lambda Value → Prop}
    {performed performed' : List Task → Task → Prop}
    (hsources : ∀ lambda, sources lambda → sources' lambda)
    (hperformed : ∀ around task, performed around task → performed' around task)
    (h : session.Upholds (.lexical sources performed)) :
    session.Upholds (.lexical sources' performed') := by
  have hadmits : ∀ value, (TaskInvariant.lexical sources performed).Admits value →
      (TaskInvariant.lexical sources' performed').Admits value := by
    intro value hvalue
    cases value with
    | function => exact Callable.Stands.mono hsources hperformed hvalue
    | _ => trivial
  exact ⟨h.values.mono hadmits, fun fn hfn =>
    ⟨(h.functions fn hfn).1.mono hsources hperformed, (h.functions fn hfn).2.mono hadmits⟩⟩

/-- Every closure at hand was made in one of the calls so far, at a place in a lambda that
    the session walks. -/
theorem Reachable.upholds_lexical (h : session.Reachable) :
    session.Upholds (.lexical session.Walks session.Performed) := by
  induction h with
  | refl => exact ⟨nofun, nofun⟩
  | @tail before after hreachable hstep ih =>
    -- the old sources are still there, and a new function brings its own lambda
    have hmono := ih.mono_lexical (fun _ hwalks => hwalks.of_step hstep)
      fun _ _ hperformed => hperformed.of_step hstep
    refine hmono.of_step (Reachable.valid hreachable) hstep (fun hcompile hfn => ?_)
      fun _ _ hperformed => hperformed
    exact Lambda.stands_of_compileBy hcompile (fun hcallable =>
      ⟨⟨_, hfn, hcallable⟩, _, (Lambda.compileBy_eq_ok hcompile).1⟩) _

/-- A parameter is looked up at a place in one of the valid lambdas whose trees the
    session walks.  The environment holds the arguments of one call of each lambda around
    that place: first of the call that is running, and then of the calls that were running
    when the closures on the way were made.  The look-up gives the argument of the
    innermost of these calls whose lambda declares the parameter. -/
def ResolvesLexically (session : Session) (around : List Task) (param : Parameter)
    (env : Env Value) : Prop :=
  ∃ lambda running outer value, session.Walks lambda ∧ Task.running? around = some running
    ∧ lambda.Site session.Performed (running :: outer) (.parameter param) env
    ∧ (∀ call ∈ running :: outer, call.Regular)
    ∧ TreeCall.innermost? (running :: outer) param = some value ∧ env.resolve param = .ok value

/-- A parameter that stands in one of them is found. -/
theorem ResolvesLexically.of_stands {around : List Task} {param : Parameter} {env : Env Value}
    (h : Expr.Stands session.Walks session.Performed around (.parameter param) env) :
    session.ResolvesLexically around param env := by
  obtain ⟨lambda, running, outer, hwalks, hrunning, hsite⟩ := h
  obtain ⟨limit, ty, hvalid⟩ := hwalks.2
  obtain ⟨value, hinnermost, hresolve⟩ := hsite.resolve hvalid
  exact ⟨lambda, running, outer, value, hwalks, hrunning, hsite, hsite.regular hvalid, hinnermost,
    hresolve⟩

/-- **Look-ups follow the source.**  Whatever a session calls with anything at hand, be
    it a function that it compiled or a closure that escaped from an earlier call, every
    parameter that is looked up on the way stands for the argument that its source says.
    So an error about a parameter that is not there is one that the host made up. -/
theorem Reachable.resolves_lexically (h : session.Reachable) {made : Call}
    (hhosts : made.hosts.Builds session.Knows) (hcallable : session.CanCall made.callable)
    (hargs : made.args ⊆ session.values) :
    (∀ around param env, made.Performs around (.tree (.parameter param) env) →
        (session.making made).ResolvesLexically around param env)
    ∧ ∀ name, made.outcome.1 = .error (.undefinedParameter name) →
        ∃ host args supply,
          (made.hosts host args supply).1 = .error (.undefinedParameter name) := by
  -- what is at hand comes from the calls so far, and what comes up now from this one, too
  have hupholds : session.Upholds
      (.lexical (session.making made).Walks (session.making made).Performed) := by
    refine h.upholds_lexical.mono_lexical (fun lambda hwalks => ?_) fun around task hperformed => ?_
    · obtain ⟨⟨fn, hfn, hcallable⟩, hvalid⟩ := hwalks
      exact ⟨⟨fn, (functions_after session made.outcome).symm ▸ hfn, hcallable⟩, hvalid⟩
    · obtain ⟨earlier, hearlier, hperforms⟩ := hperformed
      exact ⟨earlier, List.mem_cons_of_mem _ hearlier, hperforms⟩
  have hhosted := hupholds.hosted hhosts
  have hholds := hupholds.holds hcallable hargs
  have hwatches : TaskInvariant.Watches (.lexical (session.making made).Walks
      (session.making made).Performed) made.hosts made.machine :=
    fun later hreaches around task hperforms =>
      ⟨made, List.mem_cons_self .., later, hreaches, hperforms⟩
  refine ⟨fun around param env hperforms => ?_, fun name hresult => ?_⟩
  · obtain ⟨later, hreaches, hperforms⟩ := hperforms
    exact .of_stands ((Machine.keeps_of_reaches hhosted hholds hwatches hreaches).tasks
      hperforms).1
  · rcases error_of_call hhosted hholds hwatches hresult with heq | ⟨around, task, hholds, hfails⟩
    · cases heq
    · refine hfails.of_undefinedParameter fun param env htask => ?_
      rw [htask] at hholds
      obtain ⟨_, _, _, value, _, _, _, _, _, hresolve⟩ := ResolvesLexically.of_stands hholds.1
      exact ⟨value, hresolve⟩

/-- A lambda whose argument is read by another lambda in it. -/
def pick : Lambda Value :=
  ⟨[⟨1, "x", .bool⟩], .lambda [⟨2, "y", .bool⟩] (.parameter ⟨1, "x", .bool⟩)⟩

/-- What the baseline makes of `pick`. -/
def pickFn : CompiledFn :=
  ⟨.interpreted pick.params pick.body [], .baseline, CallStack.defaultLimit, none⟩

/-- The closure that escapes from a call of `pick`. -/
def pickedClosure : Callable Value :=
  .interpreted [⟨2, "y", .bool⟩] (.parameter ⟨1, "x", .bool⟩)
    [[(⟨1, "x", .bool⟩, .bool true)]]

/-- The call of `pick`. -/
def picking : Call :=
  ⟨Hosts.standard, pickFn.callable, [.bool true], .new pickFn.maxCallDepth, {}⟩

/-- After `pick` was compiled and run. -/
def picked : Session :=
  ⟨{ nextFunction := 2 }, [.function 1 pickedClosure, .bool false, .bool true], [pickFn], [picking]⟩

/-- The session creates both truth values, compiles the function and calls it with the first. -/
theorem reachable_picked : picked.Reachable := by
  have houtcome : picking.outcome = (.ok (.function 1 pickedClosure), { nextFunction := 2 }) := by
    simp [Call.outcome, picking, pickFn, pick, pickedClosure, call, checkParameters, firstMisfit?,
      Ty.accepts, CallStack.during, CallStack.enter, CallStack.new, CallStack.defaultLimit, eval,
      Frame.bind, Outcome.done, Supply.function]
  have htrue : start.Step ⟨{}, [.bool true], [], []⟩ := .scalar rfl
  have hfalse : Step ⟨{}, [.bool true], [], []⟩ ⟨{}, [.bool false, .bool true], [], []⟩ :=
    .scalar rfl
  have hcompiled : pick.compileBy .baseline {} false = .ok pickFn := rfl
  have hcompile : Step ⟨{}, [.bool false, .bool true], [], []⟩
      ⟨{}, [.bool false, .bool true], [pickFn], []⟩ := .compile (List.nil_subset _) hcompiled
  have hcall : Step ⟨{}, [.bool false, .bool true], [pickFn], []⟩
      (making ⟨{}, [.bool false, .bool true], [pickFn], []⟩ picking) :=
    .invoke (Hosts.standard_builds _) (List.mem_singleton.2 rfl) (List.subset_cons_self _ _)
  -- the session goes on with the closure that the call gave
  rw [making, houtcome] at hcall
  exact (((Relation.ReflTransGen.single htrue).tail hfalse).tail hcompile).tail hcall

/-- The closure that escaped is called, on `false`. -/
def recalling : Call := ⟨Hosts.standard, pickedClosure, [.bool false], .new 1, {}⟩

/-- The closure that escaped finds the argument of the call that made it. -/
theorem resolves_lexically_picked :
    picked.Reachable ∧ Hosts.standard.Builds picked.Knows ∧ picked.CanCall pickedClosure
      ∧ [.bool false] ⊆ picked.values
      ∧ (picked.making recalling).ResolvesLexically [.call pickedClosure [.bool false]]
          ⟨1, "x", .bool⟩ [[(⟨2, "y", .bool⟩, .bool false)], [(⟨1, "x", .bool⟩, .bool true)]]
      ∧ ∀ name, recalling.outcome.1 = .error (.undefinedParameter name) →
        ∃ host args supply,
          (Hosts.standard host args supply).1 = .error (.undefinedParameter name) := by
  have hcallable : picked.CanCall recalling.callable := .inr ⟨1, List.mem_cons_self ..⟩
  have hhosts : recalling.hosts.Builds picked.Knows := Hosts.standard_builds _
  have hargs : recalling.args ⊆ picked.values := by simp [recalling, picked]
  obtain ⟨hresolves, hresult⟩ :=
    reachable_picked.resolves_lexically hhosts hcallable hargs
  -- the body is walked right after the call has been entered
  have hbody : recalling.machine.Reaches Hosts.standard
      ⟨none, [⟨.tree (.parameter ⟨1, "x", .bool⟩)
          [[(⟨2, "y", .bool⟩, .bool false)], [(⟨1, "x", .bool⟩, .bool true)]], [],
          ⟨1, 1, Nat.le_refl 1⟩⟩,
        ⟨.call pickedClosure [.bool false], [], .new 1⟩], ⟨1, 1, Nat.le_refl 1⟩, {}⟩ :=
    .single rfl
  exact ⟨reachable_picked, hhosts, hcallable, hargs,
    hresolves _ _ _ ⟨_, hbody, List.suffix_rfl⟩, hresult⟩

end Session

end ExprTree

import ExprTree.Proofs.Function.Denotation
import ExprTree.Proofs.Host
import ExprTree.Proofs.Run.Invariant

namespace ExprTree

/-!
# Sessions

A session is what a program that uses this library has at hand at a moment: the
next ids, values, and compiled functions.  `Session.Step` lists what it can do
next, and a reachable session is one that comes about from nothing in that way.  The
calls that it has made are kept, so that one can say where a closure comes from.

In every reachable session the objects are what the constructors of their classes
accept (`Session.Reachable.objects_fit`), although code that is compiled from a
reduction was never validated, and compiled code leaves checks out.

`Session.Upholds` says that an invariant of tasks holds of everything at hand.  Then it
holds of every call that the session makes, and of what the session has afterwards.
-/

/-- A call that is made from outside, of a function on arguments: with a host, and with a
    call stack and ids to start with. -/
structure Session.Call where
  hosts : Hosts
  callable : Callable Value
  args : List Value
  stack : CallStack
  supply : Supply

namespace Session.Call

/-- What the call gives, and the ids that it leaves. -/
def outcome (made : Call) : Except RuntimeError Value × Supply :=
  let outcome := call made.hosts made.callable made.args made.stack made.supply
  (outcome.result, outcome.supply)

/-- The machine that carries out the call. -/
def machine (made : Call) : Machine :=
  .start (.call made.callable made.args) made.stack made.supply

/-- A task comes up while the call runs, with certain tasks around it. -/
def Performs (made : Call) (around : List Task) (task : Task) : Prop :=
  ∃ later, made.machine.Reaches made.hosts later ∧ later.Performs around task

end Session.Call

/-- The next ids, with the values and the compiled functions at hand, and the calls that
    have been made. -/
structure Session where
  supply : Supply
  values : List Value
  functions : List CompiledFn
  calls : List Session.Call

namespace Session

/-- What is at hand and everything that it holds. -/
def Knows (session : Session) (value : Value) : Prop :=
  (∃ held ∈ session.values, held.Holds value)
    ∨ ∃ fn ∈ session.functions, ∃ part ∈ fn.callable.parts, part.Holds value

/-- A function at hand, compiled or as a value. -/
def CanCall (session : Session) (callable : Callable Value) : Prop :=
  (∃ fn ∈ session.functions, fn.callable = callable)
    ∨ ∃ id, Value.function id callable ∈ session.values

/-- A task came up in one of the calls that were made, with certain tasks around it. -/
def Performed (session : Session) (around : List Task) (task : Task) : Prop :=
  ∃ made ∈ session.calls, made.Performs around task

/-- The session after a result, which is at hand from then on unless it is an error. -/
def after (session : Session) (outcome : Except RuntimeError Value × Supply) : Session :=
  match outcome.1 with
  | .ok value => { session with supply := outcome.2, values := value :: session.values }
  | .error _ => { session with supply := outcome.2 }

/-- The session after a call. -/
def making (session : Session) (made : Call) : Session :=
  { session.after made.outcome with calls := made :: session.calls }

/-- The session with a new function at hand as a value. -/
def defining (session : Session) (callable : Callable Value) : Session :=
  { session with
    supply := (session.supply.function callable).2
    values := (session.supply.function callable).1 :: session.values }

/-- What a call gives is a value; it compiles nothing. -/
theorem functions_after (session : Session) (outcome : Except RuntimeError Value × Supply) :
    (session.after outcome).functions = session.functions := by
  unfold after
  split <;> rfl

/-- What a call gives is at hand whether or not the call is kept. -/
theorem calls_after (session : Session) (outcome : Except RuntimeError Value × Supply) :
    (session.after outcome).calls = session.calls := by
  unfold after
  split <;> rfl

/-- Nothing is at hand. -/
def start : Session := ⟨{}, [], [], []⟩

/-- What can be done in a session.

* `scalar`, `native` and `part` — writing down a scalar, defining a function of
  the host that captures values at hand, and taking out something that a value holds;
* `declare` — taking ids for classes and parameters;
* `instantiate` — calling a constructor;
* `compile` and `toValue` — compiling a lambda over the values at hand, by either
  strategy, and making a value of the function;
* `invoke` and `call` — running a compiled function or a function value.  The host
  may be another one each time, and builds on what the session knows. -/
inductive Step (session : Session) : Session → Prop
  | scalar {value : Value} : value.isScalar = true →
      Step session { session with values := value :: session.values }
  | native {name : String} {arity : Nat} {host : HostFunction Value} :
      host.captured ⊆ session.values → Step session (session.defining (.native name arity host))
  | part {value part : Value} : value ∈ session.values → part ∈ value.parts →
      Step session { session with values := part :: session.values }
  | declare {supply : Supply} : session.supply.Before supply →
      Step session { session with supply }
  | instantiate {cls : ClassDef} {args : List Value} : args ⊆ session.values →
      Step session (session.after (cls.instantiate args session.supply))
  | compile {lambda : Lambda Value} {strategy : Strategy} {options : CompilerOptions}
      {strict : Bool} {fn : CompiledFn} : lambda.parts ⊆ session.values →
      lambda.compileBy strategy options strict = .ok fn →
      Step session { session with functions := fn :: session.functions }
  | toValue {fn : CompiledFn} : fn ∈ session.functions →
      Step session (session.defining fn.callable)
  | invoke {hosts : Hosts} {fn : CompiledFn} {args : List Value} :
      hosts.Builds session.Knows → fn ∈ session.functions → args ⊆ session.values →
      Step session
        (session.making ⟨hosts, fn.callable, args, .new fn.maxCallDepth, session.supply⟩)
  | call {hosts : Hosts} {id limit : Nat} {callable : Callable Value} {args : List Value} :
      hosts.Builds session.Knows → .function id callable ∈ session.values →
      args ⊆ session.values →
      Step session (session.making ⟨hosts, callable, args, .new limit, session.supply⟩)

/-- A session that comes about from nothing. -/
def Reachable (session : Session) : Prop := Relation.ReflTransGen Step start session

/-! ### The invariant -/

/-- Everything at hand is in play. -/
def Valid (session : Session) : Prop :=
  ∃ known, InPlay session.supply known
    ∧ Value.AllOf known session.values
    ∧ ∀ fn ∈ session.functions, fn.callable.Fits ∧ Value.AllOf known fn.callable.parts

/-- With nothing at hand there is nothing that could be wrong. -/
theorem valid_start : start.Valid :=
  ⟨_, .start _, by simp [Value.AllOf, start], by simp [start]⟩

variable {session next : Session}

/-- What is known is in play. -/
theorem knows_of_values {known : Value → Prop} (hvalues : Value.AllOf known session.values)
    (hfunctions : ∀ fn ∈ session.functions, Value.AllOf known fn.callable.parts) :
    ∀ value, session.Knows value → known value := by
  rintro value (⟨held, hheld, hvalue⟩ | ⟨fn, hfn, part, hpart, hvalue⟩)
  · exact hvalues held hheld value hvalue
  · exact hfunctions fn hfn part hpart value hvalue

/-- A result that is in play is at hand. -/
theorem valid_after {known known' : Value → Prop} {outcome : Except RuntimeError Value × Supply}
    (hle : ∀ value, known value → known' value) (hplay : InPlay outcome.2 known')
    (hvalues : Value.AllOf known session.values)
    (hfunctions : ∀ fn ∈ session.functions,
      fn.callable.Fits ∧ Value.AllOf known fn.callable.parts)
    (hresult : ∀ value, outcome.1 = .ok value → value.All known') :
    (session.after outcome).Valid := by
  have hfunctions : ∀ fn ∈ session.functions,
      fn.callable.Fits ∧ Value.AllOf known' fn.callable.parts :=
    fun fn hfn => ⟨(hfunctions fn hfn).1, (hfunctions fn hfn).2.mono hle⟩
  -- a call that fails leaves the values as they are
  unfold after
  split
  · rename_i value hvalue
    exact ⟨known', hplay, List.forall_mem_cons.2 ⟨hresult value hvalue, hvalues.mono hle⟩,
      hfunctions⟩
  · exact ⟨known', hplay, hvalues.mono hle, hfunctions⟩

/-- A new function over values in play is at hand. -/
theorem valid_defining {known : Value → Prop} (hplay : InPlay session.supply known)
    (hvalues : Value.AllOf known session.values)
    (hfunctions : ∀ fn ∈ session.functions,
      fn.callable.Fits ∧ Value.AllOf known fn.callable.parts)
    {callable : Callable Value} (hfits : callable.Fits)
    (hparts : Value.AllOf known callable.parts) : (session.defining callable).Valid := by
  have hparts' := hparts.mono fun value hvalue =>
    (Or.inl hvalue : known value ∨ value = (session.supply.function callable).1)
  exact ⟨_, hplay.insert_function hfits,
    List.forall_mem_cons.2 ⟨Value.all_iff.2 ⟨.inr rfl, hparts'⟩, hvalues.mono fun _ => .inl⟩,
    fun fn hfn => ⟨(hfunctions fn hfn).1, (hfunctions fn hfn).2.mono fun _ => .inl⟩⟩

/-- A call of a function at hand leaves a valid session. -/
theorem valid_making {known : Value → Prop} (hplay : InPlay session.supply known)
    (hvalues : Value.AllOf known session.values)
    (hfunctions : ∀ fn ∈ session.functions,
      fn.callable.Fits ∧ Value.AllOf known fn.callable.parts)
    {hosts : Hosts} (hhosts : hosts.Builds session.Knows) {callable : Callable Value}
    (hfits : callable.Fits) (hparts : Value.AllOf known callable.parts) {args : List Value}
    (hargs : args ⊆ session.values) (stack : CallStack) :
    (session.making ⟨hosts, callable, args, stack, session.supply⟩).Valid := by
  obtain ⟨known', hle, ⟨hplay, _⟩, hresult⟩ :=
    RunInvariant.callsKeep (.inPlay hhosts) stack.room (Nat.le_refl _)
      ⟨hplay, knows_of_values hvalues fun fn hfn => (hfunctions fn hfn).2⟩ hfits hparts
      (hvalues.of_subset hargs)
  exact valid_after hle hplay hvalues hfunctions hresult

/-- A function that was compiled over values in play is at hand. -/
theorem valid_compiled {known : Value → Prop} (hplay : InPlay session.supply known)
    (hvalues : Value.AllOf known session.values)
    (hfunctions : ∀ fn ∈ session.functions,
      fn.callable.Fits ∧ Value.AllOf known fn.callable.parts)
    {fn : CompiledFn} (hfits : fn.callable.Fits)
    (hparts : ∀ part ∈ fn.callable.parts, part.isPrimitive = true ∨ part.All known) :
    Valid { session with functions := fn :: session.functions } := by
  refine ⟨known, hplay, hvalues, List.forall_mem_cons.2 ⟨⟨hfits, fun part hpart => ?_⟩,
    hfunctions⟩⟩
  rcases hparts part hpart with hprim | hknown
  · have hscalar := Value.isScalar_of_isPrimitive hprim
    exact Value.all_of_parts_eq_nil (Value.parts_of_isScalar hscalar) (hplay.scalar hscalar)
  · exact hknown

/-- What a function holds that was compiled over values at hand is a primitive, or is held
    by these: constants are told apart by their ids, so the pool gives them back. -/
theorem parts_of_compileBy {known P : Value → Prop} (hplay : InPlay session.supply known)
    (hvalues : Value.AllOf known session.values) (hP : Value.AllOf P session.values)
    {lambda : Lambda Value} {strategy : Strategy} {options : CompilerOptions} {strict : Bool}
    {fn : CompiledFn} (hparts : lambda.parts ⊆ session.values)
    (hcompile : lambda.compileBy strategy options strict = .ok fn) :
    fn.callable.Fits
      ∧ ∀ part ∈ fn.callable.parts, part.isPrimitive = true ∨ part.All P := by
  have hcoherent : Value.Coherent fun value => known value ∧ value.All P :=
    hplay.coherent.mono fun value hvalue => hvalue.1
  have hliterals : ∀ c ∈ lambda.literals, known c ∧ c.All P := fun c hc =>
    have hmem := hparts (Expr.literals_subset_parts _ hc)
    ⟨(hvalues c hmem).self, hP c hmem⟩
  -- a constant of the function equals one of the tree, and is then the same one, as
  -- values at hand are coherent
  obtain ⟨⟨target, val, _, hdenotes⟩, hheld⟩ :=
    Lambda.denotes_of_compileBy hcoherent hliterals hcompile
  refine ⟨.inr ⟨target, val, hdenotes⟩, fun part hpart => ?_⟩
  rcases hheld part hpart with hprim | hliteral | hmem
  · exact .inl hprim
  · exact .inr hliteral.2
  · exact .inr (hP part (hparts hmem))

/-- Every step of a valid session leads to a valid one. -/
theorem Valid.of_step (h : session.Valid) (hstep : session.Step next) : next.Valid := by
  obtain ⟨known, hplay, hvalues, hfunctions⟩ := h
  cases hstep with
  | @scalar value hscalar =>
    exact ⟨known, hplay, List.forall_mem_cons.2 ⟨Value.all_of_parts_eq_nil
      (Value.parts_of_isScalar hscalar) (hplay.scalar hscalar), hvalues⟩, hfunctions⟩
  | native hcaptured =>
    exact valid_defining hplay hvalues hfunctions (.inl ⟨_, _, _, rfl⟩)
      (hvalues.of_subset hcaptured)
  | part hvalue hpart =>
    exact ⟨known, hplay, List.forall_mem_cons.2 ⟨(hvalues _ hvalue).part hpart, hvalues⟩,
      hfunctions⟩
  | declare hbefore => exact ⟨known, hplay.of_before hbefore, hvalues, hfunctions⟩
  | @instantiate cls args hargs =>
    have hargs := hvalues.of_subset hargs
    rw [ClassOver.instantiate]
    split
    · exact valid_after (fun _ h => h) hplay hvalues hfunctions fun _ hnone => by cases hnone
    · -- the fields were checked, so the new object fits
      rename_i hcheck
      refine valid_after (fun _ => .inl) (hplay.insert_object
        (ClassOver.checkArguments_eq_ok.1 hcheck)) hvalues hfunctions fun value hvalue => ?_
      cases hvalue
      exact Value.all_iff.2 ⟨.inr rfl, hargs.mono fun _ => .inl⟩
  | compile hparts hcompile =>
    obtain ⟨hfits, hheld⟩ := parts_of_compileBy hplay hvalues hvalues hparts hcompile
    exact valid_compiled hplay hvalues hfunctions hfits hheld
  | toValue hfn =>
    exact valid_defining hplay hvalues hfunctions (hfunctions _ hfn).1 (hfunctions _ hfn).2
  | invoke hhosts hfn hargs =>
    exact valid_making hplay hvalues hfunctions hhosts (hfunctions _ hfn).1 (hfunctions _ hfn).2
      hargs _
  | call hhosts hfunction hargs =>
    have hall := hvalues _ hfunction
    exact valid_making hplay hvalues hfunctions hhosts (hplay.fits hall.self)
      (fun part hpart => hall.part hpart) hargs _

/-- Every reachable session is valid. -/
theorem Reachable.valid (h : session.Reachable) : session.Valid := by
  induction h with
  | refl => exact valid_start
  | tail _ hstep ih => exact ih.of_step hstep

/-- What a function at hand is called with is sound. -/
theorem Valid.sound_call (h : session.Valid) {callable : Callable Value} {args : List Value}
    (hcallable : session.CanCall callable) (hargs : args ⊆ session.values) :
    (Task.call callable args).Sound := by
  obtain ⟨known, hplay, hvalues, hfunctions⟩ := h
  have hargs := (hvalues.of_subset hargs).mono fun _ => hplay.fits
  rcases hcallable with ⟨fn, hfn, rfl⟩ | ⟨id, hfunction⟩
  · exact ⟨(hfunctions fn hfn).1, (hfunctions fn hfn).2.mono fun _ => hplay.fits, hargs⟩
  · have hall := (hvalues _ hfunction).mono fun _ => hplay.fits
    exact ⟨hall.self, fun part hpart => hall.part hpart, hargs⟩

/-! ### Invariants of tasks -/

/-- An invariant of tasks holds of everything at hand. -/
structure Upholds (inv : TaskInvariant) (session : Session) : Prop where
  values : Value.AllOf inv.Admits session.values
  functions : ∀ fn ∈ session.functions,
    inv.Calls fn.callable ∧ Value.AllOf inv.Admits fn.callable.parts

namespace Upholds

variable {inv : TaskInvariant} {hosts : Hosts} {callable : Callable Value} {args : List Value}

/-- What the session upholds is true of every call that it can make. -/
theorem holds (h : session.Upholds inv) (hcallable : session.CanCall callable)
    (hargs : args ⊆ session.values) : inv.Holds [] (.call callable args) := by
  have hargs := h.values.of_subset hargs
  rcases hcallable with ⟨fn, hfn, rfl⟩ | ⟨id, hfunction⟩
  · obtain ⟨hcalls, hparts⟩ := h.functions fn hfn
    exact ⟨hcalls, hparts, hargs⟩
  · have hall := h.values _ hfunction
    exact ⟨hall.self, fun part hpart => hall.part hpart, hargs⟩

/-- A host that builds on what the session knows keeps it. -/
theorem hosted (h : session.Upholds inv) (hhosts : hosts.Builds session.Knows) :
    inv.Hosted hosts := by
  intro host args supply value hcaptured hargs hvalue
  have hknows := knows_of_values h.values fun fn hfn => (h.functions fn hfn).2
  exact hhosts.all (fun _ hscalar => (TaskInvariant.all_of_isScalar hscalar).self) hknows
    (fun _ => trivial) inv.native hcaptured hargs hvalue

/-- A result for which it holds is at hand. -/
theorem after (h : session.Upholds inv) (outcome : Except RuntimeError Value × Supply)
    (hresult : ∀ value, outcome.1 = .ok value → value.All inv.Admits) :
    (session.after outcome).Upholds inv := by
  unfold Session.after
  split
  · rename_i value hvalue
    exact ⟨List.forall_mem_cons.2 ⟨hresult value hvalue, h.values⟩, h.functions⟩
  · exact ⟨h.values, h.functions⟩

/-- What the session upholds is true of the result of a call, if all that comes up in the call
    happens. -/
theorem making (h : session.Upholds inv) {made : Call} (hhosts : made.hosts.Builds session.Knows)
    (hcallable : session.CanCall made.callable) (hargs : made.args ⊆ session.values)
    (hperformed : ∀ around task, (session.making made).Performed around task →
      inv.Happens around task) : (session.making made).Upholds inv := by
  have hwatches : inv.Watches made.hosts made.machine := fun later hreaches around task hperforms =>
    hperformed around task ⟨made, List.mem_cons_self .., later, hreaches, hperforms⟩
  obtain ⟨hvalues, hfunctions⟩ := h.after made.outcome fun value =>
    all_of_call (h.hosted hhosts) (h.holds hcallable hargs) hwatches
  exact ⟨hvalues, hfunctions⟩

/-- A new function for which it holds is at hand as a value. -/
theorem defining (h : session.Upholds inv) (hcalls : inv.Calls callable)
    (hparts : Value.AllOf inv.Admits callable.parts) : (session.defining callable).Upholds inv :=
  ⟨List.forall_mem_cons.2 ⟨Value.all_iff.2 ⟨hcalls, hparts⟩, h.values⟩, h.functions⟩

/-- A session keeps an invariant that holds of the functions it compiles, and that knows
    of all that comes up in its calls. -/
theorem of_step (h : session.Upholds inv) (hvalid : session.Valid) (hstep : session.Step next)
    (hcompile : ∀ {lambda : Lambda Value} {strategy : Strategy} {options : CompilerOptions}
      {strict : Bool} {fn : CompiledFn}, lambda.compileBy strategy options strict = .ok fn →
      fn ∈ next.functions → inv.Calls fn.callable)
    (hperformed : ∀ around task, next.Performed around task → inv.Happens around task) :
    next.Upholds inv := by
  cases hstep with
  | scalar hscalar =>
    exact ⟨List.forall_mem_cons.2 ⟨TaskInvariant.all_of_isScalar hscalar, h.values⟩, h.functions⟩
  | native hcaptured => exact h.defining inv.native (h.values.of_subset hcaptured)
  | part hvalue hpart =>
    exact ⟨List.forall_mem_cons.2 ⟨(h.values _ hvalue).part hpart, h.values⟩, h.functions⟩
  | declare => exact ⟨h.values, h.functions⟩
  | instantiate hargs =>
    exact h.after _ fun value => TaskInvariant.all_of_instantiate (h.values.of_subset hargs)
  | @compile lambda strategy options strict fn hparts hcompiled =>
    obtain ⟨known, hplay, hvalues, _⟩ := hvalid
    obtain ⟨_, hheld⟩ := parts_of_compileBy hplay hvalues h.values hparts hcompiled
    refine ⟨h.values, List.forall_mem_cons.2 ⟨⟨hcompile hcompiled (List.mem_cons_self ..),
      fun part hpart => ?_⟩, h.functions⟩⟩
    -- a constant that was folded is a scalar; any other comes from the values at hand
    rcases hheld part hpart with hprim | hadmits
    · exact TaskInvariant.all_of_isScalar (Value.isScalar_of_isPrimitive hprim)
    · exact hadmits
  | toValue hfn => exact h.defining (h.functions _ hfn).1 (h.functions _ hfn).2
  | invoke hhosts hfn hargs => exact h.making hhosts (.inl ⟨_, hfn, rfl⟩) hargs hperformed
  | call hhosts hfunction hargs => exact h.making hhosts (.inr ⟨_, hfunction⟩) hargs hperformed

end Upholds

/-! ### Objects -/

/-- **Objects are what constructors accept.**  Every object of a reachable session has
    one value for each field of its class, which the type of the field accepts.  And
    no call that the session can make runs into compiled code that makes an object
    of values which the constructor would refuse. -/
theorem Reachable.objects_fit (h : session.Reachable) :
    (∀ id cls fields, session.Knows (.object id cls fields) →
      fields.length = cls.arity ∧ ∀ (index : Nat) (field : Field) value,
        cls.fields[index]? = some field → fields[index]? = some value →
        field.ty.accepts value = true)
    ∧ ∀ hosts callable args, hosts.Builds session.Knows → session.CanCall callable →
      args ⊆ session.values → ∀ cls codes activation,
      Task.Enters hosts (.call callable args) (.code (.construct cls codes) activation) →
      ∀ stack supply values,
        (execAll hosts codes activation stack supply).result = .ok values →
        cls.checkArguments values = .ok () := by
  obtain ⟨known, hplay, hvalues, hfunctions⟩ := h.valid
  have hknows : ∀ value, session.Knows value → value.Fits := fun value hvalue =>
    hplay.fits (knows_of_values hvalues (fun fn hfn => (hfunctions fn hfn).2) value hvalue)
  constructor
  · intro id cls fields hobject
    have hfits : List.Forall₂ (fun (field : Field) value => field.ty.accepts value = true)
        cls.fields fields := hknows _ hobject
    refine ⟨hfits.length_eq.symm, fun index field value hfield hvalue => ?_⟩
    have hrel := forall₂_getElem? hfits index
    rw [hfield, hvalue] at hrel
    cases hrel with
    | some haccepts => exact haccepts
  · intro hosts callable args hhosts hcallable hargs cls codes activation henters stack supply
      values hresult
    -- the code was compiled from a tree, whose types say that the check would pass
    have hsound := hhosts.sound hknows
    exact ((h.valid.sound_call hcallable hargs).of_enters hsound henters).checkArguments hsound
      hresult

/-- A class with one field. -/
def flag : ClassDef := ⟨1, "Flag", [⟨"on", .bool⟩]⟩

/-- A lambda that makes an object, which compiled code need not check. -/
def raise : Lambda Value :=
  ⟨[⟨1, "x", .bool⟩], .new flag [.parameter ⟨1, "x", .bool⟩]⟩

/-- What the fast strategy makes of `raise`. -/
def raiseFn : CompiledFn :=
  ⟨.compiled raise.params (.construct flag [.slot (.argument 0)]) [] [], .fast,
    CallStack.defaultLimit, some ⟨[], [⟨0, ["x"], []⟩], 0, 0⟩⟩

/-- The call of what was compiled from `raise`. -/
def raising : Call :=
  ⟨Hosts.standard, raiseFn.callable, [.bool true], .new raiseFn.maxCallDepth, {}⟩

/-- After `raise` was compiled and run. -/
def raised : Session :=
  ⟨{ nextObject := 2 }, [.object 1 flag [.bool true], .bool true], [raiseFn], [raising]⟩

/-- An object and a function that makes one: both are made by the steps that a program takes. -/
theorem reachable_raised : raised.Reachable := by
  have houtcome : raising.outcome = (.ok (.object 1 flag [.bool true]), { nextObject := 2 }) := by
    simp [Call.outcome, raising, raiseFn, raise, call, checkParameters, firstMisfit?, Ty.accepts,
      CallStack.during, CallStack.enter, CallStack.new, CallStack.defaultLimit, exec, execAll,
      Activation.read, Activation.entry, Outcome.bind, Outcome.done, Supply.object]
  have hscalar : start.Step ⟨{}, [.bool true], [], []⟩ := .scalar rfl
  have hcompiled : raise.compileBy .fast {} true = .ok raiseFn := rfl
  have hcompile : Step ⟨{}, [.bool true], [], []⟩ ⟨{}, [.bool true], [raiseFn], []⟩ :=
    .compile (List.nil_subset _) hcompiled
  have hcall : Step ⟨{}, [.bool true], [raiseFn], []⟩
      (making ⟨{}, [.bool true], [raiseFn], []⟩ raising) :=
    .invoke (Hosts.standard_builds _) (List.mem_singleton.2 rfl) (List.Subset.refl _)
  rw [making, houtcome] at hcall
  exact ((Relation.ReflTransGen.single hscalar).tail hcompile).tail hcall

/-- An object made by compiled code, and another one that the same code would make. -/
theorem objects_fit_raised :
    raised.Reachable ∧ raised.Knows (.object 1 flag [.bool true])
      ∧ [Value.bool true].length = flag.arity
      ∧ flag.checkArguments [.bool true] = .ok () := by
  have hknows : raised.Knows (.object 1 flag [.bool true]) :=
    .inl ⟨_, List.mem_cons_self .., .refl _⟩
  have henters : Task.Enters Hosts.standard (.call raiseFn.callable [.bool true])
      (.code (.construct flag [.slot (.argument 0)]) ⟨[.bool true], [], []⟩) :=
    .single (.run rfl)
  have hargs : (execAll Hosts.standard [.slot (.argument 0)] ⟨[.bool true], [], []⟩ (.new 1)
      {}).result = .ok [.bool true] := by
    simp [execAll, exec, Activation.read, Activation.entry, Outcome.bind, Outcome.done]
  obtain ⟨hobjects, hcalls⟩ := reachable_raised.objects_fit
  exact ⟨reachable_raised, hknows, (hobjects 1 flag _ hknows).1,
    hcalls Hosts.standard _ _ (Hosts.standard_builds _) (.inl ⟨_, List.mem_singleton.2 rfl, rfl⟩)
      (by simp [raised]) flag _ _ henters (.new 1) {} _ hargs⟩

end Session

end ExprTree

import ExprTree.Proofs.Run.Invariant
import ExprTree.Proofs.Session

namespace ExprTree

/-!
# Positions in the tables of a call

Compiled code reads arguments, captures and constants by positions that were fixed
when it was emitted.  The tables come later, from whoever calls the function, and may
well be those of another call than the one in which its closure was created.

`Code.Placed` is what emission makes sure of: each position belongs to something that
the scope knows, or to a constant that is in the pool in the end.  Tables that fit the
scope then have all positions that the code asks for (`Task.readsInBounds_of_fits`).
`TaskInvariant.fitting` says that all code that comes up runs on such tables.

By `Session.FreelyReachable.readsInBounds` no compiled function reads past the end of
a table, and nobody has to validate a lambda for that.
-/

/-! ### Positions of code -/

/-- What the positions in a piece of code refer to: a constant of the table, a
    parameter of the scope, and for a closure its captures, which are found in the
    scope around it. -/
def Code.Placed (constants : List Value) (scope : Scope) : Code Value → Prop
  | pooled index => index < constants.length
  | slot place => ∃ param, scope.resolve? param = some place
  | closure params captures code => ∃ body inner ty,
      scope.Nests ⟨params, body⟩ inner ∧ captures = inner.captureList
        ∧ Translates constants inner body code ty
  | _ => True

/-- The positions in the code of a tree are those of the scope and of the table. -/
theorem Translates.placed {constants : List Value} {scope : Scope} {expr : Expr Value}
    {code : Code Value} {ty : Ty} (h : Translates constants scope expr code ty) :
    code.Placed constants scope := by
  induction expr generalizing code ty with
  | constant =>
    cases h with
    | literal | embedded => trivial
    | pooled hvalue => exact (List.getElem?_eq_some_iff.1 hvalue).1
  | parameter =>
    cases h with
    | literal => trivial
    -- parameters that the scope does not know are not translated, so there are slots in it only
    | slot hslot => exact ⟨_, hslot⟩
  | lambda =>
    cases h with
    | literal => trivial
    | closure hnests hbody => exact ⟨_, _, _, hnests, rfl, hbody⟩
  | conditional test yes no _ ihy ihn =>
    cases h with
    | literal | conditional => trivial
    | @taken _ _ _ _ taken _ _ _ hbranch =>
      cases taken with
      | true => exact ihy hbranch
      | false => exact ihn hbranch
  | _ => cases h <;> trivial

/-! ### Positions of tables -/

namespace Activation

variable {activation : Activation} {scope : Scope}

/-- The table that a slot reads has the position. -/
def Has (activation : Activation) : Slot → Prop
  | .argument index => index < activation.args.length
  | .captured index => index < activation.captured.length

/-- A slot that can be read is there. -/
theorem has_of_read {slot : Slot} {value : Value} (h : activation.read slot = .ok value) :
    activation.Has slot := by
  cases slot with
  | argument | captured => exact (List.getElem?_eq_some_iff.1 (entry_eq_ok.1 h)).1

/-- Tables that fit a scope have a position for everything that it knows. -/
theorem Fits.has (h : activation.Fits scope) {param : Parameter} {slot : Slot}
    (hslot : scope.resolve? param = some slot) : activation.Has slot := by
  obtain ⟨value, hread, _⟩ := h.read hslot
  exact has_of_read hread

end Activation

/-- Whatever the task reads next from the tables of its call is there.  A closure
    reads the values that it takes along when it is created. -/
def Task.ReadsInBounds : Task → Prop
  | .code (.pooled index) activation => index < activation.constants.length
  | .code (.slot slot) activation => activation.Has slot
  | .code (.closure _ captures _) activation =>
    ∀ capture ∈ captures, activation.Has capture.source
  | _ => True

/-- Code reads within tables that fit the scope it was emitted in. -/
theorem Task.readsInBounds_of_fits {scope : Scope} {expr : Expr Value} {code : Code Value}
    {ty : Ty} {activation : Activation} (h : Translates activation.constants scope expr code ty)
    (hfits : activation.Fits scope) : (Task.code code activation).ReadsInBounds := by
  have hplaced := h.placed
  cases code with
  | pooled index => exact hplaced
  | slot slot =>
    obtain ⟨param, hslot⟩ := hplaced
    exact hfits.has hslot
  | closure params captures code =>
    obtain ⟨body, inner, ty, hnests, rfl, _⟩ := hplaced
    intro capture hcapture
    -- a captured parameter has its source in the scope around, which the activation fits
    obtain ⟨captured, hmem, rfl⟩ := List.mem_map.1 hcapture
    exact hfits.has (hnests.source captured hmem)
  | _ => trivial

/-! ### The invariant -/

/-- Functions denote lambdas, environments are typed, and code is that of some tree on
    tables that fit. -/
def TaskInvariant.fitting : TaskInvariant where
  Calls := Callable.Fits
  Walks _ _ env := Valuation.Typed env.lookup?
  Executes code activation := ∃ scope expr ty,
    Translates activation.constants scope expr code ty ∧ activation.Fits scope
  Happens _ _ := True
  native := .inl ⟨_, _, _, rfl⟩
  operand henv _ := henv
  lambda henv _ := .inr ⟨_, _, .interpreted henv⟩
  walk hcalls hcheck := hcalls.walk hcheck
  piece := by
    rintro code sub activation ⟨scope, expr, ty, htranslates, hfits⟩ hsub
    obtain ⟨expr, ty, htranslates⟩ := htranslates.of_mem_operands hsub
    exact ⟨scope, expr, ty, htranslates, hfits⟩
  closure := by
    rintro params captures code activation captured ⟨scope, expr, ty, htranslates, hfits⟩ hcaptured
    obtain ⟨body, inner, ty, hnests, rfl, hbody⟩ := htranslates.placed
    -- what is captured are values of parameters in the call that creates the closure, so
    -- it fits the scope of the body, whatever call that will run in
    obtain ⟨values, hvalues, hval⟩ := hnests.capture hfits
    rw [hcaptured] at hvalues
    cases hvalues
    exact .inr ⟨_, _, hnests.denotes hbody
      (hval.imp fun param value hvalue => hfits.typed param value hvalue)⟩
  run hcalls hcheck := hcalls.run hcheck

/-- Every task that the invariant holds of reads within its tables. -/
theorem TaskInvariant.readsInBounds_of_holds {around : List Task} {task : Task}
    (h : fitting.Holds around task) : task.ReadsInBounds := by
  cases task with
  | code code activation =>
    obtain ⟨⟨scope, expr, ty, htranslates, hfits⟩, _⟩ := h
    exact Task.readsInBounds_of_fits htranslates hfits
  | tree | call => trivial

/-- What fits is all that the invariant asks for. -/
theorem Value.Fits.admits {value : Value} (h : value.Fits) :
    TaskInvariant.fitting.Admits value := by
  cases value with
  | function => exact h
  | _ => trivial

/-- A task that reads within its tables does not fail for want of a slot. -/
theorem Task.Fails.of_slotOutOfRange {hosts : Hosts} {task : Task} {index : Nat}
    (h : task.Fails hosts (.slotOutOfRange index)) (hreads : task.ReadsInBounds) :
    ∃ host args supply, (hosts host args supply).1 = .error (.slotOutOfRange index) := by
  have absent : ∀ {activation : Activation} {slot : Slot} {error : RuntimeError},
      activation.read slot = .error error → ¬ activation.Has slot := by
    intro activation slot error hread hhas
    cases slot with
    | argument | captured =>
      exact absurd (Activation.entry_eq_error hread).2 (Nat.not_le.2 hhas)
  cases h with
  -- operations have errors of their own, and none of them is about slots
  | operation hoperational => exact hoperational.elim
  | host hhost => exact ⟨_, _, _, hhost⟩
  | resolve hresolve => cases Env.resolve_eq_error hresolve
  | pooled hentry => exact absurd (Activation.entry_eq_error hentry).2 (Nat.not_le.2 hreads)
  | slot hread => exact absurd hreads (absent hread)
  | capture hcapture =>
    obtain ⟨capture, hmem, hread⟩ := Activation.capture_eq_error hcapture
    exact absurd (hreads capture hmem) (absent hread)

/-! ### Sessions -/

namespace Session

variable {session next : Session}

/-- What can be done in a session that also has code emitted for lambdas which nobody
    has validated. -/
inductive FreeStep (session : Session) : Session → Prop
  | step {next : Session} : session.Step next → FreeStep session next
  | emit {lambda : Lambda Value} {options : CompilerOptions} {callable : Callable Value}
      {plan : Plan} : lambda.parts ⊆ session.values →
      lambda.emit options = .ok (callable, plan) →
      FreeStep session { session with
        functions := ⟨callable, .fast, options.maxCallDepth, some plan⟩ :: session.functions }

/-- A session that comes about from nothing in this way. -/
def FreelyReachable (session : Session) : Prop := Relation.ReflTransGen FreeStep start session

/-- Code that is emitted of a lambda denotes it, whether the lambda is valid or not. -/
theorem Valid.of_freeStep (h : session.Valid) (hstep : session.FreeStep next) : next.Valid := by
  cases hstep with
  | step hstep => exact h.of_step hstep
  | emit hparts hemit =>
    obtain ⟨known, hplay, hvalues, hfunctions⟩ := h
    have hcoherent : Value.Coherent fun value => value.All known :=
      hplay.coherent.mono fun value hvalue => hvalue.self
    obtain ⟨hdenotes, hheld⟩ := Lambda.denotes_of_emit hcoherent
      (fun c hc => hvalues c (hparts (Expr.literals_subset_parts _ hc))) hemit
    exact valid_compiled hplay hvalues hfunctions (.inr ⟨_, _, hdenotes⟩) hheld

/-- Whatever a program does, what it has at hand is valid. -/
theorem FreelyReachable.valid (h : session.FreelyReachable) : session.Valid := by
  induction h with
  | refl => exact valid_start
  | tail _ hstep ih => exact ih.of_freeStep hstep

/-- Everything in play fits. -/
theorem Valid.upholds_fitting (h : session.Valid) : session.Upholds .fitting := by
  obtain ⟨known, hplay, hvalues, hfunctions⟩ := h
  have hadmits : ∀ value, known value → TaskInvariant.fitting.Admits value :=
    fun _ hvalue => (hplay.fits hvalue).admits
  exact ⟨hvalues.mono hadmits,
    fun fn hfn => ⟨(hfunctions fn hfn).1, (hfunctions fn hfn).2.mono hadmits⟩⟩

/-- **Compiled code reads within its tables.**  A session may emit code for any lambda,
    valid or not, with any options, and call the function and the closures that it
    creates later and with anything at hand.  Every argument, capture and constant
    that is read on the way, and every value that a new closure takes along, is at a
    position which its table has; so an error about a slot is one that the host made
    up. -/
theorem FreelyReachable.reads_in_bounds (h : session.FreelyReachable) {hosts : Hosts}
    (hhosts : hosts.Builds session.Knows) {callable : Callable Value}
    (hcallable : session.CanCall callable) {args : List Value} (hargs : args ⊆ session.values)
    (stack : CallStack) (supply : Supply) :
    (∀ machine, (Machine.start (.call callable args) stack supply).Reaches hosts machine →
      ∀ job ∈ machine.jobs, job.task.ReadsInBounds)
    ∧ ∀ index,
        (call hosts callable args stack supply).result = .error (.slotOutOfRange index) →
        ∃ host args supply, (hosts host args supply).1 = .error (.slotOutOfRange index) := by
  have hupholds := h.valid.upholds_fitting
  have hhosted := hupholds.hosted hhosts
  have hholds := hupholds.holds hcallable hargs
  have hwatches : TaskInvariant.fitting.Watches hosts (.start (.call callable args) stack supply) :=
    fun _ _ _ _ _ => trivial
  refine ⟨fun machine hreaches job hjob => ?_, fun index hresult => ?_⟩
  · -- a job of the machine is a task that the run has come to
    obtain ⟨around, hperforms⟩ := machine.performs_of_mem hjob
    exact TaskInvariant.readsInBounds_of_holds
      ((Machine.keeps_of_reaches hhosted hholds hwatches hreaches).tasks hperforms)
  · rcases error_of_call hhosted hholds hwatches hresult with heq | ⟨around, task, htask, hfails⟩
    · cases heq
    · exact hfails.of_slotOutOfRange (TaskInvariant.readsInBounds_of_holds htask)

/-- A lambda that nobody has to validate: a reduction keeps its argument for later. -/
def keep : Lambda Value :=
  ⟨[⟨1, "x", .bool⟩], .extension ⟨"keep", .any, "first"⟩ []
    (some (.lambda [] (.parameter ⟨1, "x", .bool⟩)))⟩

/-- The code of `keep`, compiled. -/
def keepFn : CompiledFn :=
  ⟨.compiled keep.params (.closure [] [⟨0, "x", .argument 0⟩] (.slot (.captured 0))) [] [], .fast,
    CallStack.defaultLimit, some ⟨[], [⟨0, ["x"], []⟩, ⟨1, [], [⟨0, "x", .argument 0⟩]⟩], 0, 0⟩⟩

/-- The closure that `keep` creates. -/
def keptClosure : Callable Value := .compiled [] (.slot (.captured 0)) [.bool true] []

/-- The call of `keep`. -/
def keeping : Call :=
  ⟨Hosts.standard, keepFn.callable, [.bool true], .new keepFn.maxCallDepth, {}⟩

/-- After `keep` was emitted and run. -/
def kept : Session :=
  ⟨{ nextFunction := 2 }, [.function 1 keptClosure, .bool true], [keepFn], [keeping]⟩

/-- The session creates its value, compiles the function and calls it with the value. -/
theorem reachable_kept : kept.FreelyReachable := by
  have hcapture : Activation.capture ⟨[.bool true], [], []⟩ [⟨0, "x", .argument 0⟩]
      = .ok [.bool true] := rfl
  have houtcome : keeping.outcome = (.ok (.function 1 keptClosure), { nextFunction := 2 }) := by
    simp [Call.outcome, keeping, keepFn, keep, keptClosure, call, checkParameters, firstMisfit?,
      Ty.accepts, CallStack.during, CallStack.enter, CallStack.new, CallStack.defaultLimit, exec,
      hcapture, Outcome.done, Supply.function]
  have hscalar : FreeStep start ⟨{}, [.bool true], [], []⟩ := .step (.scalar rfl)
  have hemitted : keep.emit {} = .ok (keepFn.callable,
      ⟨[], [⟨0, ["x"], []⟩, ⟨1, [], [⟨0, "x", .argument 0⟩]⟩], 0, 0⟩) := rfl
  have hemit : FreeStep ⟨{}, [.bool true], [], []⟩ ⟨{}, [.bool true], [keepFn], []⟩ :=
    .emit (List.nil_subset _) hemitted
  have hcall : FreeStep ⟨{}, [.bool true], [keepFn], []⟩
      (making ⟨{}, [.bool true], [keepFn], []⟩ keeping) :=
    .step (.invoke (Hosts.standard_builds _) (List.mem_singleton.2 rfl) (List.Subset.refl _))
  rw [making, houtcome] at hcall
  exact ((Relation.ReflTransGen.single hscalar).tail hemit).tail hcall

/-- The closure is called after the call that created it: what it took along is there. -/
theorem reads_in_bounds_kept :
    kept.FreelyReachable ∧ Hosts.standard.Builds kept.Knows ∧ kept.CanCall keptClosure
      ∧ [] ⊆ kept.values
      ∧ Activation.Has ⟨[], [.bool true], []⟩ (.captured 0)
      ∧ ∀ index, (call Hosts.standard keptClosure [] (.new 1) {}).result
          = .error (.slotOutOfRange index) →
        ∃ host args supply,
          (Hosts.standard host args supply).1 = .error (.slotOutOfRange index) := by
  have hcallable : kept.CanCall keptClosure := .inr ⟨1, List.mem_cons_self ..⟩
  have hhosts : Hosts.standard.Builds kept.Knows := Hosts.standard_builds _
  obtain ⟨hreads, hresult⟩ := reachable_kept.reads_in_bounds hhosts hcallable
    (List.nil_subset _) (.new 1) {}
  have hbody : (Machine.start (.call keptClosure []) (.new 1) {}).Reaches Hosts.standard
      ⟨none, [⟨.code (.slot (.captured 0)) ⟨[], [.bool true], []⟩, [], ⟨1, 1, Nat.le_refl 1⟩⟩,
        ⟨.call keptClosure [], [], .new 1⟩], ⟨1, 1, Nat.le_refl 1⟩, {}⟩ :=
    .single rfl
  exact ⟨reachable_kept, hhosts, hcallable, List.nil_subset _,
    hreads _ hbody _ (List.mem_cons_self ..), hresult⟩

end Session

end ExprTree

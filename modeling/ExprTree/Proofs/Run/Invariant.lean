import ExprTree.Proofs.Run.Balance
import ExprTree.Proofs.Tree.Inference
import ExprTree.Proofs.Value.Errors

namespace ExprTree

/-!
# Invariants of tasks

A `TaskInvariant` is about three things at once: the functions at hand, trees with
their environments, and pieces of code with their tables.  If it passes from a body to
its operands, from a node that makes a function to that function, and from a function
to its body, then it holds of everything that a machine ever runs
(`Machine.keeps_of_reaches`), and of every function in the result of a call
(`all_of_call`).

A tree is looked at together with the tasks around it, which wait for it: among them is
the call whose body it belongs to.  And of a function that is made the invariant may ask
that it really was, at a moment of a run that it knows of (`TaskInvariant.Happens`).

On the way it turns out what a call can fail with (`error_of_call`): the limit
of the call stack, or an error that some task gave which the invariant holds of.
-/

/-- Properties of functions, of trees in environments and of code on tables, each of
    which is passed on to what comes of it.  A tree is walked with the tasks `around` it,
    the innermost first; `Happens` says which tasks come up, and with which around them. -/
structure TaskInvariant where
  Calls : Callable Value → Prop
  Walks : List Task → Expr Value → Env Value → Prop
  Executes : Code Value → Activation → Prop
  Happens : List Task → Task → Prop
  native {name : String} {arity : Nat} {host : HostFunction Value} :
    Calls (.native name arity host)
  operand {around : List Task} {expr sub : Expr Value} {env : Env Value} :
    Walks around expr env → sub ∈ expr.children → Walks (.tree expr env :: around) sub env
  lambda {around : List Task} {params : List Parameter} {body : Expr Value} {env : Env Value} :
    Walks around (.lambda params body) env → Happens around (.tree (.lambda params body) env) →
    Calls (.interpreted params body env)
  walk {around : List Task} {params : List Parameter} {body : Expr Value} {env : Env Value}
      {args : List Value} :
    Calls (.interpreted params body env) → checkParameters params args = .ok () →
    Walks (.call (.interpreted params body env) args :: around) body (Frame.bind params args :: env)
  piece {code sub : Code Value} {activation : Activation} :
    Executes code activation → sub ∈ code.operands → Executes sub activation
  closure {params : List Parameter} {captures : List Capture} {body : Code Value}
      {activation : Activation} {captured : List Value} :
    Executes (.closure params captures body) activation →
    activation.capture captures = .ok captured →
    Calls (.compiled params body captured activation.constants)
  run {params : List Parameter} {body : Code Value} {captured constants args : List Value} :
    Calls (.compiled params body captured constants) → checkParameters params args = .ok () →
    Executes body ⟨args, captured, constants⟩

/-! ### Tables -/

namespace Activation

variable {activation : Activation}

/-- What is in the table of constants is among the values of the activation. -/
theorem mem_values_of_constant {index : Nat} {value : Value}
    (h : entry activation.constants index = .ok value) : value ∈ activation.values :=
  List.mem_append_right _ (List.mem_of_getElem? (entry_eq_ok.1 h))

/-- What is read of an activation is one of its values. -/
theorem mem_values_of_read {slot : Slot} {value : Value} (h : activation.read slot = .ok value) :
    value ∈ activation.values := by
  cases slot with
  | argument index =>
    exact List.mem_append_left _ (List.mem_append_left _
      (List.mem_of_getElem? (entry_eq_ok.1 h)))
  | captured index =>
    exact List.mem_append_left _ (List.mem_append_right _
      (List.mem_of_getElem? (entry_eq_ok.1 h)))

/-- All that a closure captures are values of the activation around it. -/
theorem mem_values_of_capture {captures : List Capture} {captured : List Value}
    (h : activation.capture captures = .ok captured) :
    ∀ value ∈ captured, value ∈ activation.values := by
  induction captures generalizing captured with
  | nil =>
    cases h
    simp
  | cons capture rest ih =>
    obtain ⟨value, hvalue, h⟩ := bind_eq_ok.1 h
    obtain ⟨values, hvalues, h⟩ := bind_eq_ok.1 h
    cases h
    exact List.forall_mem_cons.2 ⟨mem_values_of_read hvalue, ih hvalues⟩

/-- A table fails where it ends. -/
theorem entry_eq_error {table : List Value} {index : Nat} {error : RuntimeError}
    (h : entry table index = .error error) :
    error = .slotOutOfRange index ∧ table.length ≤ index := by
  unfold entry at h
  split at h
  · cases h
  · rename_i hnone
    cases h
    exact ⟨rfl, List.getElem?_eq_none_iff.1 hnone⟩

/-- Reading fails past the end of a table only. -/
theorem read_eq_error {slot : Slot} {error : RuntimeError}
    (h : activation.read slot = .error error) : ∃ index, error = .slotOutOfRange index := by
  cases slot with
  | argument index | captured index => exact ⟨index, (entry_eq_error h).1⟩

/-- A closure is not made if one of the values that it takes along is missing. -/
theorem capture_eq_error {captures : List Capture} {error : RuntimeError}
    (h : activation.capture captures = .error error) :
    ∃ capture ∈ captures, activation.read capture.source = .error error := by
  induction captures with
  | nil => cases h
  | cons capture rest ih =>
    unfold Activation.capture at h
    -- captures are read in order, and the first that fails decides
    cases hread : activation.read capture.source with
    | error found =>
      rw [hread] at h
      cases h
      exact ⟨capture, List.mem_cons_self .., hread⟩
    | ok value =>
      rw [hread] at h
      cases hrest : activation.capture rest with
      | ok values =>
        rw [hrest] at h
        cases h
      | error found =>
        rw [hrest] at h
        cases h
        obtain ⟨later, hmem, hlater⟩ := ih hrest
        exact ⟨later, List.mem_cons_of_mem _ hmem, hlater⟩

end Activation

/-- A parameter that is not there is the only thing that a look-up fails with. -/
theorem Env.resolve_eq_error {env : Env Value} {param : Parameter} {error : RuntimeError}
    (h : env.resolve param = .error error) : error = .undefinedParameter param.name := by
  unfold Env.resolve at h
  split at h <;> cases h
  rfl

/-- What holds of everything in an object holds of everything in a field of it, however
    the field is found. -/
theorem Value.All.of_fieldAt {P : Value → Prop} {target value : Value} {index : Nat}
    {name : String} (h : target.All P) (hvalue : target.fieldAt index name = .ok value) :
    value.All P := by
  unfold Value.fieldAt at hvalue
  split at hvalue
  · split at hvalue
    · rename_i hget
      cases hvalue
      exact h.part (List.mem_of_getElem? hget)
    · exact h.of_field hvalue
  · exact h.of_field hvalue

/-! ### What the invariant asks for -/

namespace TaskInvariant

variable (inv : TaskInvariant)

/-- What it asks of a value by itself. -/
def Admits : Value → Prop
  | .function _ callable => inv.Calls callable
  | _ => True

/-- What it asks of a task, with everything that the task can come to. -/
def Holds (around : List Task) : Task → Prop
  | .tree expr env =>
    inv.Walks around expr env ∧ Value.AllOf inv.Admits expr.parts
      ∧ Value.AllOf inv.Admits env.values
  | .code piece activation =>
    inv.Executes piece activation ∧ Value.AllOf inv.Admits piece.literals
      ∧ Value.AllOf inv.Admits activation.values
  | .call callable args =>
    inv.Calls callable ∧ Value.AllOf inv.Admits callable.parts ∧ Value.AllOf inv.Admits args

/-- What it asks of a host: good results on good arguments, if what the function
    captured is good. -/
def Hosted (hosts : Hosts) : Prop :=
  ∀ (host : HostFunction Value) args supply value, Value.AllOf inv.Admits host.captured →
    Value.AllOf inv.Admits args → (hosts host args supply).1 = .ok value → value.All inv.Admits

variable {inv}

/-- A scalar has no functions in it to be asked about. -/
theorem all_of_isScalar {value : Value} (h : value.isScalar = true) : value.All inv.Admits := by
  refine Value.all_of_parts_eq_nil (Value.parts_of_isScalar h) ?_
  cases value with
  | function => cases h
  | _ => trivial

/-- An object is as good as its fields. -/
theorem all_object {id : Nat} {cls : ClassDef} {fields : List Value}
    (h : Value.AllOf inv.Admits fields) : (Value.object id cls fields).All inv.Admits :=
  Value.all_iff.2 ⟨trivial, h⟩

/-- An object of admitted fields is admitted. -/
theorem all_of_instantiate {cls : ClassDef} {fields : List Value} {supply : Supply}
    (h : Value.AllOf inv.Admits fields) {value : Value}
    (hvalue : (cls.instantiate fields supply).1 = .ok value) : value.All inv.Admits := by
  unfold ClassOver.instantiate at hvalue
  split at hvalue
  · cases hvalue
  · cases hvalue
    exact all_object h

end TaskInvariant

/-! ### What a task ends with -/

/-- An error that a running task may give by itself.

* `operation` — it does not like its operands;
* `host` — the host does not;
* `resolve` — a parameter is not in the environment;
* `pooled`, `slot`, `capture` — a slot is not in its table. -/
inductive Task.Fails (hosts : Hosts) : Task → RuntimeError → Prop
  | operation {task : Task} {error : RuntimeError} : error.IsOperational → Fails hosts task error
  | host {task : Task} {host : HostFunction Value} {args : List Value} {supply : Supply}
      {error : RuntimeError} : (hosts host args supply).1 = .error error → Fails hosts task error
  | resolve {param : Parameter} {env : Env Value} {error : RuntimeError} :
      env.resolve param = .error error → Fails hosts (.tree (.parameter param) env) error
  | pooled {index : Nat} {activation : Activation} {error : RuntimeError} :
      Activation.entry activation.constants index = .error error →
      Fails hosts (.code (.pooled index) activation) error
  | slot {slot : Slot} {activation : Activation} {error : RuntimeError} :
      activation.read slot = .error error → Fails hosts (.code (.slot slot) activation) error
  | capture {params : List Parameter} {captures : List Capture} {body : Code Value}
      {activation : Activation} {error : RuntimeError} :
      activation.capture captures = .error error →
      Fails hosts (.code (.closure params captures body) activation) error

/-- What an error of a task is about: its operands, the host, a parameter that is not in
    the environment, or a slot. -/
theorem Task.Fails.origin {hosts : Hosts} {task : Task} {error : RuntimeError}
    (h : task.Fails hosts error) :
    error.IsOperational ∨ (∃ host args supply, (hosts host args supply).1 = .error error)
      ∨ (∃ param env, task = .tree (.parameter param) env ∧ env.resolve param = .error error)
      ∨ ∃ index, error = .slotOutOfRange index := by
  cases h with
  | operation hoperational => exact .inl hoperational
  | host hhost => exact .inr (.inl ⟨_, _, _, hhost⟩)
  | resolve hresolve => exact .inr (.inr (.inl ⟨_, _, rfl, hresolve⟩))
  | pooled hentry => exact .inr (.inr (.inr ⟨_, (Activation.entry_eq_error hentry).1⟩))
  | slot hread => exact .inr (.inr (.inr (Activation.read_eq_error hread)))
  | capture hcapture =>
    obtain ⟨_, _, hread⟩ := Activation.capture_eq_error hcapture
    exact .inr (.inr (.inr (Activation.read_eq_error hread)))

/-- A task ends with a good value or fails. -/
structure Task.Ends (inv : TaskInvariant) (hosts : Hosts) (task : Task)
    (result : Except RuntimeError Value) : Prop where
  value {value : Value} : result = .ok value → value.All inv.Admits
  error {error : RuntimeError} : result = .error error → task.Fails hosts error

/-- A move starts a good task inside its own, or ends that. -/
def Move.Keeps (inv : TaskInvariant) (hosts : Hosts) (around : List Task) (task : Task) :
    Move → Prop
  | start sub | enter sub => inv.Holds (task :: around) sub
  | native result _ | finish result _ => task.Ends inv hosts result

section

variable {inv : TaskInvariant} {hosts : Hosts} {around : List Task} {task : Task}
  {result : Except RuntimeError Value}

/-- A task may end with any admitted value. -/
theorem Task.ends_ok {value : Value} (h : value.All inv.Admits) :
    task.Ends inv hosts (.ok value) where
  value heq := by
    cases heq
    exact h
  error := nofun

theorem Task.ends_operation (hresult : Operates result)
    (hvalue : ∀ {value}, result = .ok value → value.All inv.Admits) :
    task.Ends inv hosts result :=
  ⟨hvalue, fun herror => .operation (hresult _ herror)⟩

/-- An error about operands. -/
theorem Task.ends_error {error : RuntimeError} (h : error.IsOperational) :
    task.Ends inv hosts (.error error) :=
  ends_operation (operates_error h) nofun

/-- An answer of the host is good, or an error of its own. -/
theorem Task.ends_host (hhosts : inv.Hosted hosts) {host : HostFunction Value} {args : List Value}
    {supply : Supply} (hcaptured : Value.AllOf inv.Admits host.captured)
    (hargs : Value.AllOf inv.Admits args) :
    task.Ends inv hosts (hosts host args supply).1 :=
  ⟨hhosts host args supply _ hcaptured hargs, .host⟩

/-! ### Moves -/

namespace Move

variable {supply : Supply} {values : List Value}

/-- A task that has another one done first goes on with the value of that. -/
theorem keeps_after {sub : Task} {next : Value → List Value → Move}
    (hvalues : Value.AllOf inv.Admits values) (hsub : inv.Holds (task :: around) sub)
    (hnext : ∀ value rest, value.All inv.Admits → Value.AllOf inv.Admits rest →
      (next value rest).Keeps inv hosts around task) :
    (after sub next values).Keeps inv hosts around task := by
  cases values with
  | nil => exact hsub
  | cons value rest =>
    obtain ⟨hvalue, hrest⟩ := List.forall_mem_cons.1 hvalues
    exact hnext value rest hvalue hrest

/-- Any number of tasks may be done first, one after the other. -/
theorem keeps_afterAll {subs : List Task} {next : List Value → List Value → Move}
    (hvalues : Value.AllOf inv.Admits values) (hsubs : ∀ sub ∈ subs, inv.Holds (task :: around) sub)
    (hnext : ∀ results rest, Value.AllOf inv.Admits results → Value.AllOf inv.Admits rest →
      (next results rest).Keeps inv hosts around task) :
    (afterAll subs next values).Keeps inv hosts around task := by
  induction subs generalizing next values with
  | nil => exact hnext [] values nofun hvalues
  | cons sub subs ih =>
    obtain ⟨hsub, hsubs⟩ := List.forall_mem_cons.1 hsubs
    refine keeps_after hvalues hsub fun value rest hvalue hrest => ?_
    refine ih hrest hsubs fun results rest hresults hrest => ?_
    exact hnext (value :: results) rest (List.forall_mem_cons.2 ⟨hvalue, hresults⟩) hrest

/-- A task may end with the value of another one. -/
theorem keeps_pass {sub : Task} (hvalues : Value.AllOf inv.Admits values)
    (hsub : inv.Holds (task :: around) sub) :
    (pass sub supply values).Keeps inv hosts around task :=
  keeps_after hvalues hsub fun _ _ hvalue _ => Task.ends_ok hvalue

/-- Two operands are done in order, and the operator is applied to both. -/
theorem keeps_pair {left right : Task} {apply : Value → Value → Except RuntimeError Value}
    (hvalues : Value.AllOf inv.Admits values) (hleft : inv.Holds (task :: around) left)
    (hright : inv.Holds (task :: around) right)
    (hends : ∀ a b, task.Ends inv hosts (apply a b)) :
    (after left (fun a => after right fun b _ => finish (apply a b) supply) values).Keeps
      inv hosts around task :=
  keeps_after hvalues hleft fun a _ _ hrest => keeps_after hrest hright fun b _ _ _ => hends a b

/-- The right operand is done only if the left one does not settle the result. -/
theorem keeps_shortCircuit {op : BinaryOp} {left right : Task}
    (hvalues : Value.AllOf inv.Admits values) (hleft : inv.Holds (task :: around) left)
    (hright : inv.Holds (task :: around) right) :
    (shortCircuit op left right supply values).Keeps inv hosts around task := by
  refine keeps_after hvalues hleft fun value rest _ hrest => ?_
  split
  · rename_i error herror
    exact Task.ends_error (Value.operates_test _ _ error herror)
  · split
    · rename_i settled hsettled
      rw [BinaryOp.settled?_eq_some hsettled]
      exact Task.ends_ok (TaskInvariant.all_of_isScalar rfl)
    · refine keeps_after hrest hright fun value _ _ _ => ?_
      refine Task.ends_operation ((Value.operates_test _ value).map _) fun hresult => ?_
      obtain ⟨b, _, rfl⟩ := Value.exists_of_map_test hresult
      exact TaskInvariant.all_of_isScalar rfl

/-- A conditional does one of its branches, so both of them have to be fit for it. -/
theorem keeps_conditional {test yes no : Task} (hvalues : Value.AllOf inv.Admits values)
    (htest : inv.Holds (task :: around) test) (hyes : inv.Holds (task :: around) yes)
    (hno : inv.Holds (task :: around) no) :
    (conditional test yes no supply values).Keeps inv hosts around task := by
  refine keeps_after hvalues htest fun value rest _ hrest => ?_
  split
  · rename_i error herror
    exact Task.ends_error (Value.operates_test _ _ error herror)
  · exact keeps_pass hrest hyes
  · exact keeps_pass hrest hno

/-- An invocation calls a function that it got as a value. -/
theorem keeps_invocation {target : Task} {args : List Task}
    (hvalues : Value.AllOf inv.Admits values) (htarget : inv.Holds (task :: around) target)
    (hargs : ∀ arg ∈ args, inv.Holds (task :: around) arg) :
    (invocation target args supply values).Keeps inv hosts around task := by
  refine keeps_after hvalues htarget fun target rest htarget hrest => ?_
  refine keeps_afterAll hrest hargs fun results rest hresults hrest => ?_
  split
  · exact keeps_pass hrest ⟨htarget.self, fun part hpart => htarget.part hpart, hresults⟩
  · exact Task.ends_error trivial

end Move

end

/-! ### Tasks -/

namespace TaskInvariant

variable {inv : TaskInvariant} {hosts : Hosts} {around : List Task} {supply : Supply}
  {values : List Value}

/-- Operands are walked in the environment of their node. -/
theorem Holds.operand {expr sub : Expr Value} {env : Env Value}
    (h : inv.Holds around (.tree expr env)) (hsub : sub ∈ expr.children) :
    inv.Holds (.tree expr env :: around) (.tree sub env) := by
  obtain ⟨hwalks, hparts, hvalues⟩ := h
  exact ⟨inv.operand hwalks hsub,
    hparts.of_subset fun _ hc => Expr.parts_subset_of_mem_children hsub hc, hvalues⟩

/-- Pieces of code run on the activation of the whole. -/
theorem Holds.piece {code sub : Code Value} {activation : Activation}
    (h : inv.Holds around (.code code activation)) (hsub : sub ∈ code.operands) :
    inv.Holds (.code code activation :: around) (.code sub activation) := by
  obtain ⟨hexecutes, hliterals, hvalues⟩ := h
  exact ⟨inv.piece hexecutes hsub,
    hliterals.of_subset fun _ hc => Code.literals_subset_of_mem_operands hsub hc, hvalues⟩

/-- What a tree starts is good, and what it ends with is. -/
theorem keeps_tree (hhosts : inv.Hosted hosts) {expr : Expr Value} {env : Env Value}
    (h : inv.Holds around (.tree expr env)) (hhappens : inv.Happens around (.tree expr env))
    (hvalues : Value.AllOf inv.Admits values) :
    (expr.next hosts env supply values).Keeps inv hosts around (.tree expr env) := by
  have operand : ∀ {sub}, sub ∈ expr.children →
      inv.Holds (.tree expr env :: around) (.tree sub env) := h.operand
  obtain ⟨hwalks, hparts, hbound⟩ := h
  cases expr with
  | constant value =>
    exact Task.ends_ok (hparts value (List.mem_singleton.2 rfl))
  | parameter param =>
    exact ⟨fun hvalue => hbound _ (Env.mem_values_of_resolve hvalue), .resolve⟩
  | new cls args =>
    refine Move.keeps_afterAll hvalues (List.forall_mem_map.2 fun _ => operand)
      fun fields _ hfields _ => ?_
    exact Task.ends_operation (cls.operates_instantiate fields supply)
      (all_of_instantiate hfields)
  | field target name =>
    refine Move.keeps_after hvalues (operand (by simp [Expr.children])) fun value _ hvalue _ => ?_
    exact Task.ends_operation (value.operates_field name) hvalue.of_field
  | unary op operand' =>
    refine Move.keeps_after hvalues (operand (by simp [Expr.children])) fun value _ _ _ => ?_
    exact Task.ends_operation (op.operates_apply value) fun hresult =>
      all_of_isScalar (UnaryOp.apply_eq_ok hresult).2
  | binary op left right =>
    rw [Expr.next]
    split
    · exact Move.keeps_shortCircuit hvalues (operand (by simp [Expr.children]))
        (operand (by simp [Expr.children]))
    · refine Move.keeps_pair hvalues (operand (by simp [Expr.children]))
        (operand (by simp [Expr.children])) fun a b => ?_
      exact Task.ends_operation (op.operates_apply a b) fun hresult =>
        all_of_isScalar (BinaryOp.isScalar_of_apply hresult)
  | conditional test yes no =>
    exact Move.keeps_conditional hvalues (operand (by simp [Expr.children]))
      (operand (by simp [Expr.children])) (operand (by simp [Expr.children]))
  | lambda params body =>
    exact Task.ends_ok (Value.all_iff.2
      ⟨inv.lambda hwalks hhappens, Value.AllOf.append.2 ⟨hparts, hbound⟩⟩)
  | invoke target args =>
    exact Move.keeps_invocation hvalues (operand (List.mem_cons_self ..))
      (List.forall_mem_map.2 fun _ hsub => operand (List.mem_cons_of_mem target hsub))
  | extension node operands reduction =>
    -- the tree holds what the function of the host captured
    have hcaptured := (Value.AllOf.append.1 (hparts.of_subset fun _ hc =>
      Expr.subset_parts_extension node operands reduction hc)).1
    exact Move.keeps_afterAll hvalues (List.forall_mem_map.2 fun _ => operand)
      fun args _ hargs _ => Task.ends_host hhosts hcaptured hargs

/-- What a piece of code starts is good, and what it ends with is. -/
theorem keeps_code {code : Code Value} {activation : Activation}
    (h : inv.Holds around (.code code activation)) (hvalues : Value.AllOf inv.Admits values) :
    (code.next activation supply values).Keeps inv hosts around (.code code activation) := by
  have operand : ∀ {sub}, sub ∈ code.operands →
      inv.Holds (.code code activation :: around) (.code sub activation) := h.piece
  obtain ⟨hexecutes, hliterals, hbound⟩ := h
  cases code with
  | literal value | embedded value =>
    exact Task.ends_ok (hliterals value (List.mem_singleton.2 rfl))
  | pooled index =>
    exact ⟨fun hvalue => hbound _ (Activation.mem_values_of_constant hvalue), .pooled⟩
  | slot slot =>
    exact ⟨fun hvalue => hbound _ (Activation.mem_values_of_read hvalue), .slot⟩
  | construct cls args =>
    exact Move.keeps_afterAll hvalues (List.forall_mem_map.2 fun _ => operand)
      fun fields _ hfields _ => Task.ends_ok (all_object hfields)
  | instantiate cls args =>
    refine Move.keeps_afterAll hvalues (List.forall_mem_map.2 fun _ => operand)
      fun fields _ hfields _ => ?_
    exact Task.ends_operation (cls.operates_instantiate fields supply)
      (all_of_instantiate hfields)
  | fieldAt target index name =>
    refine Move.keeps_after hvalues (operand (by simp [Code.operands])) fun value _ hvalue _ => ?_
    exact Task.ends_operation (value.operates_fieldAt index name) hvalue.of_fieldAt
  | field target name =>
    refine Move.keeps_after hvalues (operand (by simp [Code.operands])) fun value _ hvalue _ => ?_
    exact Task.ends_operation (value.operates_field name) hvalue.of_field
  | unary op operand' =>
    refine Move.keeps_after hvalues (operand (by simp [Code.operands])) fun value _ _ _ => ?_
    exact Task.ends_operation (op.operates_apply value) fun hresult =>
      all_of_isScalar (UnaryOp.apply_eq_ok hresult).2
  | shortCircuit op left right =>
    exact Move.keeps_shortCircuit hvalues (operand (by simp [Code.operands]))
      (operand (by simp [Code.operands]))
  | arithmetic op left right =>
    refine Move.keeps_pair hvalues (operand (by simp [Code.operands]))
      (operand (by simp [Code.operands])) fun a b => ?_
    exact Task.ends_operation (op.operates_direct a b) fun hresult =>
      all_of_isScalar (BinaryOp.isScalar_of_direct hresult)
  | binary op left right =>
    refine Move.keeps_pair hvalues (operand (by simp [Code.operands]))
      (operand (by simp [Code.operands])) fun a b => ?_
    exact Task.ends_operation (op.operates_apply a b) fun hresult =>
      all_of_isScalar (BinaryOp.isScalar_of_apply hresult)
  | conditional test yes no =>
    exact Move.keeps_conditional hvalues (operand (by simp [Code.operands]))
      (operand (by simp [Code.operands])) (operand (by simp [Code.operands]))
  | closure params captures body =>
    rw [Code.next]
    split
    · rename_i error herror
      refine ⟨fun heq => ?_, fun heq => ?_⟩ <;> cases heq
      exact .capture herror
    · rename_i captured hcaptured
      -- a closure takes its captures and the pool along, and both are values of the activation
      have hin := Activation.mem_values_of_capture hcaptured
      refine Task.ends_ok (Value.all_iff.2 ⟨inv.closure hexecutes hcaptured, ?_⟩)
      refine Value.AllOf.append.2 ⟨Value.AllOf.append.2 ⟨hliterals, ?_⟩, ?_⟩
      · exact hbound.of_subset hin
      · exact hbound.of_subset fun value hvalue => List.mem_append_right _ hvalue
  | invoke target args =>
    exact Move.keeps_invocation hvalues (operand (List.mem_cons_self ..))
      (List.forall_mem_map.2 fun _ hsub => operand (List.mem_cons_of_mem target hsub))

/-- The body that a call starts is good, and what the call ends with is. -/
theorem keeps_call (hhosts : inv.Hosted hosts) {callable : Callable Value} {args : List Value}
    (h : inv.Holds around (.call callable args)) (hvalues : Value.AllOf inv.Admits values) :
    (callable.next hosts args supply values).Keeps inv hosts around (.call callable args) := by
  obtain ⟨hcalls, hparts, hargs⟩ := h
  cases values with
  | cons value rest => exact Task.ends_ok (List.forall_mem_cons.1 hvalues).1
  | nil =>
    cases callable with
    | interpreted params body env =>
      rw [Callable.parts, Value.AllOf.append] at hparts
      cases hcheck : checkParameters params args with
      | error error =>
        simp only [Callable.next, hcheck]
        exact Task.ends_error (operates_checkParameters params args error hcheck)
      | ok _ =>
        simp only [Callable.next, hcheck]
        -- the body is walked behind the arguments, in the environment that was captured
        exact ⟨inv.walk hcalls hcheck, hparts.1, fun value hvalue =>
          (Env.values_cons hvalue).elim (hargs value) (hparts.2 value)⟩
    | compiled params body captured constants =>
      rw [Callable.parts, Value.AllOf.append, Value.AllOf.append] at hparts
      cases hcheck : checkParameters params args with
      | error error =>
        simp only [Callable.next, hcheck]
        exact Task.ends_error (operates_checkParameters params args error hcheck)
      | ok _ =>
        simp only [Callable.next, hcheck]
        refine ⟨inv.run hcalls hcheck, hparts.1.1, ?_⟩
        rw [Activation.values, Value.AllOf.append, Value.AllOf.append]
        exact ⟨⟨hargs, hparts.1.2⟩, hparts.2⟩
    | native name arity host =>
      rw [Callable.next]
      split
      · exact Task.ends_error trivial
      · exact Task.ends_host hhosts hparts hargs

/-- **What holds of a task holds of what it starts**, and of the value it ends with. -/
theorem keeps_next (supply : Supply) (hhosts : inv.Hosted hosts) {task : Task}
    (h : inv.Holds around task) (hhappens : inv.Happens around task)
    (hvalues : Value.AllOf inv.Admits values) :
    (task.next hosts supply values).Keeps inv hosts around task := by
  cases task with
  | tree expr env => exact keeps_tree hhosts h hhappens hvalues
  | code piece activation => exact keeps_code h hvalues
  | call callable args => exact keeps_call hhosts h hvalues

end TaskInvariant

/-! ### Machines -/

namespace Machine

/-- The tasks that are running, the innermost first. -/
def tasks (machine : Machine) : List Task := machine.jobs.map (·.task)

/-- A task is running, with certain tasks around it. -/
def Performs (machine : Machine) (around : List Task) (task : Task) : Prop :=
  task :: around <:+ machine.tasks

end Machine

/-- All tasks that come up in runs of a machine are ones that the invariant knows of. -/
def TaskInvariant.Watches (inv : TaskInvariant) (hosts : Hosts) (machine : Machine) : Prop :=
  ∀ later, machine.Reaches hosts later → ∀ around task, later.Performs around task →
    inv.Happens around task

namespace Machine

variable {inv : TaskInvariant} {hosts : Hosts} {machine next : Machine} {around : List Task}
  {task : Task} {stack : CallStack} {supply : Supply}

/-- A task is that of the innermost job, or of one around it. -/
theorem performs_cons {answer? : Option (Except RuntimeError Value)} {job : Job} {jobs : List Job} :
    Performs ⟨answer?, job :: jobs, stack, supply⟩ around task
      ↔ (task = job.task ∧ around = jobs.map (·.task))
        ∨ Performs ⟨answer?, jobs, stack, supply⟩ around task := by
  rw [Performs, Performs, tasks, tasks, List.map_cons, List.suffix_cons_iff, List.cons_eq_cons]

/-- The innermost job performs its task. -/
theorem performs_head {answer? : Option (Except RuntimeError Value)} {job : Job}
    {jobs : List Job} :
    Performs ⟨answer?, job :: jobs, stack, supply⟩ (jobs.map (·.task)) job.task :=
  List.suffix_rfl

/-- Every job performs its task, with the tasks of the jobs around it. -/
theorem performs_of_mem (machine : Machine) {job : Job} (h : job ∈ machine.jobs) :
    ∃ around, machine.Performs around job.task := by
  obtain ⟨inside, outside, hjobs⟩ := List.append_of_mem h
  refine ⟨outside.map (·.task), inside.map (·.task), ?_⟩
  rw [tasks, hjobs, List.map_append, List.map_cons]

/-- The invariant holds of everything in a machine. -/
structure Keeps (inv : TaskInvariant) (machine : Machine) : Prop where
  tasks {around : List Task} {task : Task} : machine.Performs around task → inv.Holds around task
  values : ∀ job ∈ machine.jobs, Value.AllOf inv.Admits job.values
  answer {value : Value} : machine.answer? = some (.ok value) → value.All inv.Admits

/-- The innermost job makes a good move. -/
theorem Keeps.move (hhosts : inv.Hosted hosts) {job : Job} {jobs : List Job} {move : Move}
    (h : Keeps inv ⟨none, job :: jobs, stack, supply⟩)
    (hhappens : inv.Happens (jobs.map (·.task)) job.task)
    (hmove : job.task.next hosts supply job.values = move) :
    move.Keeps inv hosts (jobs.map (·.task)) job.task :=
  hmove ▸ TaskInvariant.keeps_next supply hhosts (h.tasks performs_head)
    hhappens (h.values job (List.mem_cons_self ..))

/-- Every step keeps the invariant. -/
theorem Keeps.step (hhosts : inv.Hosted hosts) (h : machine.Keeps inv)
    (hhappens : ∀ around task, machine.Performs around task → inv.Happens around task)
    (hstep : machine.step hosts = some next) : next.Keeps inv := by
  cases step_eq_some.1 hstep with
  | start hmove | enter hmove =>
    have hsub := h.move hhosts (hhappens _ _ performs_head) hmove
    refine ⟨fun hperforms => ?_, List.forall_mem_cons.2 ⟨nofun, h.values⟩, nofun⟩
    rcases performs_cons.1 hperforms with ⟨rfl, rfl⟩ | hperforms
    · exact hsub
    · exact h.tasks hperforms
  | full | fail =>
    exact ⟨fun hperforms => h.tasks (performs_cons.2 (.inr hperforms)),
      (List.forall_mem_cons.1 h.values).2, nofun⟩
  | native hmove | finish hmove =>
    have hends := h.move hhosts (hhappens _ _ performs_head) hmove
    exact ⟨fun hperforms => h.tasks (performs_cons.2 (.inr hperforms)),
      (List.forall_mem_cons.1 h.values).2, fun heq => hends.value (Option.some.inj heq)⟩
  | resume =>
    -- the tasks stay the same, and one of them has a value more
    obtain ⟨hvalues, hrest⟩ := List.forall_mem_cons.1 h.values
    refine ⟨fun hperforms => h.tasks hperforms, List.forall_mem_cons.2 ⟨?_, hrest⟩, nofun⟩
    exact Value.AllOf.append.2 ⟨hvalues, List.forall_mem_singleton.2 (h.answer rfl)⟩

/-- **The invariant holds at every moment of a run.** -/
theorem keeps_of_reaches (hhosts : inv.Hosted hosts) (htask : inv.Holds [] task)
    (hwatches : inv.Watches hosts (start task stack supply))
    (h : (start task stack supply).Reaches hosts machine) : machine.Keeps inv := by
  induction h with
  | refl =>
    refine ⟨fun hperforms => ?_, List.forall_mem_singleton.2 nofun, nofun⟩
    rcases performs_cons.1 hperforms with ⟨rfl, rfl⟩ | hnone
    · exact htask
    · cases List.suffix_nil.1 hnone
  | tail hreaches hstep ih => exact ih.step hhosts (hwatches _ hreaches) hstep

/-- An error that is under way comes from the limit of the call stack, or from a task
    for which the invariant holds. -/
theorem error_of_reaches (hhosts : inv.Hosted hosts) (htask : inv.Holds [] task)
    (hwatches : inv.Watches hosts (start task stack supply))
    (h : (start task stack supply).Reaches hosts machine) {error : RuntimeError}
    (herror : machine.answer? = some (.error error)) :
    error = .recursionLimit stack.limit
      ∨ ∃ around task, inv.Holds around task ∧ task.Fails hosts error := by
  induction h generalizing error with
  | refl => cases herror
  | @tail before machine hreaches hstep ih =>
    have hkeeps := keeps_of_reaches hhosts htask hwatches hreaches
    cases step_eq_some.1 hstep with
    | start | enter | resume => cases herror
    | fail => exact ih herror
    -- the stack of the moment has the limit of the stack that the run began with
    | full hmove henter =>
      cases herror
      rw [CallStack.enter_eq_error henter]
      exact .inl (congrArg _ (balanced_of_reaches hreaches).limit)
    | native hmove | finish hmove =>
      have hends := hkeeps.move hhosts (hwatches _ hreaches _ _ performs_head) hmove
      exact .inr ⟨_, _, hkeeps.tasks performs_head, hends.error (Option.some.inj herror)⟩

end Machine

/-! ### Calls -/

section

variable {inv : TaskInvariant} {hosts : Hosts} {callable : Callable Value} {args : List Value}
  {stack : CallStack} {supply : Supply}

/-- A good call has a good result. -/
theorem all_of_call (hhosts : inv.Hosted hosts) (h : inv.Holds [] (.call callable args))
    (hwatches : inv.Watches hosts (.start (.call callable args) stack supply)) {value : Value}
    (hresult : (call hosts callable args stack supply).result = .ok value) :
    value.All inv.Admits :=
  (Machine.keeps_of_reaches hhosts h hwatches (gives_call callable args stack [] supply).1).answer
    (congrArg some hresult)

/-- A call fails for want of room, or with the error of a good task. -/
theorem error_of_call (hhosts : inv.Hosted hosts) (h : inv.Holds [] (.call callable args))
    (hwatches : inv.Watches hosts (.start (.call callable args) stack supply))
    {error : RuntimeError}
    (hresult : (call hosts callable args stack supply).result = .error error) :
    error = .recursionLimit stack.limit
      ∨ ∃ around task, inv.Holds around task ∧ task.Fails hosts error :=
  Machine.error_of_reaches hhosts h hwatches (gives_call callable args stack [] supply).1
    (congrArg some hresult)

end

end ExprTree

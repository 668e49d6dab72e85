import ExprTree.Proofs.Code.Derivation
import ExprTree.Proofs.Run.Termination
import ExprTree.Proofs.Tree.Reduction

namespace ExprTree

/-!
# A folded node means its constant

Where emission folds a node, a walk of the node gives the same value, and does nothing
else on the way: `Expr.emit_folded_quiet`.

`Machine.Quiet` says that of a state of the machine: it is on the stack and the supply that it
was started with, and its jobs walk operations only, none of which calls, allocates or reads
anything.  A known tree goes from quiet state to quiet state (`Expr.settles_of_known?`), and as
a machine has only one way to go there are no other states (`Machine.Path.of_reaches`).
-/

/-! ### Paths of a machine -/

namespace Machine

variable {hosts : Hosts} {P : Machine → Prop}

/-- The machine comes from one state to another, with a property in each state that it leaves. -/
def Path (hosts : Hosts) (P : Machine → Prop) (machine last : Machine) : Prop :=
  Relation.ReflTransGen (fun before after => P before ∧ before.step hosts = some after)
    machine last

theorem Path.reaches {machine last : Machine} (h : Path hosts P machine last) :
    machine.Reaches hosts last :=
  Relation.ReflTransGen.mono (fun _ _ hstep => hstep.2) _ _ h

/-- A machine that halts at the end of a path is nowhere but on the path. -/
theorem Path.of_reaches {machine last state : Machine} (h : Path hosts P machine last)
    (hlast : P last) (hend : last.step hosts = none) (hreaches : machine.Reaches hosts state) :
    P state := by
  -- step by step from the front, for a state that is reached is reached by the same first step
  induction h using Relation.ReflTransGen.head_induction_on with
  | refl =>
    obtain rfl | ⟨_, hstep, _⟩ := Relation.ReflTransGen.cases_head hreaches
    · exact hlast
    · rw [hend] at hstep
      cases hstep
  | head hstep _ ih =>
    obtain ⟨hP, hstep⟩ := hstep
    obtain rfl | ⟨_, hother, hrest⟩ := Relation.ReflTransGen.cases_head hreaches
    · exact hP
    · rw [hstep] at hother
      cases hother
      exact ih hrest

end Machine

/-! ### Quiet states -/

/-- Whether a node is a constant, an operator or a conditional.  Such a node calls nothing,
    creates nothing and reads no parameter itself. -/
def Expr.isOperation {κ : Type} : Expr κ → Bool
  | constant _ | unary _ _ | binary _ _ _ | conditional _ _ _ => true
  | _ => false

/-- A job that walks an operation. -/
def Job.Quiet (env : Env Value) (job : Job) : Prop :=
  ∃ expr, job.task = .tree expr env ∧ expr.isOperation = true

/-- A state on this stack and with this supply in which all jobs walk operations. -/
structure Machine.Quiet (env : Env Value) (stack : CallStack) (supply : Supply)
    (machine : Machine) : Prop where
  stack : machine.stack = stack
  supply : machine.supply = supply
  jobs : ∀ job ∈ machine.jobs, job.Quiet env

namespace Expr

/-! ### Known trees -/

/-- The tree is walked to this value through quiet states only, inside any jobs that are
    quiet themselves. -/
def Settles (hosts : Hosts) (env : Env Value) (stack : CallStack) (supply : Supply)
    (expr : Expr Value) (value : Value) : Prop :=
  ∀ jobs : List Job, (∀ job ∈ jobs, job.Quiet env) →
    Machine.Path hosts (Machine.Quiet env stack supply)
      ⟨none, ⟨.tree expr env, [], stack⟩ :: jobs, stack, supply⟩
      ⟨some (.ok value), jobs, stack, supply⟩

section

variable {hosts : Hosts} {env : Env Value} {stack : CallStack} {supply : Supply}
  {expr sub : Expr Value} {values : List Value} {value : Value} {jobs : List Job}

theorem quiet_cons (hexpr : expr.isOperation = true) (hjobs : ∀ job ∈ jobs, job.Quiet env) :
    ∀ job ∈ Job.mk (.tree expr env) values stack :: jobs, job.Quiet env :=
  List.forall_mem_cons.2 ⟨⟨expr, rfl, hexpr⟩, hjobs⟩

/-- An operation that is done leaves with its value. -/
theorem path_finish (hexpr : expr.isOperation = true)
    (hnext : expr.next hosts env supply values = .finish (.ok value) supply)
    (hjobs : ∀ job ∈ jobs, job.Quiet env) :
    Machine.Path hosts (Machine.Quiet env stack supply)
      ⟨none, ⟨.tree expr env, values, stack⟩ :: jobs, stack, supply⟩
      ⟨some (.ok value), jobs, stack, supply⟩ := by
  refine .single ⟨⟨rfl, rfl, quiet_cons hexpr hjobs⟩, ?_⟩
  simp only [Machine.step, Task.next, hnext]

/-- An operation that starts an operand has its value afterwards. -/
theorem path_operand (hexpr : expr.isOperation = true)
    (hnext : expr.next hosts env supply values = .start (.tree sub env))
    (hsub : sub.Settles hosts env stack supply value) (hjobs : ∀ job ∈ jobs, job.Quiet env) :
    Machine.Path hosts (Machine.Quiet env stack supply)
      ⟨none, ⟨.tree expr env, values, stack⟩ :: jobs, stack, supply⟩
      ⟨none, ⟨.tree expr env, values ++ [value], stack⟩ :: jobs, stack, supply⟩ := by
  have hquiet : ∀ job ∈ Job.mk (.tree expr env) values stack :: jobs, job.Quiet env :=
    quiet_cons hexpr hjobs
  -- to the operand, through it, and back with its value
  refine .head ⟨⟨rfl, rfl, hquiet⟩, ?_⟩ ((hsub _ hquiet).tail ⟨⟨rfl, rfl, hquiet⟩, rfl⟩)
  simp only [Machine.step, Task.next, hnext]

end

variable {hosts : Hosts} {env : Env Value} {stack : CallStack} {supply : Supply}
  {left right test yes no : Expr Value}

/-- A short circuit whose left operand decides it leaves the right one alone. -/
theorem settles_shortCircuit {op : BinaryOp} (hop : op.isShortCircuit = true) {b : Bool}
    {value : Value} (hsettled : op.settled? b = some value)
    (hleft : left.Settles hosts env stack supply (.bool b)) :
    (binary op left right).Settles hosts env stack supply value := by
  intro jobs hjobs
  refine (path_operand rfl ?_ hleft hjobs).trans (path_finish rfl ?_ hjobs)
  · rw [next, if_pos hop]
    rfl
  · rw [next, if_pos hop]
    simp only [Move.shortCircuit, Move.after, List.nil_append, Value.test, hsettled]

/-- An operator between two known trees gives what it makes of their values. -/
theorem settles_binary {op : BinaryOp} {a b value : Value}
    (hleft : left.Settles hosts env stack supply a)
    (hright : right.Settles hosts env stack supply b) (happly : op.apply a b = .ok value) :
    (binary op left right).Settles hosts env stack supply value := by
  cases hop : op.isShortCircuit with
  | true =>
    obtain ⟨x, y, rfl, rfl, rfl⟩ := BinaryOp.apply_shortCircuit hop happly
    -- the right operand is only walked if the left one has not decided
    cases hsettled : op.settled? x with
    | some found => exact settles_shortCircuit hop hsettled hleft
    | none =>
      intro jobs hjobs
      refine (path_operand rfl ?_ hleft hjobs).trans
        ((path_operand rfl ?_ hright hjobs).trans (path_finish rfl ?_ hjobs))
      all_goals
        rw [next, if_pos hop]
        simp [Move.shortCircuit, Move.after, Value.test, hsettled, Except.map]
  | false =>
    intro jobs hjobs
    refine (path_operand rfl ?_ hleft hjobs).trans
      ((path_operand rfl ?_ hright hjobs).trans (path_finish rfl ?_ hjobs))
    all_goals
      rw [next, if_neg (by simp [hop])]
      simp [Move.after, happly]

/-- A conditional with a known test walks the branch that is taken, and no other. -/
theorem settles_conditional {taken : Bool} {value : Value}
    (htest : test.Settles hosts env stack supply (.bool taken))
    (hbranch : (if taken then yes else no).Settles hosts env stack supply value) :
    (conditional test yes no).Settles hosts env stack supply value := by
  intro jobs hjobs
  refine (path_operand rfl ?_ htest hjobs).trans
    ((path_operand rfl ?_ hbranch hjobs).trans (path_finish rfl ?_ hjobs))
  all_goals cases taken <;> rfl

/-- **A known tree is walked quietly to the value that is known.** -/
theorem settles_of_known? {fold : Bool} {expr : Expr Value} {value : Value}
    (h : expr.known? fold = some value) : expr.Settles hosts env stack supply value := by
  induction expr generalizing value with
  | constant c =>
    rw [known?, Option.ite_none_right_eq_some, Option.some.injEq] at h
    obtain ⟨_, rfl⟩ := h
    exact fun jobs hjobs => path_finish rfl rfl hjobs
  | unary op operand ih =>
    rw [known?, Option.ite_none_right_eq_some] at h
    obtain ⟨a, ha, happly, _⟩ := UnaryOp.fold?_eq_some.1 h.2
    intro jobs hjobs
    refine (path_operand rfl rfl (ih ha) hjobs).trans (path_finish rfl ?_ hjobs)
    simp [next, Move.after, happly]
  | binary op left right ihl ihr =>
    rw [known?, Option.ite_none_right_eq_some] at h
    obtain ⟨a, ha, _, ⟨b, rfl, hsettled⟩ | ⟨b, hb, happly⟩⟩ := BinaryOp.fold?_eq_some h.2
    · -- nothing is known of the right operand here, so it must not be walked
      refine settles_shortCircuit ?_ hsettled (ihl ha)
      by_contra hop
      rw [BinaryOp.settled?_eq_none (Bool.eq_false_of_not_eq_true hop)] at hsettled
      cases hsettled
    · exact settles_binary (ihl ha) (ihr hb) happly
  | conditional test yes no iht ihy ihn =>
    obtain ⟨taken, htaken⟩ : ∃ taken, decided? fold test = some taken := by
      rw [known?_eq_decided] at h
      cases hdecided : decided? fold test with
      | some taken => exact ⟨taken, rfl⟩
      | none => simp [hdecided] at h
    rw [known?_of_decided htaken] at h
    rw [decided?, Option.ite_none_right_eq_some, foldTest?_eq_some] at htaken
    refine settles_conditional (iht htaken.2) ?_
    -- the value is that of the branch which is taken
    cases taken with
    | true => exact ihy h
    | false => exact ihn h
  | parameter | new | field | lambda | invoke | extension => simp [known?] at h

/-! ### What emission folds -/

/-- What a machine ends with that walks a known tree is the outcome of `eval`. -/
theorem eval_of_halts {expr : Expr Value} {value : Value}
    (h : (Machine.start (.tree expr env) stack supply).Halts hosts
      ⟨some (.ok value), [], stack, supply⟩) :
    eval hosts expr env stack supply = .done stack supply (.ok value) := by
  obtain ⟨hreaches, hstack⟩ :=
    gives_tree (fun callable args => gives_call callable args stack) expr env [] supply
  -- the machine halts in the outcome of the walk, and it halts only once
  have hends := h.eq ⟨hreaches, rfl⟩
  beta_reduce at hends hstack
  generalize eval hosts expr env stack supply = outcome at hends hstack
  obtain ⟨result, after, later, hroom⟩ := outcome
  cases hends
  obtain rfl : after = stack := hstack
  rfl

/-- **A folded node means its constant.**  When emission reports a value for a tree without
extension nodes, in any scope and with any options, then a walk of the tree gives this value in
every environment, on every call stack and with every supply of ids.  At each moment of the walk
the stack and the supply are those at the start, and no node but constants, operators and
conditionals is walked: nothing is called, nothing is allocated and no parameter is read.

Nor does emission leave anything behind in the constants and the lambdas of the function. -/
theorem emit_folded_quiet {expr : Expr Value} (hfree : expr.isExtensionFree = true)
    {options : CompilerOptions} {scope : Scope} {depth level : Nat} {state after : EmitState}
    {emitted : Emitted} {value : Value}
    (hemit : (expr.emit options scope depth level).run state = (.ok emitted, after))
    (hfolded : emitted.folded = some value) :
    (∀ hosts env stack supply,
      eval hosts expr env stack supply = .done stack supply (.ok value)
      ∧ (Machine.start (.tree expr env) stack supply).Halts hosts
          ⟨some (.ok value), [], stack, supply⟩
      ∧ ∀ machine, (Machine.start (.tree expr env) stack supply).Reaches hosts machine →
          machine.stack = stack ∧ machine.supply = supply
          ∧ ∀ job ∈ machine.jobs, ∃ sub, job.task = .tree sub env ∧ sub.isOperation = true)
    ∧ after.pool = state.pool ∧ after.layouts = state.layouts := by
  have hemits : Emits options ⟨scope, depth, level⟩ state expr emitted after := hemit
  have hknown : expr.known? options.foldConstants = some value := by
    -- emission folds what is known of the reduced tree, and there is nothing to reduce
    rw [← reduce_eq_self hfree, ← hemits.folded_eq, hfolded]
  refine ⟨fun hosts env stack supply => ?_, (hemits.of_folded hfolded).2⟩
  have hsettles : expr.Settles hosts env stack supply value := settles_of_known? hknown
  have hpath := hsettles [] (by simp)
  have hhalts : (Machine.start (.tree expr env) stack supply).Halts hosts
      ⟨some (.ok value), [], stack, supply⟩ := ⟨hpath.reaches, rfl⟩
  refine ⟨eval_of_halts hhalts, hhalts, fun machine hreaches => ?_⟩
  obtain ⟨hstack, hsupply, hjobs⟩ := hpath.of_reaches ⟨rfl, rfl, by simp⟩ rfl hreaches
  exact ⟨hstack, hsupply, hjobs⟩

/-- A conditional that drops a lambda, because a short circuit settles its test without the
    call in its right operand. -/
def droppingLambda : Expr Value :=
  .conditional
    (.binary .and (.constant (.bool false)) (.invoke (.parameter ⟨0, "f", .any⟩) []))
    (.lambda [] (.constant (.string "kept")))
    (.unary .not (.constant (.bool false)))

/-- Neither the call nor the lambda of `droppingLambda` is there when it runs, in an
    environment without parameters and on a stack without room. -/
theorem emit_folded_quiet_droppingLambda :
    ∃ emitted after,
      (droppingLambda.emit {} ⟨[⟨0, "f", .any⟩], []⟩ 1 0).run {} = (.ok emitted, after)
      ∧ emitted.folded = some (.bool true)
      ∧ eval (fun _ _ supply => (.ok .none, supply)) droppingLambda [] (.new 0) {}
        = .done (.new 0) {} (.ok (.bool true))
      ∧ after.pool = ({} : EmitState).pool ∧ after.layouts = [] := by
  have hemit : (droppingLambda.emit {} ⟨[⟨0, "f", .any⟩], []⟩ 1 0).run {} = (.ok _, _) := rfl
  obtain ⟨hruns, hpool, hlayouts⟩ := emit_folded_quiet rfl hemit rfl
  exact ⟨_, _, hemit, rfl, (hruns _ [] (.new 0) {}).1, hpool, hlayouts⟩

end Expr

end ExprTree

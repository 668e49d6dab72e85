import ExprTree.Proofs.Host
import ExprTree.Proofs.Value.Interchange

namespace ExprTree

/-!
# Runs of interchangeable closures

Calls of interchangeable functions on interchangeable arguments give interchangeable results
or the same error, and leave the same stack and the same supply (`callsInterchange`).  So a
closure depends on the free parameters of its lambda only (`Lambda.call_of_freeParameters`).

The induction is on the room on the stack, for calls, and inside it on the tree or the
code.  In a tree the environments agree on what the tree needs; in code the arguments and the
captured values are interchangeable.
-/

/-- The host does the same twice, up to what may be interchanged: where interchangeable
    values were captured and are given as arguments, and with the same ids to give out, a
    function of it gives interchangeable results and leaves the same ids. -/
def Hosts.Indifferent (hosts : Hosts) : Prop :=
  ∀ name {captured captured' args args' : List Value} (supply : Supply),
    List.Forall₂ Value.Interchangeable captured captured' →
    List.Forall₂ Value.Interchangeable args args' →
    ResultsAgree Value.Interchangeable (hosts ⟨name, captured⟩ args supply).1
        (hosts ⟨name, captured'⟩ args' supply).1
      ∧ (hosts ⟨name, captured⟩ args supply).2 = (hosts ⟨name, captured'⟩ args' supply).2

/-- The standard host looks at its arguments only as far as they are alike. -/
theorem Hosts.standard_indifferent : standard.Indifferent := by
  intro name captured captured' args args' supply _ hargs
  refine ⟨?_, rfl⟩
  show ResultsAgree _ (answer name args) (answer name args')
  unfold answer
  split
  · rw [← sumFrom_eq (Value.Interchangeable.forall₂_alike hargs)]
    exact Value.Interchangeable.results_of_eq
  · cases hargs with
    | nil => exact .ok .same
    | cons hhead _ => exact .ok hhead
  · rw [hargs.length_eq]
    exact .ok .same
  · exact .error

/-! ### Steps -/

/-- Two outcomes with interchangeable results, which leave the same stack and supply. -/
abbrev Outcome.Interchanges {stack : CallStack} (outcome outcome' : Outcome stack Value) : Prop :=
  outcome.Agrees Value.Interchangeable 0 outcome'

/-- Outcomes are gone on from in the same way, whichever ids are taken. -/
theorem Outcome.Agrees.andThen {α β : Type} {R : α → α → Prop} {S : β → β → Prop}
    {stack : CallStack} {outcome outcome' : Outcome stack α}
    {next next' : α → (after : CallStack) → after.room ≤ stack.room → Supply → Outcome after β}
    (h : outcome.Agrees R 0 outcome')
    (hnext : ∀ {a a'} (after : CallStack) (hroom : after.room ≤ stack.room) supply, R a a' →
      (next a after hroom supply).Agrees S 0 (next' a' after hroom supply)) :
    (outcome.bind next).Agrees S 0 (outcome'.bind next') :=
  h.bind fun _ _ after hroom supply _ _ ha _ => hnext after hroom supply ha

/-- Outcomes at once are interchangeable if their results are. -/
theorem interchanges_done {stack : CallStack} {supply : Supply}
    {result result' : Except RuntimeError Value}
    (h : ResultsAgree Value.Interchangeable result result') :
    (Outcome.done stack supply result).Interchanges (.done stack supply result') :=
  Outcome.agrees_done (Nat.zero_le _) h

section

variable {hosts : Hosts} {room : Nat}

/-- Calls of interchangeable functions that find at most `room` on the stack. -/
def CallsInterchange (hosts : Hosts) (room : Nat) : Prop :=
  ∀ (id : Nat) {callable callable' : Callable Value} {args args' : List Value}
    {stack : CallStack} {supply : Supply}, stack.room ≤ room →
    Value.Interchangeable (.function id callable) (.function id callable') →
    List.Forall₂ Value.Interchangeable args args' →
    (call hosts callable args stack supply).Interchanges (call hosts callable' args' stack supply)

/-- Constructor calls on interchangeable arguments make interchangeable objects. -/
theorem interchanges_instantiate {cls : ClassDef} {values values' : List Value} {stack : CallStack}
    {supply : Supply} (h : List.Forall₂ Value.Interchangeable values values') :
    (Outcome.done stack (cls.instantiate values supply).2
        (cls.instantiate values supply).1).Interchanges
      (.done stack (cls.instantiate values' supply).2 (cls.instantiate values' supply).1) := by
  rw [ClassOver.instantiate, ClassOver.instantiate,
    checkArguments_eq (Value.Interchangeable.forall₂_alike h)]
  split
  · exact interchanges_done .error
  · exact interchanges_done (.ok (.object h))

/-- Interchangeable values are both functions, or fail to be called for the same reason. -/
theorem interchanges_callValue (calls : CallsInterchange hosts room) {target target' : Value}
    {args args' : List Value} {stack : CallStack} {supply : Supply} (hroom : stack.room ≤ room)
    (htarget : Value.Interchangeable target target')
    (hargs : List.Forall₂ Value.Interchangeable args args') :
    (callValue hosts target args stack supply).Interchanges
      (callValue hosts target' args' stack supply) := by
  cases htarget with
  | same =>
    cases target with
    | function id callable => exact calls id hroom .same hargs
    | _ => exact interchanges_done .error
  | object _ => exact interchanges_done .error
  -- closures differ in what they captured only, and calls of them are what is assumed of
  | @interpreted id _ _ _ _ henv => exact calls id hroom (.interpreted henv) hargs
  | @compiled id _ _ _ _ _ hcaptured => exact calls id hroom (.compiled hcaptured) hargs
  | @native id _ _ _ _ _ hcaptured => exact calls id hroom (.native hcaptured) hargs

/-! ### Code -/

/-- Arguments are interchangeable, one by one, and so are the states after them. -/
theorem execAll_interchange {codes : List (Code Value)} {activation activation' : Activation}
    (ih : ∀ code ∈ codes, ∀ {stack : CallStack} {supply : Supply}, stack.room ≤ room →
      (exec hosts code activation stack supply).Interchanges
        (exec hosts code activation' stack supply))
    {stack : CallStack} {supply : Supply} (hroom : stack.room ≤ room) :
    (execAll hosts codes activation stack supply).Agrees (List.Forall₂ Value.Interchangeable) 0
      (execAll hosts codes activation' stack supply) := by
  induction codes generalizing stack supply with
  | nil =>
    rw [execAll, execAll]
    exact Outcome.agrees_done (Nat.zero_le _) (.ok .nil)
  | cons code rest ihrest =>
    rw [List.forall_mem_cons] at ih
    rw [execAll, execAll]
    refine (ih.1 hroom).andThen fun after hafter _ hvalue => ?_
    exact (ihrest ih.2 (Nat.le_trans hafter hroom)).andThen fun _ _ _ hvalues =>
      Outcome.agrees_done (Nat.zero_le _) (.ok (.cons hvalue hvalues))

/-- **Running code on interchangeable values**, if calls that leave no more room interchange. -/
theorem exec_interchange (calls : CallsInterchange hosts room) (code : Code Value)
    {args args' captured captured' constants : List Value}
    (hargs : List.Forall₂ Value.Interchangeable args args')
    (hcaptured : List.Forall₂ Value.Interchangeable captured captured')
    {stack : CallStack} {supply : Supply} (hroom : stack.room ≤ room) :
    (exec hosts code ⟨args, captured, constants⟩ stack supply).Interchanges
      (exec hosts code ⟨args', captured', constants⟩ stack supply) := by
  induction code generalizing stack supply with
  | literal | embedded | pooled =>
    rw [exec, exec]
    exact interchanges_done Value.Interchangeable.results_of_eq
  | slot place =>
    rw [exec, exec]
    -- captures and arguments are read at the same place of both activations
    exact interchanges_done (Activation.read_rel hargs hcaptured constants place)
  | construct cls args ih =>
    rw [exec, exec]
    exact (execAll_interchange ih hroom).andThen fun _ _ _ hvalues =>
      interchanges_done (.ok (.object hvalues))
  | instantiate cls args ih =>
    rw [exec, exec]
    exact (execAll_interchange ih hroom).andThen fun _ _ _ hvalues =>
      interchanges_instantiate hvalues
  | fieldAt target index name ih =>
    rw [exec, exec]
    exact (ih hroom).andThen fun _ _ _ hvalue => interchanges_done (hvalue.fieldAt_rel index name)
  | field target name ih =>
    rw [exec, exec]
    exact (ih hroom).andThen fun _ _ _ hvalue => interchanges_done (hvalue.field_rel name)
  | unary op operand ih =>
    rw [exec, exec]
    refine (ih hroom).andThen fun _ _ _ hvalue => interchanges_done ?_
    rw [← hvalue.alike.unary_eq op]
    exact Value.Interchangeable.results_of_eq
  | shortCircuit op left right ihl ihr =>
    rw [exec, exec]
    refine (ihl hroom).andThen fun after hafter _ hvalue => ?_
    exact Outcome.agrees_shortCircuit Value.Interchangeable.alike hvalue (Nat.zero_le _)
      (fun _ => .same) (ihr (Nat.le_trans hafter hroom))
  | arithmetic op left right ihl ihr =>
    rw [exec_direct, exec_direct]
    refine Outcome.agrees_pair (fun ha hb => ?_) (ihl hroom) fun after _ hafter _ =>
      ihr (Nat.le_trans hafter hroom)
    rw [← ha.direct_eq hb op]
    exact Value.Interchangeable.results_of_eq
  | binary op left right ihl ihr =>
    rw [exec, exec]
    refine Outcome.agrees_pair (fun ha hb => ?_) (ihl hroom) fun after _ hafter _ =>
      ihr (Nat.le_trans hafter hroom)
    rw [← ha.binary_eq hb op]
    exact Value.Interchangeable.results_of_eq
  | conditional test yes no iht ihy ihn =>
    rw [exec, exec]
    refine (iht hroom).andThen fun after hafter _ hvalue => ?_
    exact Outcome.agrees_conditional Value.Interchangeable.alike hvalue (Nat.zero_le _)
      (ihy (Nat.le_trans hafter hroom)) (ihn (Nat.le_trans hafter hroom))
  | closure params captures body _ =>
    have hrel := Activation.capture_rel hargs hcaptured constants captures
    rw [exec, exec]
    -- what is captured is read alike, so both closures are made or both fail
    generalize Activation.capture ⟨args, captured, constants⟩ captures = values at hrel ⊢
    generalize Activation.capture ⟨args', captured', constants⟩ captures = values' at hrel ⊢
    cases hrel with
    | error => exact interchanges_done .error
    | ok hvalues => exact interchanges_done (.ok (.compiled hvalues))
  | invoke target args iht ih =>
    rw [exec, exec]
    refine (iht hroom).andThen fun after hafter _ htarget => ?_
    refine (execAll_interchange ih (Nat.le_trans hafter hroom)).andThen
      fun last hlast _ hvalues => ?_
    exact interchanges_callValue calls (Nat.le_trans hlast (Nat.le_trans hafter hroom)) htarget
      hvalues

/-! ### Trees -/

/-- The operands of trees are interchangeable in environments that agree for them. -/
theorem evalAll_interchange {exprs : List (Expr Value)} {env env' : Env Value}
    (ih : ∀ expr ∈ exprs, Env.AgreeFor expr env env' → ∀ {stack : CallStack} {supply : Supply},
      stack.room ≤ room →
      (eval hosts expr env stack supply).Interchanges (eval hosts expr env' stack supply))
    (henv : ∀ expr ∈ exprs, Env.AgreeFor expr env env') {stack : CallStack} {supply : Supply}
    (hroom : stack.room ≤ room) :
    (evalAll hosts exprs env stack supply).Agrees (List.Forall₂ Value.Interchangeable) 0
      (evalAll hosts exprs env' stack supply) := by
  induction exprs generalizing stack supply with
  | nil =>
    rw [evalAll, evalAll]
    exact Outcome.agrees_done (Nat.zero_le _) (.ok .nil)
  | cons expr rest ihrest =>
    rw [List.forall_mem_cons] at ih henv
    rw [evalAll, evalAll]
    refine (ih.1 henv.1 hroom).andThen fun after hafter _ hvalue => ?_
    exact (ihrest ih.2 henv.2 (Nat.le_trans hafter hroom)).andThen fun _ _ _ hvalues =>
      Outcome.agrees_done (Nat.zero_le _) (.ok (.cons hvalue hvalues))

variable (hhosts : hosts.Indifferent)

include hhosts

/-- Functions of the host that captured interchangeable values are called alike. -/
theorem interchanges_host (name : String) {captured captured' args args' : List Value}
    (hcaptured : List.Forall₂ Value.Interchangeable captured captured')
    (hargs : List.Forall₂ Value.Interchangeable args args') {stack : CallStack} {supply : Supply} :
    (Outcome.done stack (hosts ⟨name, captured⟩ args supply).2
        (hosts ⟨name, captured⟩ args supply).1).Interchanges
      (.done stack (hosts ⟨name, captured'⟩ args' supply).2
        (hosts ⟨name, captured'⟩ args' supply).1) := by
  obtain ⟨hresult, hsupply⟩ := hhosts name supply hcaptured hargs
  exact ⟨hresult, rfl, hsupply, Nat.zero_le _⟩

/-- **Walking a tree in environments that agree on what it needs**, if calls that leave no more
    room interchange. -/
theorem eval_interchange (calls : CallsInterchange hosts room) (expr : Expr Value)
    {env env' : Env Value} (henv : Env.AgreeFor expr env env')
    {stack : CallStack} {supply : Supply} (hroom : stack.room ≤ room) :
    (eval hosts expr env stack supply).Interchanges (eval hosts expr env' stack supply) := by
  induction expr generalizing stack supply with
  | constant value =>
    rw [eval, eval]
    exact interchanges_done (.ok .same)
  | parameter param =>
    have hparam := henv param fun _ => List.mem_singleton_self param
    rw [eval, eval, Env.resolve, Env.resolve]
    generalize env.lookup? param = value at hparam ⊢
    generalize env'.lookup? param = value' at hparam ⊢
    cases hparam with
    | none => exact interchanges_done .error
    | some hvalue => exact interchanges_done (.ok hvalue)
  | new cls args ih =>
    rw [eval, eval]
    exact (evalAll_interchange ih (fun arg harg => henv.child harg) hroom).andThen
      fun _ _ _ hvalues => interchanges_instantiate hvalues
  | field target name ih =>
    have htarget := henv.child (List.mem_singleton_self target)
    rw [eval, eval]
    exact (ih htarget hroom).andThen fun _ _ _ hvalue =>
      interchanges_done (hvalue.field_rel name)
  | unary op operand ih =>
    have hoperand := henv.child (List.mem_singleton_self operand)
    rw [eval, eval]
    refine (ih hoperand hroom).andThen fun _ _ _ hvalue => interchanges_done ?_
    rw [← hvalue.alike.unary_eq op]
    exact Value.Interchangeable.results_of_eq
  | binary op left right ihl ihr =>
    have hleft : Env.AgreeFor left env env' := henv.child (by simp [Expr.children])
    have hright : Env.AgreeFor right env env' := henv.child (by simp [Expr.children])
    rw [eval, eval]
    split
    · refine (ihl hleft hroom).andThen fun after hafter _ hvalue => ?_
      exact Outcome.agrees_shortCircuit Value.Interchangeable.alike hvalue (Nat.zero_le _)
        (fun _ => .same) (ihr hright (Nat.le_trans hafter hroom))
    · refine Outcome.agrees_pair (fun ha hb => ?_) (ihl hleft hroom) fun after _ hafter _ =>
        ihr hright (Nat.le_trans hafter hroom)
      rw [← ha.binary_eq hb op]
      exact Value.Interchangeable.results_of_eq
  | conditional test yes no iht ihy ihn =>
    have htest : Env.AgreeFor test env env' := henv.child (by simp [Expr.children])
    have hyes : Env.AgreeFor yes env env' := henv.child (by simp [Expr.children])
    have hno : Env.AgreeFor no env env' := henv.child (by simp [Expr.children])
    rw [eval, eval]
    refine (iht htest hroom).andThen fun after hafter _ hvalue => ?_
    exact Outcome.agrees_conditional Value.Interchangeable.alike hvalue (Nat.zero_le _)
      (ihy hyes (Nat.le_trans hafter hroom)) (ihn hno (Nat.le_trans hafter hroom))
  | lambda params body _ =>
    -- the new closures keep their environments, which agree on what the tree needs
    rw [eval, eval]
    refine interchanges_done (.ok (.interpreted fun param hneeds => ?_))
    exact henv param (Lambda.needs_iff.1 hneeds)
  | invoke target args iht _ ih =>
    have htarget : Env.AgreeFor target env env' := henv.child (List.mem_cons_self ..)
    have hargs : ∀ arg ∈ args, Env.AgreeFor arg env env' := fun arg harg =>
      henv.child (List.mem_cons_of_mem _ harg)
    rw [eval, eval]
    refine (iht htarget hroom).andThen fun after hafter _ htarget => ?_
    refine (evalAll_interchange ih hargs (Nat.le_trans hafter hroom)).andThen
      fun last hlast _ hvalues => ?_
    exact interchanges_callValue calls (Nat.le_trans hlast (Nat.le_trans hafter hroom)) htarget
      hvalues
  | extension node operands reduction ih _ =>
    rw [eval, eval]
    exact (evalAll_interchange ih (fun operand hoperand => henv.child hoperand) hroom).andThen
      fun _ _ _ hvalues =>
        interchanges_host hhosts node.host.name (Value.Interchangeable.forall₂_refl _) hvalues

/-! ### Calls -/

/-- Calls of one lambda in environments that agree on what it needs. -/
theorem interchanges_interpreted (deeper : ∀ room' < room, CallsInterchange hosts room')
    (lambda : Lambda Value) {env env' : Env Value}
    (henv : ∀ param, lambda.Needs param →
      Option.Rel Value.Interchangeable (env.lookup? param) (env'.lookup? param))
    {args args' : List Value} (hargs : List.Forall₂ Value.Interchangeable args args')
    {stack : CallStack} {supply : Supply} (hroom : stack.room ≤ room) :
    (call hosts (.interpreted lambda.params lambda.body env) args stack supply).Interchanges
      (call hosts (.interpreted lambda.params lambda.body env') args' stack supply) := by
  have henv : Env.AgreeFor lambda.toExpr env env' := fun param hneeds =>
    henv param (Lambda.needs_iff.2 hneeds)
  rw [call, call, ← checkParameters_eq (Value.Interchangeable.forall₂_alike hargs)]
  split
  · exact interchanges_done .error
  · rename_i hok
    refine Outcome.agrees_during (Nat.zero_le _) fun inner hinner => ?_
    -- the body runs with less room than the call, and in environments that take the same arguments
    exact eval_interchange hhosts (deeper inner.room (Nat.lt_of_lt_of_le hinner hroom)) lambda.body
      (henv.bind hargs (checkParameters_eq_ok.1 hok).length_eq) (Nat.le_refl _)

/-- Calls interchange, as long as deeper calls do. -/
theorem calls_interchange (deeper : ∀ room' < room, CallsInterchange hosts room') :
    CallsInterchange hosts room := by
  have compiled : ∀ {params : List Parameter} {body : Code Value}
      {captured captured' constants args args' : List Value} {stack : CallStack} {supply : Supply},
      stack.room ≤ room → List.Forall₂ Value.Interchangeable captured captured' →
      List.Forall₂ Value.Interchangeable args args' →
      (call hosts (.compiled params body captured constants) args stack supply).Interchanges
        (call hosts (.compiled params body captured' constants) args' stack supply) := by
    intro params body captured captured' constants args args' stack supply hroom hcaptured hargs
    rw [call, call, ← checkParameters_eq (Value.Interchangeable.forall₂_alike hargs)]
    split
    · exact interchanges_done .error
    · refine Outcome.agrees_during (Nat.zero_le _) fun inner hinner => ?_
      exact exec_interchange (deeper inner.room (Nat.lt_of_lt_of_le hinner hroom)) body hargs
        hcaptured (Nat.le_refl _)
  have native : ∀ {name host : String} {arity : Nat}
      {captured captured' args args' : List Value} {stack : CallStack} {supply : Supply},
      List.Forall₂ Value.Interchangeable captured captured' →
      List.Forall₂ Value.Interchangeable args args' →
      (call hosts (.native name arity ⟨host, captured⟩) args stack supply).Interchanges
        (call hosts (.native name arity ⟨host, captured'⟩) args' stack supply) := by
    intro name host arity captured captured' args args' stack supply hcaptured hargs
    rw [call, call, hargs.length_eq]
    split
    · exact interchanges_done .error
    · exact Outcome.agrees_during (Nat.zero_le _) fun inner _ =>
        interchanges_host hhosts host hcaptured hargs
  intro id callable callable' args args' stack supply hroom hcallable hargs
  cases hcallable with
  | interpreted henv =>
    exact interchanges_interpreted hhosts deeper ⟨_, _⟩ henv hargs hroom
  | compiled hcaptured => exact compiled hroom hcaptured hargs
  | native hcaptured => exact native hcaptured hargs
  | same =>
    -- one function is called on different arguments
    cases callable with
    | interpreted params body env =>
      exact interchanges_interpreted hhosts deeper ⟨params, body⟩ (fun _ _ =>
        Value.Interchangeable.option_refl _) hargs hroom
    | compiled params body captured constants =>
      exact compiled hroom (Value.Interchangeable.forall₂_refl captured) hargs
    | native name arity host =>
      exact native (Value.Interchangeable.forall₂_refl host.captured) hargs

/-- **Calls of interchangeable functions interchange**, however deep the calls in them are
    nested. -/
theorem callsInterchange (room : Nat) : CallsInterchange hosts room := by
  induction room using Nat.strongRecOn with
  | ind room ih => exact calls_interchange hhosts ih

end

/-! ### Closures -/

namespace Lambda

/-- **Free parameters are all that a closure depends on.**  Closures of a lambda without
    extension nodes over two environments that give its free parameters the same values are
    called alike: with the same error or interchangeable results, on the same stack and with
    the same objects and functions created.

The two closures are interchangeable themselves, and so are calls of all that they give:
whatever is interchangeable may be called and passed on in each other's place. -/
theorem call_of_freeParameters {hosts : Hosts} (hhosts : hosts.Indifferent)
    {lambda : Lambda Value} (hfree : lambda.isExtensionFree = true) {env env' : Env Value}
    (henv : ∀ param ∈ lambda.freeParameters, env.lookup? param = env'.lookup? param) :
    (∀ args stack supply,
      (call hosts (.interpreted lambda.params lambda.body env) args stack supply).Interchanges
        (call hosts (.interpreted lambda.params lambda.body env') args stack supply))
      ∧ (∀ id, Value.Interchangeable (.function id (.interpreted lambda.params lambda.body env))
        (.function id (.interpreted lambda.params lambda.body env')))
      ∧ ∀ target target' args args' stack supply, Value.Interchangeable target target' →
        List.Forall₂ Value.Interchangeable args args' →
        (callValue hosts target args stack supply).Interchanges
          (callValue hosts target' args' stack supply) := by
  have hclosure : ∀ id, Value.Interchangeable
      (.function id (.interpreted lambda.params lambda.body env))
      (.function id (.interpreted lambda.params lambda.body env')) := fun id => by
    -- a tree without extensions needs no other parameters than its free ones
    refine .interpreted fun param hneeds => ?_
    rw [henv param (hneeds hfree)]
    exact Value.Interchangeable.option_refl _
  have hcalls := callsInterchange hhosts
  refine ⟨fun args stack supply => ?_, hclosure, fun _ _ _ _ stack _ htarget hargs => ?_⟩
  · exact hcalls stack.room 0 (Nat.le_refl _) (hclosure 0) (Value.Interchangeable.forall₂_refl args)
  · exact interchanges_callValue (hcalls stack.room) (Nat.le_refl _) htarget hargs

/-- A function that gives back a function, which gives back what the first one was given and
    what it knows from outside. -/
def keeper : Lambda Value :=
  ⟨[⟨0, "x", .any⟩], .lambda [⟨1, "y", .any⟩]
    (.binary .eq (.parameter ⟨0, "x", .any⟩) (.parameter ⟨2, "z", .any⟩))⟩

/-- The closures that `keeper` gives over two environments are not the same, since these bind
    `w` differently, but they are interchangeable. -/
theorem call_of_freeParameters_keeper :
    let z : Parameter := ⟨2, "z", .any⟩
    let w : Parameter := ⟨3, "w", .bool⟩
    let env (b : Bool) : Env Value := [[(w, .bool b)], [(z, .string "z")]]
    let outcome (b : Bool) := call Hosts.standard
      (.interpreted keeper.params keeper.body (env b)) [.none] (.new 1) {}
    keeper.isExtensionFree = true ∧ keeper.freeParameters = [z]
      ∧ (env true).lookup? z = (env false).lookup? z
      ∧ (env true).lookup? w ≠ (env false).lookup? w
      ∧ (outcome true).Interchanges (outcome false) := by
  intro z w env outcome
  have henv : ∀ param ∈ keeper.freeParameters,
      (env true).lookup? param = (env false).lookup? param :=
    List.forall_mem_singleton.2 rfl
  have hcalls := (call_of_freeParameters Hosts.standard_indifferent rfl henv).1
  exact ⟨rfl, rfl, rfl, nofun, hcalls [.none] (.new 1) {}⟩

end Lambda

end ExprTree

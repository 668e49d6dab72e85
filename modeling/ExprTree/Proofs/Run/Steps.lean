import ExprTree.Proofs.Run.Preservation

namespace ExprTree

/-!
# Runs of a tree

A tree can be run by walking it and by running code that it was translated to.
`Runs hosts run tree val` says that `run` is one of these, with the parameters
standing for what `val` gives them.  Code comes in many forms, with folded
operators, dropped branches and checks left out, but taken apart step by step it
does what the tree says.  There is one lemma for each kind of node, which makes
a run of the node out of runs of its operands.

* `Runs.of_known?` — what folding finds is what every run gives;
* `Runs.taken` — where the test is known, a run of a conditional is a run of the
  branch that it takes;
* `Callable.Denotes.call` — a call is a run of the body of the lambda that the
  function denotes.
-/

/-- Something that can be started on a stack, with a supply of ids. -/
abbrev Run (α : Type) := (stack : CallStack) → Supply → Outcome stack α

/-- The value of a parameter. -/
def Valuation.resolve (val : Valuation) (param : Parameter) : Except RuntimeError Value :=
  match val param with
  | some value => .ok value
  | none => .error (.undefinedParameter param.name)

/-- A way to run a tree: as it is, or as the code it was translated to.  All
    values at hand are sound, and parameters stand for values of their types. -/
inductive Runs (hosts : Hosts) : Run Value → Expr Value → Valuation → Prop
  | tree {expr : Expr Value} {env : Env Value} :
      Valuation.Typed env.lookup? → Value.AllOf Value.Fits expr.parts →
      Value.AllOf Value.Fits env.values →
      Runs hosts (fun stack supply => eval hosts expr env stack supply) expr env.lookup?
  | code {scope : Scope} {expr : Expr Value} {code : Code Value} {ty : Ty}
      {activation : Activation} :
      Translates activation.constants scope expr code ty → activation.Fits scope →
      Value.AllOf Value.Fits code.literals → Value.AllOf Value.Fits activation.values →
      Runs hosts (fun stack supply => exec hosts code activation stack supply) expr
        (activation.valuation scope)

/-- Runs of several trees, one after the other. -/
inductive RunsAll (hosts : Hosts) (val : Valuation) : Run (List Value) → List (Expr Value) → Prop
  | nil : RunsAll hosts val (fun stack supply => .done stack supply (.ok [])) []
  | cons {run : Run Value} {others : Run (List Value)} {expr : Expr Value}
      {rest : List (Expr Value)} :
      Runs hosts run expr val → RunsAll hosts val others rest →
      RunsAll hosts val (fun stack supply =>
        (run stack supply).bind fun value stack _ supply =>
          (others stack supply).bind fun values stack _ supply =>
            .done stack supply (.ok (value :: values))) (expr :: rest)

variable {hosts : Hosts} {run : Run Value} {val : Valuation}

namespace Runs

/-- The parameters stand for values of their types. -/
theorem typed {expr : Expr Value} (h : Runs hosts run expr val) : val.Typed := by
  cases h with
  | tree henv _ _ => exact henv
  | code _ hfits _ _ => exact hfits.typed

/-- What a run gives is sound. -/
theorem sound (hhosts : hosts.Sound) {expr : Expr Value} (h : Runs hosts run expr val)
    {stack : CallStack} {supply : Supply} {value : Value}
    (hresult : (run stack supply).result = .ok value) : value.Sound := by
  cases h with
  | tree henv hparts hvalues => exact eval_sound hhosts henv hparts hvalues hresult
  | code htranslates hfits hliterals hvalues =>
    exact (exec_sound hhosts htranslates hfits hliterals hvalues hresult).1

/-- A value that folding put into the code is a run of the tree it was found for. -/
theorem literal {scope : Scope} {activation : Activation} (hfits : activation.Fits scope)
    (hvalues : Value.AllOf Value.Fits activation.values) {expr : Expr Value} {value : Value}
    (h : expr.known? true = some value) :
    Runs hosts (fun stack supply => .done stack supply (.ok value)) expr
      (activation.valuation scope) := by
  have hliterals : Value.AllOf Value.Fits (Code.literal value).literals := fun c hc => by
    rw [Code.literals, List.mem_singleton] at hc
    subst hc
    exact Value.sound_of_isScalar (Value.isScalar_of_isPrimitive (Expr.isPrimitive_of_known? h))
  have hrun : Runs hosts _ expr (activation.valuation scope) :=
    .code (.literal h) hfits hliterals hvalues
  simpa only [exec] using hrun

end Runs

namespace RunsAll

/-- Trees that are walked one after the other are runs of all of them. -/
theorem tree {exprs : List (Expr Value)} {env : Env Value} (henv : Valuation.Typed env.lookup?)
    (hparts : Value.AllOf Value.Fits (Expr.partsOfAll exprs))
    (hvalues : Value.AllOf Value.Fits env.values) :
    RunsAll hosts env.lookup? (fun stack supply => evalAll hosts exprs env stack supply) exprs := by
  induction exprs with
  | nil =>
    simp only [evalAll]
    exact .nil
  | cons expr rest ih =>
    rw [Expr.partsOfAll, Value.AllOf.append] at hparts
    simp only [evalAll]
    exact .cons (.tree henv hparts.1 hvalues) (ih hparts.2)

/-- Pieces of code that run one after the other are runs of the trees they were emitted for. -/
theorem code {scope : Scope} {exprs : List (Expr Value)} {emitted : List Emitted}
    {activation : Activation} (htranslates : TranslatesAll activation.constants scope exprs emitted)
    (hfits : activation.Fits scope)
    (hliterals : Value.AllOf Value.Fits (Code.literalsOfAll (emitted.map (·.code))))
    (hvalues : Value.AllOf Value.Fits activation.values) :
    RunsAll hosts (activation.valuation scope)
      (fun stack supply => execAll hosts (emitted.map (·.code)) activation stack supply) exprs := by
  induction exprs generalizing emitted with
  | nil =>
    cases htranslates
    simp only [List.map_nil, execAll]
    exact .nil
  | cons expr rest ih =>
    cases htranslates with
    | cons hhead hrest =>
      rw [List.map_cons, Code.literalsOfAll, Value.AllOf.append] at hliterals
      simp only [List.map_cons, execAll]
      exact .cons (.code hhead hfits hliterals.1 hvalues) (ih hrest hliterals.2)

end RunsAll

/-! ### Nodes -/

namespace Outcome

variable {α β : Type} {stack : CallStack}

/-- Steps that agree on the result of the one before may replace each other. -/
theorem bind_congr {outcome : Outcome stack α}
    {next next' : α → (after : CallStack) → after.room ≤ stack.room → Supply → Outcome after β}
    (h : ∀ a after hroom supply, outcome.result = .ok a →
      next a after hroom supply = next' a after hroom supply) :
    outcome.bind next = outcome.bind next' := by
  obtain ⟨result, after, supply, hroom⟩ := outcome
  cases result with
  | error error => rfl
  | ok a =>
    simp only [bind, h a after hroom supply rfl]

/-- A result after two steps is one of the second step. -/
theorem result_of_bind {outcome : Outcome stack α}
    {next : α → (after : CallStack) → after.room ≤ stack.room → Supply → Outcome after β} {b : β}
    (h : (outcome.bind next).result = .ok b) :
    ∃ a, outcome.result = .ok a
      ∧ (next a outcome.stack outcome.room_le outcome.supply).result = .ok b := by
  obtain ⟨result, after, supply, hroom⟩ := outcome
  cases result with
  | error error => cases h
  | ok a => exact ⟨a, rfl, h⟩

/-- A result of a call is one of its body. -/
theorem result_of_during {supply : Supply}
    {body : (inner : CallStack) → inner.room < stack.room → Outcome inner α} {a : α}
    (h : (stack.during supply body).result = .ok a) :
    ∃ inner hroom, (body inner hroom).result = .ok a := by
  unfold CallStack.during at h
  split at h
  · cases h
  · exact ⟨_, _, h⟩

end Outcome

/-- What runs of several trees give is sound. -/
theorem RunsAll.sound (hhosts : hosts.Sound) {runs : Run (List Value)} {exprs : List (Expr Value)}
    (h : RunsAll hosts val runs exprs) {stack : CallStack} {supply : Supply} {values : List Value}
    (hresult : (runs stack supply).result = .ok values) : Value.AllOf Value.Fits values := by
  induction h generalizing stack supply values with
  | nil =>
    cases hresult
    simp [Value.AllOf]
  | cons hhead _ ih =>
    obtain ⟨value, hvalue, hresult⟩ := Outcome.result_of_bind hresult
    obtain ⟨others, hothers, hresult⟩ := Outcome.result_of_bind hresult
    cases hresult
    exact List.forall_mem_cons.2 ⟨hhead.sound hhosts hvalue, ih hothers⟩

namespace Runs

/-- A constant gives itself, wherever compilation has put it. -/
theorem constant {value : Value} (h : Runs hosts run (.constant value) val) :
    run = fun stack supply => .done stack supply (.ok value) := by
  funext stack supply
  cases h with
  | tree => simp only [eval]
  | code htranslates _ _ _ =>
    cases htranslates with
    | literal hknown =>
      simp only [Expr.known?, Option.ite_none_right_eq_some, Option.some.injEq] at hknown
      simp only [exec, hknown.2]
    | embedded => simp only [exec]
    | pooled hindex => simp only [exec, Activation.entry_eq_ok.2 hindex]

/-- A parameter gives what it stands for, whether it is looked up by name or read from its slot. -/
theorem parameter {param : Parameter} (h : Runs hosts run (.parameter param) val) :
    run = fun stack supply => .done stack supply (val.resolve param) := by
  funext stack supply
  cases h with
  | tree =>
    simp only [eval]
    rfl
  | code htranslates hfits _ _ =>
    cases htranslates with
    | literal hknown => cases hknown
    | slot hslot =>
      obtain ⟨value, hread, hvalue⟩ := hfits.read hslot
      simp only [exec, hread, Valuation.resolve, hvalue]

/-- A constructor call checks its arguments, or needs no check. -/
theorem new (hhosts : hosts.Sound) {cls : ClassDef} {args : List (Expr Value)}
    (h : Runs hosts run (.new cls args) val) :
    ∃ runs, RunsAll hosts val runs args ∧ run = fun stack supply =>
      (runs stack supply).bind fun values stack _ supply =>
        .done stack (cls.instantiate values supply).2 (cls.instantiate values supply).1 := by
  cases h with
  | tree henv hparts hvalues =>
    refine ⟨_, .tree henv hparts hvalues, ?_⟩
    funext stack supply
    rw [eval]
  | code htranslates hfits hliterals hvalues =>
    cases htranslates with
    | literal hknown => cases hknown
    | instantiate hargs =>
      refine ⟨_, .code hargs hfits hliterals hvalues, ?_⟩
      funext stack supply
      rw [exec]
    | construct hargs hexact =>
      refine ⟨_, .code hargs hfits hliterals hvalues, ?_⟩
      funext stack supply
      rw [exec]
      refine Outcome.bind_congr fun values after hroom supply hresult => ?_
      obtain ⟨_, htypes⟩ := execAll_sound hhosts hargs hfits hliterals hvalues hresult
      -- code that leaves the check out has found that the fields are accepted
      rw [ClassOver.instantiate_of_accepts (Ty.forall₂_accepts_of_surelyTakes hexact htypes)]

/-- A field access finds the field by its name, or where the name is known to lead. -/
theorem field (hhosts : hosts.Sound) {target : Expr Value} {name : String}
    (h : Runs hosts run (.field target name) val) :
    ∃ operand, Runs hosts operand target val ∧ run = fun stack supply =>
      (operand stack supply).bind fun value stack _ supply =>
        .done stack supply (value.field name) := by
  cases h with
  | tree henv hparts hvalues =>
    refine ⟨_, .tree henv hparts hvalues, ?_⟩
    funext stack supply
    rw [eval]
  | code htranslates hfits hliterals hvalues =>
    cases htranslates with
    | literal hknown => cases hknown
    | field htarget =>
      refine ⟨_, .code htarget hfits hliterals hvalues, ?_⟩
      funext stack supply
      rw [exec]
    | fieldAt htarget hfield =>
      refine ⟨_, .code htarget hfits hliterals hvalues, ?_⟩
      funext stack supply
      rw [exec]
      refine Outcome.bind_congr fun value after hroom supply hresult => ?_
      -- the object is of the class that was inferred, so the field is where the code looks
      rw [Value.fieldAt_eq_field
        (exec_sound hhosts htarget hfits hliterals hvalues hresult).2 hfield]

/-- An operator is applied to what a run of its operand gives, at run time or when folding. -/
theorem unary {op : UnaryOp} {operand : Expr Value} (h : Runs hosts run (.unary op operand) val) :
    ∃ inner, Runs hosts inner operand val ∧ run = fun stack supply =>
      (inner stack supply).bind fun value stack _ supply =>
        .done stack supply (op.apply value) := by
  cases h with
  | tree henv hparts hvalues =>
    refine ⟨_, .tree henv hparts hvalues, ?_⟩
    funext stack supply
    rw [eval]
  | code htranslates hfits hliterals hvalues =>
    cases htranslates with
    | literal hknown =>
      rw [Expr.known?_unary] at hknown
      obtain ⟨a, ha, hvalue, _⟩ := UnaryOp.fold?_eq_some.1 hknown
      refine ⟨_, .literal hfits hvalues ha, ?_⟩
      funext stack supply
      rw [exec, Outcome.done_bind, hvalue]
    | unary hoperand =>
      refine ⟨_, .code hoperand hfits hliterals hvalues, ?_⟩
      funext stack supply
      rw [exec]

/-- A binary operator is applied to what runs of its operands give, at run time or when folding. -/
theorem binary {op : BinaryOp} (hop : op.isShortCircuit = false) {left right : Expr Value}
    (h : Runs hosts run (.binary op left right) val) :
    ∃ first second, Runs hosts first left val ∧ Runs hosts second right val
      ∧ run = fun stack supply =>
        (first stack supply).bind fun a stack _ supply =>
          (second stack supply).bind fun b stack _ supply =>
            .done stack supply (op.apply a b) := by
  cases h with
  | tree henv hparts hvalues =>
    rw [Expr.parts, Value.AllOf.append] at hparts
    refine ⟨_, _, .tree henv hparts.1 hvalues, .tree henv hparts.2 hvalues, ?_⟩
    funext stack supply
    rw [eval, hop]
    rfl
  | code htranslates hfits hliterals hvalues =>
    cases htranslates with
    | literal hknown =>
      rw [Expr.known?_binary] at hknown
      -- only a short circuit is folded without its right operand
      obtain ⟨a, ha, _, ⟨b, _, hsettled⟩ | ⟨b, hb, hvalue⟩⟩ := BinaryOp.fold?_eq_some hknown
      · rw [BinaryOp.settled?_eq_none hop] at hsettled
        cases hsettled
      · refine ⟨_, _, .literal hfits hvalues ha, .literal hfits hvalues hb, ?_⟩
        funext stack supply
        rw [exec, Outcome.done_bind, Outcome.done_bind, hvalue]
    | shortCircuit hshort _ _ =>
      rw [hshort] at hop
      cases hop
    | binary _ hleft hright =>
      rw [Code.literals, Value.AllOf.append] at hliterals
      refine ⟨_, _, .code hleft hfits hliterals.1 hvalues,
        .code hright hfits hliterals.2 hvalues, ?_⟩
      funext stack supply
      rw [exec]
    | arithmetic harith hleft hright =>
      rw [Code.literals, Value.AllOf.append] at hliterals
      refine ⟨_, _, .code hleft hfits hliterals.1 hvalues,
        .code hright hfits hliterals.2 hvalues, ?_⟩
      funext stack supply
      rw [exec_arithmetic harith, exec]

/-- A short circuit is known as a whole, or evaluates its right operand when the
    left one does not settle it. -/
theorem shortCircuit {op : BinaryOp} (hop : op.isShortCircuit = true) {left right : Expr Value}
    (h : Runs hosts run (.binary op left right) val) :
    (∃ value, (Expr.binary op left right).known? true = some value
      ∧ run = fun stack supply => .done stack supply (.ok value))
    ∨ ∃ first second, Runs hosts first left val ∧ Runs hosts second right val
      ∧ run = fun stack supply =>
        (first stack supply).bind fun value stack _ supply =>
          match value.test op.symbol with
          | .error error => .done stack supply (.error error)
          | .ok b =>
            match op.settled? b with
            | some result => .done stack supply (.ok result)
            | none =>
              (second stack supply).bind fun value stack _ supply =>
                .done stack supply ((value.test op.symbol).map .bool) := by
  cases h with
  | tree henv hparts hvalues =>
    rw [Expr.parts, Value.AllOf.append] at hparts
    refine .inr ⟨_, _, .tree henv hparts.1 hvalues, .tree henv hparts.2 hvalues, ?_⟩
    funext stack supply
    rw [eval, hop]
    rfl
  | code htranslates hfits hliterals hvalues =>
    cases htranslates with
    | literal hknown =>
      -- the right operand may be anything here, so no run of it is asked for
      refine .inl ⟨_, hknown, ?_⟩
      funext stack supply
      rw [exec]
    | shortCircuit _ hleft hright =>
      rw [Code.literals, Value.AllOf.append] at hliterals
      refine .inr ⟨_, _, .code hleft hfits hliterals.1 hvalues,
        .code hright hfits hliterals.2 hvalues, ?_⟩
      funext stack supply
      apply Eq.trans
      · rw [exec]
      · rfl
    | binary hnot _ _ =>
      rw [hop] at hnot
      cases hnot
    | arithmetic harith _ _ =>
      rw [BinaryOp.isShortCircuit_of_isArithmetic harith] at hop
      cases hop

/-- A conditional is a branch that was chosen already, or tests and chooses. -/
theorem conditional {test yes no : Expr Value}
    (h : Runs hosts run (.conditional test yes no) val) :
    (∃ taken, test.known? true = some (.bool taken)
      ∧ Runs hosts run (if taken then yes else no) val)
    ∨ ∃ first second third, Runs hosts first test val ∧ Runs hosts second yes val
      ∧ Runs hosts third no val ∧ run = fun stack supply =>
        (first stack supply).bind fun value stack _ supply =>
          match value.test "condition" with
          | .error error => .done stack supply (.error error)
          | .ok true => second stack supply
          | .ok false => third stack supply := by
  cases h with
  | tree henv hparts hvalues =>
    rw [Expr.parts, Value.AllOf.append, Value.AllOf.append] at hparts
    refine .inr ⟨_, _, _, .tree henv hparts.1.1 hvalues, .tree henv hparts.1.2 hvalues,
      .tree henv hparts.2 hvalues, ?_⟩
    funext stack supply
    apply Eq.trans
    · rw [eval]
    · rfl
  | code htranslates hfits hliterals hvalues =>
    cases htranslates with
    | literal hknown =>
      -- the branch that is not taken need not be known
      obtain ⟨taken, htest, hbranch⟩ := Expr.known?_conditional.1 hknown
      exact .inl ⟨taken, htest, .code (.literal hbranch) hfits hliterals hvalues⟩
    | taken htest hbranch => exact .inl ⟨_, htest, .code hbranch hfits hliterals hvalues⟩
    | conditional htest hyes hno =>
      rw [Code.literals, Value.AllOf.append, Value.AllOf.append] at hliterals
      refine .inr ⟨_, _, _, .code htest hfits hliterals.1.1 hvalues,
        .code hyes hfits hliterals.1.2 hvalues, .code hno hfits hliterals.2 hvalues, ?_⟩
      funext stack supply
      apply Eq.trans
      · rw [exec]
      · rfl

/-- A lambda becomes a function that denotes it and knows the parameters it reads
    as they are at the place of its creation. -/
theorem lambda {params : List Parameter} {body : Expr Value}
    (h : Runs hosts run (.lambda params body) val) :
    ∃ callable known, callable.Denotes ⟨params, body⟩ known
      ∧ Value.AllOf Value.Fits callable.parts
      ∧ (∀ param ∈ Lambda.reads ⟨params, body⟩, known param = val param)
      ∧ run = fun stack supply =>
        .done stack (supply.function callable).2 (.ok (supply.function callable).1) := by
  cases h with
  | tree henv hparts hvalues =>
    refine ⟨_, _, .interpreted henv, Value.AllOf.append.2 ⟨hparts, hvalues⟩,
      fun _ _ => rfl, ?_⟩
    funext stack supply
    rw [eval]
  | code htranslates hfits hliterals hvalues =>
    cases htranslates with
    | literal hknown => cases hknown
    | closure hnests hbody =>
      -- compiled code captures what the lambda reads and nothing else
      obtain ⟨captured, hcapture, hcaptured⟩ := hnests.capture hfits
      refine ⟨_, _, hnests.denotes hbody (hcaptured.imp fun param value => hfits.typed param value),
        RunInvariant.allOf_parts_compiled hliterals hvalues hcaptured, fun param hparam => ?_, ?_⟩
      · exact Valuation.captured_of_mem hcaptured (hnests.covers param hparam)
      · funext stack supply
        rw [exec, hcapture]

/-- An invocation evaluates the target and then the arguments, and calls. -/
theorem invoke {target : Expr Value} {args : List (Expr Value)}
    (h : Runs hosts run (.invoke target args) val) :
    ∃ first others, Runs hosts first target val ∧ RunsAll hosts val others args
      ∧ run = fun stack supply =>
        (first stack supply).bind fun target stack _ supply =>
          (others stack supply).bind fun values stack _ supply =>
            callValue hosts target values stack supply := by
  cases h with
  | tree henv hparts hvalues =>
    rw [Expr.parts, Value.AllOf.append] at hparts
    refine ⟨_, _, .tree henv hparts.1 hvalues, .tree henv hparts.2 hvalues, ?_⟩
    funext stack supply
    rw [eval]
    rfl
  | code htranslates hfits hliterals hvalues =>
    cases htranslates with
    | literal hknown => cases hknown
    | direct hnests hbody hargs =>
      rw [Code.literals, Value.AllOf.append] at hliterals
      -- a direct call makes the closure all the same
      refine ⟨_, _, .code (.closure hnests hbody) hfits hliterals.1 hvalues,
        .code hargs hfits hliterals.2 hvalues, ?_⟩
      funext stack supply
      apply Eq.trans
      · rw [exec]
      · rfl
    | invoke htarget hargs =>
      rw [Code.literals, Value.AllOf.append] at hliterals
      refine ⟨_, _, .code htarget hfits hliterals.1 hvalues,
        .code hargs hfits hliterals.2 hvalues, ?_⟩
      funext stack supply
      rw [exec]
      rfl

/-- An extension node asks the host, whatever it could be reduced to; there is no
    code for it.  What its function captured is sound. -/
theorem extension {node : ExtensionNode Value} {operands : List (Expr Value)}
    {reduction : Option (Expr Value)}
    (h : Runs hosts run (.extension node operands reduction) val) :
    Value.AllOf Value.Fits node.host.captured
      ∧ ∃ runs, RunsAll hosts val runs operands ∧ run = fun stack supply =>
        (runs stack supply).bind fun values stack _ supply =>
          .done stack (hosts node.host values supply).2 (hosts node.host values supply).1 := by
  cases h with
  | tree henv hparts hvalues =>
    -- the reduction is not walked, so of the parts those of the node and the operands count
    obtain ⟨hcaptured, hoperands⟩ := Value.AllOf.append.1 (hparts.of_subset fun _ hc =>
      Expr.subset_parts_extension node operands reduction hc)
    refine ⟨hcaptured, _, .tree henv hoperands hvalues, ?_⟩
    funext stack supply
    rw [eval]
  | code htranslates _ _ _ =>
    cases htranslates with
    | literal hknown => cases hknown

/-! ### Known values -/

/-- **Folding finds what every run gives.** -/
theorem of_known? {expr : Expr Value} {value : Value} (hknown : expr.known? true = some value)
    (h : Runs hosts run expr val) : run = fun stack supply => .done stack supply (.ok value) := by
  induction expr generalizing run value with
  | constant c =>
    simp only [Expr.known?, Option.ite_none_right_eq_some, Option.some.injEq] at hknown
    rw [h.constant, hknown.2]
  | unary op operand ih =>
    rw [Expr.known?_unary] at hknown
    obtain ⟨a, ha, hvalue, _⟩ := UnaryOp.fold?_eq_some.1 hknown
    obtain ⟨inner, hinner, rfl⟩ := h.unary
    rw [ih ha hinner]
    simp only [Outcome.done_bind, hvalue]
  | binary op left right ihl ihr =>
    cases hop : op.isShortCircuit with
    | false =>
      rw [Expr.known?_binary] at hknown
      obtain ⟨first, second, hfirst, hsecond, rfl⟩ := h.binary hop
      obtain ⟨a, ha, _, ⟨b, _, hsettled⟩ | ⟨b, hb, hvalue⟩⟩ := BinaryOp.fold?_eq_some hknown
      · rw [BinaryOp.settled?_eq_none hop] at hsettled
        cases hsettled
      · rw [ihl ha hfirst, ihr hb hsecond]
        simp only [Outcome.done_bind, hvalue]
    | true =>
      rcases h.shortCircuit hop with ⟨found, hfound, rfl⟩ | ⟨first, second, hfirst, hsecond, rfl⟩
      · rw [hknown] at hfound
        cases hfound
        rfl
      · rw [Expr.known?_binary] at hknown
        obtain ⟨a, ha, _, ⟨b, rfl, hsettled⟩ | ⟨b, hb, hvalue⟩⟩ := BinaryOp.fold?_eq_some hknown
        · rw [ihl ha hfirst]
          simp only [Outcome.done_bind, Value.test, hsettled]
        · obtain ⟨x, y, rfl, rfl, rfl⟩ := BinaryOp.apply_shortCircuit hop hvalue
          rw [ihl ha hfirst, ihr hb hsecond]
          funext stack supply
          simp only [Outcome.done_bind, Value.test]
          cases hsettled : op.settled? x <;> simp [Except.map]
  | conditional test yes no iht ihy ihn =>
    obtain ⟨taken, htest, hbranch⟩ := Expr.known?_conditional.1 hknown
    -- the induction goes into the branch that is taken
    have ihbranch : ∀ {run : Run Value}, Runs hosts run (if taken then yes else no) val →
        run = fun stack supply => .done stack supply (.ok value) := by
      cases taken with
      | true => exact ihy hbranch
      | false => exact ihn hbranch
    rcases h.conditional with ⟨chosen, hchosen, hrun⟩ | ⟨first, second, third, h₁, h₂, h₃, rfl⟩
    · rw [htest] at hchosen
      cases hchosen
      exact ihbranch hrun
    · rw [iht htest h₁]
      cases taken with
      | true => simpa only [Outcome.done_bind, Value.test] using ihbranch h₂
      | false => simpa only [Outcome.done_bind, Value.test] using ihbranch h₃
  | parameter | new | field | lambda | invoke | extension => simp [Expr.known?] at hknown

/-- Where the test is known, the conditional is the branch that it takes. -/
theorem taken {test yes no : Expr Value} {taken : Bool}
    (htest : test.known? true = some (.bool taken))
    (h : Runs hosts run (.conditional test yes no) val) :
    Runs hosts run (if taken then yes else no) val := by
  rcases h.conditional with ⟨chosen, hchosen, hrun⟩ | ⟨first, second, third, h₁, h₂, h₃, rfl⟩
  · rw [htest] at hchosen
    cases hchosen
    exact hrun
  · rw [of_known? htest h₁]
    cases taken with
    | true => exact h₂
    | false => exact h₃

end Runs

/-! ### Calls -/

/-- A call checks its arguments and runs the body of the lambda that the function
    denotes, on the stack that the call enters. -/
theorem Callable.Denotes.call (hosts : Hosts) {callable : Callable Value} {lambda : Lambda Value}
    (h : callable.Denotes lambda val) (hparts : Value.AllOf Value.Fits callable.parts)
    {args : List Value} (hargs : Value.AllOf Value.Fits args) :
    ∃ run : Run Value,
      (checkParameters lambda.params args = .ok () →
        Runs hosts run lambda.body (val.bind lambda.params args))
      ∧ ∀ stack supply, ExprTree.call hosts callable args stack supply =
        match checkParameters lambda.params args with
        | .error error => .done stack supply (.error error)
        | .ok () => stack.during supply fun inner _ => run inner supply := by
  cases h with
  | @interpreted params body env henv =>
    rw [Callable.parts, Value.AllOf.append] at hparts
    refine ⟨fun stack supply => eval hosts body (Frame.bind params args :: env) stack supply,
      fun hcheck => ?_, fun stack supply => ?_⟩
    · -- the body is walked behind the arguments, which are typed now
      have hargsTyped := checkParameters_eq_ok.1 hcheck
      rw [← Env.lookup?_bind hargsTyped.length_eq]
      refine .tree ?_ hparts.1 fun value hvalue =>
        (Env.values_cons hvalue).elim (hargs value) (hparts.2 value)
      rw [Env.lookup?_bind hargsTyped.length_eq]
      exact henv.bind hargsTyped
    · apply Eq.trans
      · rw [ExprTree.call]
      · rfl
  | @compiled params captures body code ty captured constants htranslates hcaptured =>
    rw [Callable.parts, Value.AllOf.append, Value.AllOf.append] at hparts
    refine ⟨fun stack supply => exec hosts code ⟨args, captured, constants⟩ stack supply,
      fun hcheck => ?_, fun stack supply => ?_⟩
    · have hfits : Activation.Fits ⟨args, captured, constants⟩ ⟨params, captures⟩ :=
        ⟨checkParameters_eq_ok.1 hcheck, hcaptured⟩
      refine .code htranslates hfits hparts.1.1 ?_
      rw [Activation.values, Value.AllOf.append, Value.AllOf.append]
      exact ⟨⟨hargs, hparts.1.2⟩, hparts.2⟩
    · apply Eq.trans
      · rw [ExprTree.call]
      · rfl

end ExprTree

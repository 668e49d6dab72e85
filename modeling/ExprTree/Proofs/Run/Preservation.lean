import ExprTree.Proofs.Value.Soundness

namespace ExprTree

/-!
# What runs preserve

A `RunInvariant` is about two things at once: the supply of ids, and which values
there may be.  Creating an object or a function may let more values in, and so may
the host.  What creating one object, creating one function and calling the host
preserves, every run preserves:

* `RunInvariant.keeps_eval` — walking a tree;
* `RunInvariant.keeps_exec` — running the code of a tree, where the result also
  has the type that was inferred for the code;
* `RunInvariant.keeps_call` — calling a function.
-/

-- Runs are opened one step at a time.
attribute [grind =] eval evalAll exec execAll call

/-- A property of everything that any of several values holds. -/
def Value.AllOf (φ : Value → Prop) (values : List Value) : Prop :=
  ∀ value ∈ values, value.All φ

/-- A property of the supply and of the values in play that holds again after each
    single step: `Holds supply φ` says that the values satisfying `φ` may be in
    play while `supply` has the next ids. -/
structure RunInvariant (hosts : Hosts) where
  Holds : Supply → (Value → Prop) → Prop
  fits {supply : Supply} {φ : Value → Prop} {value : Value} :
    Holds supply φ → φ value → value.Fits
  scalar {supply : Supply} {φ : Value → Prop} {value : Value} :
    Holds supply φ → value.isScalar = true → φ value
  object {supply : Supply} {φ : Value → Prop} {cls : ClassDef} {fields : List Value} :
    Holds supply φ → Value.AllOf φ fields →
    List.Forall₂ (fun (field : Field) value => field.ty.accepts value = true) cls.fields fields →
    ∃ φ', (∀ value, φ value → φ' value) ∧ Holds (supply.object cls fields).2 φ'
      ∧ φ' (supply.object cls fields).1
  function {supply : Supply} {φ : Value → Prop} {callable : Callable Value} :
    Holds supply φ → callable.Fits → Value.AllOf φ callable.parts →
    ∃ φ', (∀ value, φ value → φ' value) ∧ Holds (supply.function callable).2 φ'
      ∧ φ' (supply.function callable).1
  host {supply : Supply} {φ : Value → Prop} {host : HostFunction Value} {args : List Value} :
    Holds supply φ → Value.AllOf φ host.captured → Value.AllOf φ args →
    ∃ φ', (∀ value, φ value → φ' value) ∧ Holds (hosts host args supply).2 φ'
      ∧ ∀ value, (hosts host args supply).1 = .ok value → value.All φ'

namespace Value.AllOf

variable {φ φ' : Value → Prop} {values values' : List Value}

theorem mono (h : AllOf φ values) (hle : ∀ value, φ value → φ' value) : AllOf φ' values :=
  fun value hvalue => (h value hvalue).mono hle

theorem of_subset (h : AllOf φ values) (hsub : ∀ value ∈ values', value ∈ values) :
    AllOf φ values' :=
  fun value hvalue => h value (hsub value hvalue)

theorem append : AllOf φ (values ++ values') ↔ AllOf φ values ∧ AllOf φ values' := by
  simp only [AllOf, List.mem_append]
  exact ⟨fun h => ⟨fun v hv => h v (.inl hv), fun v hv => h v (.inr hv)⟩,
    fun h v hv => hv.elim (h.1 v) (h.2 v)⟩

end Value.AllOf

/-! ### Outcomes -/

namespace Outcome

variable {hosts : Hosts} {α β : Type} {stack : CallStack}

/-- The invariant holds again after a step, for the values that there were before
    and maybe more; a result satisfies `Q`. -/
def Keeps (inv : RunInvariant hosts) (φ : Value → Prop) (Q : (Value → Prop) → α → Prop)
    (outcome : Outcome stack α) : Prop :=
  ∃ φ', (∀ value, φ value → φ' value) ∧ inv.Holds outcome.supply φ'
    ∧ ∀ a, outcome.result = .ok a → Q φ' a

variable {inv : RunInvariant hosts} {φ : Value → Prop} {Q : (Value → Prop) → α → Prop}

/-- A result at once is kept if it is fit for what is asked. -/
theorem keeps_done {supply : Supply} {result : Except RuntimeError α}
    (h : inv.Holds supply φ) (hQ : ∀ a, result = .ok a → Q φ a) :
    (done stack supply result).Keeps inv φ Q :=
  ⟨φ, fun _ h => h, h, hQ⟩

theorem keeps_error {supply : Supply} {error : RuntimeError} (h : inv.Holds supply φ) :
    (done stack supply (.error error) : Outcome stack α).Keeps inv φ Q :=
  keeps_done h fun _ hnone => by cases hnone

/-- Going on after a value that took no call to find. -/
@[simp] theorem done_bind {supply : Supply} {a : α}
    {next : α → (after : CallStack) → after.room ≤ stack.room → Supply → Outcome after β} :
    (done stack supply (.ok a)).bind next = next a stack (Nat.le_refl _) supply :=
  rfl

/-- What holds with more values from the start holds all the more. -/
theorem Keeps.mono {φ' : Value → Prop} {outcome : Outcome stack α}
    (hle : ∀ value, φ value → φ' value) (h : outcome.Keeps inv φ' Q) : outcome.Keeps inv φ Q := by
  obtain ⟨φ'', hle', hrest⟩ := h
  exact ⟨φ'', fun value hvalue => hle' value (hle value hvalue), hrest⟩

theorem Keeps.weaken {R : (Value → Prop) → α → Prop} {outcome : Outcome stack α}
    (h : outcome.Keeps inv φ Q) (hQR : ∀ φ' a, Q φ' a → R φ' a) : outcome.Keeps inv φ R := by
  obtain ⟨φ', hle, hinv, hresult⟩ := h
  exact ⟨φ', hle, hinv, fun a ha => hQR φ' a (hresult a ha)⟩

/-- The step after a step may count on what the first one gave. -/
theorem Keeps.bind {R : (Value → Prop) → β → Prop} {outcome : Outcome stack α}
    {next : α → (after : CallStack) → after.room ≤ stack.room → Supply → Outcome after β}
    (h : outcome.Keeps inv φ Q)
    (hnext : ∀ (φ' : Value → Prop) a (after : CallStack) (hroom : after.room ≤ stack.room) supply,
      (∀ value, φ value → φ' value) → inv.Holds supply φ' → Q φ' a →
      (next a after hroom supply).Keeps inv φ' R) :
    (outcome.bind next).Keeps inv φ R := by
  obtain ⟨φ', hle, hinv, hresult⟩ := h
  obtain ⟨result, after, supply, hroom⟩ := outcome
  cases result with
  | error error => exact ⟨φ', hle, hinv, fun a h => by cases h⟩
  | ok a => exact Keeps.mono hle (hnext φ' a after hroom supply hle hinv (hresult a rfl))

/-- A call gives what its body gives. -/
theorem keeps_during {supply : Supply}
    {body : (inner : CallStack) → inner.room < stack.room → Outcome inner α}
    (h : inv.Holds supply φ) (hbody : ∀ inner hroom, (body inner hroom).Keeps inv φ Q) :
    (stack.during supply body).Keeps inv φ Q := by
  unfold CallStack.during
  split
  · exact keeps_error h
  · exact hbody _ _

end Outcome

/-- Direct arithmetic runs its operands one after the other. -/
theorem exec_direct {hosts : Hosts} {op : BinaryOp} {left right : Code Value}
    {activation : Activation} {stack : CallStack} {supply : Supply} :
    exec hosts (.arithmetic op left right) activation stack supply
      = (exec hosts left activation stack supply).bind fun a stack _ supply =>
        (exec hosts right activation stack supply).bind fun b stack _ supply =>
          .done stack supply (op.direct a b) := by
  rw [exec]
  congr 1
  funext a stack _ supply
  congr 1
  funext b stack _ supply
  cases a with
  | number m => cases b <;> rfl
  | _ => rfl

/-- Direct arithmetic is the operator, whatever the operands turn out to be. -/
theorem exec_arithmetic {hosts : Hosts} {op : BinaryOp} (hop : op.isArithmetic = true)
    {left right : Code Value} {activation : Activation} {stack : CallStack} {supply : Supply} :
    exec hosts (.arithmetic op left right) activation stack supply
      = exec hosts (.binary op left right) activation stack supply := by
  rw [exec_direct, exec, BinaryOp.direct_eq_apply hop]

/-- Calls what an expression gave: anything but a function is an error. -/
def callValue (hosts : Hosts) (target : Value) (args : List Value) (stack : CallStack)
    (supply : Supply) : Outcome stack Value :=
  match target with
  | .function _ callable => call hosts callable args stack supply
  | other => .done stack supply (.error (.notCallable other.typeName))

/-! ### Runs -/

namespace RunInvariant

variable {hosts : Hosts} (inv : RunInvariant hosts)

section

variable {inv} {supply : Supply} {φ : Value → Prop}

/-- Scalars are always let in. -/
theorem all_of_isScalar (h : inv.Holds supply φ) {value : Value} (hvalue : value.isScalar = true) :
    value.All φ :=
  Value.all_of_parts_eq_nil (Value.parts_of_isScalar hvalue) (inv.scalar h hvalue)

variable {stack : CallStack}

/-- The constructor of a class gives nothing unless the object is sound. -/
theorem keeps_instantiate (h : inv.Holds supply φ) {cls : ClassDef} {args : List Value}
    (hargs : Value.AllOf φ args) :
    (Outcome.done stack (cls.instantiate args supply).2 (cls.instantiate args supply).1).Keeps
      inv φ (fun φ' value => value.All φ' ∧ (Ty.object cls).accepts value = true) := by
  unfold ClassOver.instantiate
  split
  · exact Outcome.keeps_error h
  · rename_i hcheck
    obtain ⟨φ', hle, hinv, hobject⟩ :=
      inv.object h hargs (ClassOver.checkArguments_eq_ok.1 hcheck)
    refine ⟨φ', hle, hinv, fun value hvalue => ?_⟩
    cases hvalue
    exact ⟨Value.all_iff.2 ⟨hobject, hargs.mono hle⟩, by simp [Ty.accepts]⟩

/-- A new function is one of the values in play. -/
theorem keeps_function (h : inv.Holds supply φ) {callable : Callable Value}
    (hfits : callable.Fits) (hparts : Value.AllOf φ callable.parts) :
    (Outcome.done stack (supply.function callable).2 (.ok (supply.function callable).1)).Keeps
      inv φ (fun φ' value =>
        value.All φ' ∧ (Ty.function (some callable.arity)).accepts value = true) := by
  obtain ⟨φ', hle, hinv, hfunction⟩ := inv.function h hfits hparts
  refine ⟨φ', hle, hinv, fun value hvalue => ?_⟩
  cases hvalue
  exact ⟨Value.all_iff.2 ⟨hfunction, hparts.mono hle⟩, by simp [Supply.function, Ty.accepts]⟩

/-- What the host gives is in play, and so is what it has made for that. -/
theorem keeps_host (h : inv.Holds supply φ) {host : HostFunction Value} {args : List Value}
    (hcaptured : Value.AllOf φ host.captured) (hargs : Value.AllOf φ args) :
    (Outcome.done stack (hosts host args supply).2 (hosts host args supply).1).Keeps inv φ
      fun φ' value => value.All φ' :=
  inv.host h hcaptured hargs

end

/-- Calls that find at most `room` on the stack keep the invariant. -/
def CallsKeep (room : Nat) : Prop :=
  ∀ {φ : Value → Prop} {callable : Callable Value} {args : List Value} {stack : CallStack}
    {supply : Supply},
    stack.room ≤ room → inv.Holds supply φ → callable.Fits → Value.AllOf φ callable.parts →
    Value.AllOf φ args →
    (call hosts callable args stack supply).Keeps inv φ fun φ' value => value.All φ'

/-- What a run of a tree or of code may count on: room for calls, the invariant,
    and that what the tree or the code holds and the values that can be read are in
    play. -/
structure Ready (inv : RunInvariant hosts) (room : Nat) (φ : Value → Prop)
    (held values : List Value) (stack : CallStack) (supply : Supply) : Prop where
  room : stack.room ≤ room
  holds : inv.Holds supply φ
  held : Value.AllOf φ held
  values : Value.AllOf φ values

namespace Ready

variable {inv} {room : Nat} {φ φ' : Value → Prop} {held held' values : List Value}
  {stack after : CallStack} {supply supply' : Supply}

/-- After a step of the run more values may be in play. -/
theorem later (h : Ready inv room φ held values stack supply)
    (hafter : after.room ≤ stack.room) (hle : ∀ value, φ value → φ' value)
    (hholds : inv.Holds supply' φ') : Ready inv room φ' held values after supply' :=
  ⟨Nat.le_trans hafter h.room, hholds, h.held.mono hle, h.values.mono hle⟩

theorem left (h : Ready inv room φ (held ++ held') values stack supply) :
    Ready inv room φ held values stack supply :=
  ⟨h.room, h.holds, (Value.AllOf.append.1 h.held).1, h.values⟩

theorem right (h : Ready inv room φ (held ++ held') values stack supply) :
    Ready inv room φ held' values stack supply :=
  ⟨h.room, h.holds, (Value.AllOf.append.1 h.held).2, h.values⟩

end Ready

variable {inv} {room : Nat}

/-- A value is called if it is a function, and then its parts are as admitted as it is. -/
theorem keeps_callValue (calls : inv.CallsKeep room) {φ : Value → Prop} {target : Value}
    {args : List Value} {stack : CallStack} {supply : Supply} (hroom : stack.room ≤ room)
    (h : inv.Holds supply φ) (htarget : target.All φ) (hargs : Value.AllOf φ args) :
    (callValue hosts target args stack supply).Keeps inv φ fun φ' value => value.All φ' := by
  unfold callValue
  split
  · exact calls hroom h (inv.fits h htarget.self) (fun part hpart => htarget.part hpart) hargs
  · exact Outcome.keeps_error h

/-! ### Walking trees -/

/-- Walking a tree keeps the invariant. -/
def EvalKeeps (inv : RunInvariant hosts) (room : Nat) (env : Env Value) (expr : Expr Value) :
    Prop :=
  ∀ ⦃φ : Value → Prop⦄ ⦃stack : CallStack⦄ ⦃supply : Supply⦄,
    Ready inv room φ expr.parts env.values stack supply →
    (eval hosts expr env stack supply).Keeps inv φ fun φ' value => value.All φ'

/-- The arguments of a call or constructor are run one after the other. -/
theorem keeps_evalAll {exprs : List (Expr Value)} {env : Env Value}
    (ih : ∀ expr ∈ exprs, EvalKeeps inv room env expr) {φ : Value → Prop} {stack : CallStack}
    {supply : Supply} (h : Ready inv room φ (Expr.partsOfAll exprs) env.values stack supply) :
    (evalAll hosts exprs env stack supply).Keeps inv φ Value.AllOf := by
  induction exprs generalizing φ stack supply with
  | nil =>
    rw [evalAll]
    refine Outcome.keeps_done h.holds fun values hresult => ?_
    cases hresult
    simp [Value.AllOf]
  | cons expr rest ihrest =>
    rw [evalAll]
    refine (ih expr (List.mem_cons_self ..) h.left).bind
      fun φ₁ value after hafter supply hle hholds hvalue => ?_
    -- the rest is walked with the values that have come in
    have h := h.right.later hafter hle hholds
    refine (ihrest (fun e he => ih e (List.mem_cons_of_mem _ he)) h).bind
      fun φ₂ values _ _ _ hle hholds hvalues => ?_
    refine Outcome.keeps_done hholds fun result hresult => ?_
    cases hresult
    simpa [Value.AllOf] using ⟨hvalue.mono hle, hvalues⟩

namespace EvalKeeps

variable {env : Env Value} {params : List Parameter} {args : List (Expr Value)}
  {target operand left right test yes no body : Expr Value}

/-- A constant is one of the values that the tree holds. -/
theorem constant {value : Value} : EvalKeeps inv room env (.constant value) := by
  intro φ stack supply h
  rw [eval]
  refine Outcome.keeps_done h.holds fun result hresult => ?_
  cases hresult
  exact h.held value (List.mem_singleton_self value)

/-- A parameter is looked up among the values of the environment. -/
theorem parameter {param : Parameter} : EvalKeeps inv room env (.parameter param) := by
  intro φ stack supply h
  rw [eval]
  exact Outcome.keeps_done h.holds fun result hresult =>
    h.values result (Env.mem_values_of_resolve hresult)

/-- The fields are walked in order, and the constructor makes one object of them. -/
theorem new {cls : ClassDef} (hargs : ∀ arg ∈ args, EvalKeeps inv room env arg) :
    EvalKeeps inv room env (.new cls args) := by
  intro φ stack supply h
  rw [eval]
  refine (keeps_evalAll hargs h).bind fun φ₁ values after hafter supply hle hholds hvalues => ?_
  exact (keeps_instantiate hholds hvalues).weaken fun _ _ => And.left

/-- A field is a part of its object. -/
theorem field {name : String} (htarget : EvalKeeps inv room env target) :
    EvalKeeps inv room env (.field target name) := by
  intro φ stack supply h
  rw [eval]
  refine (htarget h).bind fun φ₁ value after hafter supply hle hholds hvalue => ?_
  exact Outcome.keeps_done hholds fun result hresult => hvalue.of_field hresult

/-- Operators give scalars. -/
theorem unary {op : UnaryOp} (hoperand : EvalKeeps inv room env operand) :
    EvalKeeps inv room env (.unary op operand) := by
  intro φ stack supply h
  rw [eval]
  refine (hoperand h).bind fun φ₁ value after hafter supply hle hholds hvalue => ?_
  exact Outcome.keeps_done hholds fun result hresult =>
    all_of_isScalar hholds (UnaryOp.apply_eq_ok hresult).2

/-- A binary operator gives a scalar, in whichever way it comes to its result. -/
theorem binary {op : BinaryOp} (hleft : EvalKeeps inv room env left)
    (hright : EvalKeeps inv room env right) : EvalKeeps inv room env (.binary op left right) := by
  intro φ stack supply h
  rw [eval]
  split
  · -- a short circuit gives a truth value, whichever operand settles it
    refine (hleft h.left).bind fun φ₁ value after hafter supply hle hholds hvalue => ?_
    split
    · exact Outcome.keeps_error hholds
    · split
      · rename_i result hsettled
        refine Outcome.keeps_done hholds fun value hresult => ?_
        cases hresult
        rw [BinaryOp.settled?_eq_some hsettled]
        exact all_of_isScalar hholds rfl
      · refine (hright (h.right.later hafter hle hholds)).bind
          fun φ₂ value after hafter supply hle hholds hvalue => ?_
        refine Outcome.keeps_done hholds fun result hresult => ?_
        obtain ⟨b, _, rfl⟩ := Value.exists_of_map_test hresult
        exact all_of_isScalar hholds rfl
  · refine (hleft h.left).bind fun φ₁ a after hafter supply hle hholds ha => ?_
    refine (hright (h.right.later hafter hle hholds)).bind
      fun φ₂ b after hafter supply hle hholds hb => ?_
    exact Outcome.keeps_done hholds fun result hresult =>
      all_of_isScalar hholds (BinaryOp.isScalar_of_apply hresult)

/-- The result is that of a branch, after the test. -/
theorem conditional (htest : EvalKeeps inv room env test) (hyes : EvalKeeps inv room env yes)
    (hno : EvalKeeps inv room env no) : EvalKeeps inv room env (.conditional test yes no) := by
  intro φ stack supply h
  rw [eval]
  refine (htest h.left.left).bind fun φ₁ value after hafter supply hle hholds hvalue => ?_
  split
  · exact Outcome.keeps_error hholds
  · exact hyes (h.left.right.later hafter hle hholds)
  · exact hno (h.right.later hafter hle hholds)

/-- A closure is made of the body and of what the environment holds. -/
theorem lambda (henv : Valuation.Typed env.lookup?) :
    EvalKeeps inv room env (.lambda params body) := by
  intro φ stack supply h
  have hfits : Callable.Fits (.interpreted params body env) :=
    .inr ⟨⟨params, body⟩, env.lookup?, .interpreted henv⟩
  rw [eval]
  exact (keeps_function h.holds hfits (Value.AllOf.append.2 ⟨h.held, h.values⟩)).weaken
    fun _ _ => And.left

/-- What is called comes first, then its arguments, and the call is made with less room. -/
theorem invoke (calls : inv.CallsKeep room) (htarget : EvalKeeps inv room env target)
    (hargs : ∀ arg ∈ args, EvalKeeps inv room env arg) :
    EvalKeeps inv room env (.invoke target args) := by
  intro φ stack supply h
  rw [eval]
  refine (htarget h.left).bind fun φ₁ target after hafter supply hle hholds htarget => ?_
  have h := h.right.later hafter hle hholds
  refine (keeps_evalAll hargs h).bind fun φ₂ values after hafter supply hle hholds hvalues => ?_
  exact keeps_callValue calls (Nat.le_trans hafter h.room) hholds (htarget.mono hle) hvalues

/-- The host is called with what it captured, which the node holds, and the operands. -/
theorem extension {node : ExtensionNode Value} {operands : List (Expr Value)}
    {reduction : Option (Expr Value)} (h : ∀ operand ∈ operands, EvalKeeps inv room env operand) :
    EvalKeeps inv room env (.extension node operands reduction) := by
  intro φ stack supply hready
  obtain ⟨hcaptured, hoperands⟩ := Value.AllOf.append.1 (hready.held.of_subset fun _ hc =>
    Expr.subset_parts_extension node operands reduction hc)
  rw [eval]
  refine (keeps_evalAll h ⟨hready.room, hready.holds, hoperands, hready.values⟩).bind
    fun φ₁ values after hafter supply hle hholds hvalues => ?_
  exact keeps_host hholds (hcaptured.mono hle) hvalues

end EvalKeeps

/-- Walking a tree keeps the invariant. -/
theorem keeps_eval (calls : inv.CallsKeep room) {env : Env Value}
    (henv : Valuation.Typed env.lookup?) (expr : Expr Value) : EvalKeeps inv room env expr := by
  induction expr with
  | constant value => exact .constant
  | parameter param => exact .parameter
  | new cls args ih => exact .new ih
  | field target name ih => exact .field ih
  | unary op operand ih => exact .unary ih
  | binary op left right ihl ihr => exact .binary ihl ihr
  | conditional test yes no iht ihy ihn => exact .conditional iht ihy ihn
  | lambda params body _ => exact .lambda henv
  | invoke target args iht _ ih => exact .invoke calls iht ih
  | extension node operands reduction ih _ => exact .extension ih

/-! ### Running code -/

/-- Running code keeps the invariant and gives a value of type `ty`, in every call
    whose tables fit the scope. -/
def CodeKeeps (inv : RunInvariant hosts) (room : Nat) (constants : List Value) (scope : Scope)
    (code : Code Value) (ty : Ty) : Prop :=
  ∀ ⦃φ : Value → Prop⦄ ⦃activation : Activation⦄ ⦃stack : CallStack⦄ ⦃supply : Supply⦄,
    activation.Fits scope → activation.constants = constants →
    Ready inv room φ code.literals activation.values stack supply →
    (exec hosts code activation stack supply).Keeps inv φ
      fun φ' value => value.All φ' ∧ ty.accepts value = true

/-- Several pieces of code give values of the types that were inferred. -/
theorem keeps_execAll {constants : List Value} {scope : Scope} {args : List (Expr Value)}
    {emitted : List Emitted}
    (ih : List.Forall₂ (fun _ (e : Emitted) => CodeKeeps inv room constants scope e.code e.ty)
      args emitted)
    {φ : Value → Prop} {activation : Activation} {stack : CallStack} {supply : Supply}
    (hfits : activation.Fits scope) (hconstants : activation.constants = constants)
    (h : Ready inv room φ (Code.literalsOfAll (emitted.map (·.code))) activation.values stack
      supply) :
    (execAll hosts (emitted.map (·.code)) activation stack supply).Keeps inv φ
      fun φ' values => Value.AllOf φ' values
        ∧ List.Forall₂ (fun (e : Emitted) value => e.ty.accepts value = true) emitted values := by
  induction ih generalizing φ stack supply with
  | nil =>
    rw [List.map_nil, execAll]
    refine Outcome.keeps_done h.holds fun values hresult => ?_
    cases hresult
    exact ⟨by simp [Value.AllOf], .nil⟩
  | cons hhead _ ihrest =>
    rw [List.map_cons, execAll]
    refine (hhead hfits hconstants h.left).bind
      fun φ₁ value after hafter supply hle hholds hvalue => ?_
    refine (ihrest (h.right.later hafter hle hholds)).bind
      fun φ₂ values _ _ _ hle hholds hvalues => ?_
    refine Outcome.keeps_done hholds fun result hresult => ?_
    cases hresult
    -- a value that was let in earlier is let in still
    exact ⟨by simpa [Value.AllOf] using ⟨hvalue.1.mono hle, hvalues.1⟩, .cons hvalue.2 hvalues.2⟩

/-- A call of compiled code gives a value of the type of the code. -/
theorem keeps_call_compiled {scope : Scope} {code : Code Value} {ty : Ty}
    {captured constants args : List Value} {φ : Value → Prop} {stack : CallStack} {supply : Supply}
    (hcode : ∀ room' < stack.room, CodeKeeps inv room' constants scope code ty)
    (hcaptured : List.Forall₂ (fun (param : Parameter) value => param.ty.accepts value = true)
      (scope.captures.map (·.1)) captured)
    (h : inv.Holds supply φ)
    (hparts : Value.AllOf φ (Callable.compiled scope.params code captured constants).parts)
    (hargs : Value.AllOf φ args) :
    (call hosts (.compiled scope.params code captured constants) args stack supply).Keeps inv φ
      fun φ' value => value.All φ' ∧ ty.accepts value = true := by
  rw [call]
  split
  · exact Outcome.keeps_error h
  · rename_i hcheck
    rw [Callable.parts, Value.AllOf.append, Value.AllOf.append] at hparts
    refine Outcome.keeps_during h fun inner hinner => ?_
    have hvalues : Value.AllOf φ (Activation.values ⟨args, captured, constants⟩) := by
      rw [Activation.values, Value.AllOf.append, Value.AllOf.append]
      exact ⟨⟨hargs, hparts.1.2⟩, hparts.2⟩
    -- the body has less room, since the call has taken its place on the stack
    exact hcode inner.room hinner ⟨checkParameters_eq_ok.1 hcheck, hcaptured⟩ rfl
      ⟨Nat.le_refl _, h, hparts.1.1, hvalues⟩

/-- A closure holds only what the call that creates it can read. -/
theorem allOf_parts_compiled {φ : Value → Prop} {scope : Scope} {activation : Activation}
    {params captures : List Parameter} {code : Code Value} {captured : List Value}
    (hliterals : Value.AllOf φ code.literals) (hvalues : Value.AllOf φ activation.values)
    (hcaptured : List.Forall₂ (fun param value => activation.valuation scope param = some value)
      captures captured) :
    Value.AllOf φ (Callable.compiled params code captured activation.constants).parts := by
  have hread := hvalues.of_subset (Activation.mem_of_captured hcaptured)
  rw [Activation.values, Value.AllOf.append] at hvalues
  rw [Callable.parts, Value.AllOf.append, Value.AllOf.append]
  exact ⟨⟨hliterals, hread⟩, hvalues.2⟩

namespace CodeKeeps

variable {constants : List Value} {scope inner : Scope} {args : List (Expr Value)}
  {emitted : List Emitted} {code target operand left right test yes no body : Code Value}
  {ty leftTy rightTy testTy yesTy noTy : Ty} {value : Value}

/-- What is kept with more room is kept with less. -/
theorem of_le {room' : Nat} (h : CodeKeeps inv room constants scope code ty)
    (hle : room' ≤ room) : CodeKeeps inv room' constants scope code ty :=
  fun _ _ _ _ hfits hconstants hready => h hfits hconstants
    ⟨Nat.le_trans hready.room hle, hready.holds, hready.held, hready.values⟩

/-- A literal is one of the values that the code holds. -/
theorem literal : CodeKeeps inv room constants scope (.literal value) value.typeOf := by
  intro φ activation stack supply hfits hconstants h
  rw [exec]
  refine Outcome.keeps_done h.holds fun result hresult => ?_
  cases hresult
  exact ⟨h.held value (by simp [Code.literals]), Value.accepts_typeOf value⟩

/-- A value that is embedded in the code is one of the values that it holds. -/
theorem embedded : CodeKeeps inv room constants scope (.embedded value) value.typeOf := by
  intro φ activation stack supply hfits hconstants h
  rw [exec]
  refine Outcome.keeps_done h.holds fun result hresult => ?_
  cases hresult
  exact ⟨h.held value (by simp [Code.literals]), Value.accepts_typeOf value⟩

/-- A pooled value is one of the constants of the activation. -/
theorem pooled {index : Nat} (hindex : constants[index]? = some value) :
    CodeKeeps inv room constants scope (.pooled index) value.typeOf := by
  intro φ activation stack supply hfits hconstants h
  subst hconstants
  rw [exec]
  refine Outcome.keeps_done h.holds fun result hresult => ?_
  rw [Activation.entry_eq_ok, hindex] at hresult
  cases hresult
  exact ⟨h.values value (List.mem_append_right _ (List.mem_of_getElem? hindex)),
    Value.accepts_typeOf value⟩

/-- A slot is read where the scope has put its parameter. -/
theorem slot {param : Parameter} {slot : Slot} (hslot : scope.resolve? param = some slot) :
    CodeKeeps inv room constants scope (.slot slot) param.ty := by
  intro φ activation stack supply hfits hconstants h
  obtain ⟨value, hread, hvalue⟩ := hfits.read hslot
  rw [exec, hread]
  refine Outcome.keeps_done h.holds fun result hresult => ?_
  cases hresult
  exact ⟨h.values value (Activation.mem_of_valuation hvalue), hfits.typed param value hvalue⟩

/-- An object that is made by its constructor is one of its class. -/
theorem instantiate {cls : ClassDef}
    (hargs : List.Forall₂ (fun _ (e : Emitted) => CodeKeeps inv room constants scope e.code e.ty)
      args emitted) :
    CodeKeeps inv room constants scope (.instantiate cls (emitted.map (·.code)))
      (.object cls) := by
  intro φ activation stack supply hfits hconstants h
  rw [exec]
  refine (keeps_execAll hargs hfits hconstants h).bind
    fun φ₁ values after hafter supply hle hholds hvalues => ?_
  exact keeps_instantiate hholds hvalues.1

/-- Where the inferred types allow it, the constructor would accept its arguments. -/
theorem construct {cls : ClassDef}
    (hargs : List.Forall₂ (fun _ (e : Emitted) => CodeKeeps inv room constants scope e.code e.ty)
      args emitted)
    (hexact : List.Forall₂ (fun field (e : Emitted) => field.ty.surelyTakes e.ty = true)
      cls.fields emitted) :
    CodeKeeps inv room constants scope (.construct cls (emitted.map (·.code))) (.object cls) := by
  intro φ activation stack supply hfits hconstants h
  rw [exec]
  refine (keeps_execAll hargs hfits hconstants h).bind
    fun φ₁ values after hafter supply hle hholds hvalues => ?_
  have hcheck := Ty.forall₂_accepts_of_surelyTakes hexact hvalues.2
  have hkeeps : (Outcome.done after (cls.instantiate values supply).2
      (cls.instantiate values supply).1).Keeps inv φ₁ _ := keeps_instantiate hholds hvalues.1
  rwa [ClassOver.instantiate_of_accepts hcheck] at hkeeps

/-- Of a field that was found at run time nothing is known. -/
theorem field {name : String} (htarget : CodeKeeps inv room constants scope target ty) :
    CodeKeeps inv room constants scope (.field target name) .any := by
  intro φ activation stack supply hfits hconstants h
  rw [exec]
  refine (htarget hfits hconstants h).bind
    fun φ₁ value after hafter supply hle hholds hvalue => ?_
  exact Outcome.keeps_done hholds fun result hresult => ⟨hvalue.1.of_field hresult, rfl⟩

/-- A field at a fixed position has the type that the class gives it. -/
theorem fieldAt {cls : ClassDef} {name : String} {index : Nat} {field : Field}
    (htarget : CodeKeeps inv room constants scope target (.object cls))
    (hfield : cls.field? name = some (index, field)) :
    CodeKeeps inv room constants scope (.fieldAt target index name) field.ty := by
  intro φ activation stack supply hfits hconstants h
  rw [exec]
  refine (htarget hfits hconstants h).bind
    fun φ₁ value after hafter supply hle hholds hvalue => ?_
  refine Outcome.keeps_done hholds fun result hresult => ?_
  rw [Value.fieldAt_eq_field hvalue.2 hfield] at hresult
  exact ⟨hvalue.1.of_field hresult,
    (inv.fits hholds hvalue.1.self).accepts_field hvalue.2 hfield hresult⟩

/-- An operator gives a scalar of its result type. -/
theorem unary {op : UnaryOp} (hoperand : CodeKeeps inv room constants scope operand ty) :
    CodeKeeps inv room constants scope (.unary op operand) ((op.resultTy? ty).getD .any) := by
  intro φ activation stack supply hfits hconstants h
  rw [exec]
  refine (hoperand hfits hconstants h).bind
    fun φ₁ value after hafter supply hle hholds hvalue => ?_
  exact Outcome.keeps_done hholds fun result hresult =>
    ⟨all_of_isScalar hholds (UnaryOp.apply_eq_ok hresult).2, UnaryOp.accepts_apply hresult⟩

/-- A short circuit gives a truth value, whichever operand settles it. -/
theorem shortCircuit {op : BinaryOp} (hleft : CodeKeeps inv room constants scope left leftTy)
    (hright : CodeKeeps inv room constants scope right rightTy) :
    CodeKeeps inv room constants scope (.shortCircuit op left right) .bool := by
  intro φ activation stack supply hfits hconstants h
  rw [exec]
  refine (hleft hfits hconstants h.left).bind
    fun φ₁ value after hafter supply hle hholds hvalue => ?_
  split
  · exact Outcome.keeps_error hholds
  · split
    · rename_i result hsettled
      refine Outcome.keeps_done hholds fun value hresult => ?_
      cases hresult
      rw [BinaryOp.settled?_eq_some hsettled]
      exact ⟨all_of_isScalar hholds rfl, rfl⟩
    · refine (hright hfits hconstants (h.right.later hafter hle hholds)).bind
        fun φ₂ value after hafter supply hle hholds hvalue => ?_
      refine Outcome.keeps_done hholds fun result hresult => ?_
      obtain ⟨b, _, rfl⟩ := Value.exists_of_map_test hresult
      exact ⟨all_of_isScalar hholds rfl, rfl⟩

/-- A binary operator gives a scalar of its result type. -/
theorem binary {op : BinaryOp} (hleft : CodeKeeps inv room constants scope left leftTy)
    (hright : CodeKeeps inv room constants scope right rightTy) :
    CodeKeeps inv room constants scope (.binary op left right)
      ((op.resultTy? leftTy rightTy).getD .any) := by
  intro φ activation stack supply hfits hconstants h
  rw [exec]
  refine (hleft hfits hconstants h.left).bind fun φ₁ a after hafter supply hle hholds ha => ?_
  refine (hright hfits hconstants (h.right.later hafter hle hholds)).bind
    fun φ₂ b after hafter supply hle hholds hb => ?_
  exact Outcome.keeps_done hholds fun result hresult =>
    ⟨all_of_isScalar hholds (BinaryOp.isScalar_of_apply hresult),
      BinaryOp.accepts_apply ha.2 hb.2 hresult⟩

/-- Direct arithmetic gives what the operator gives, which is a number. -/
theorem arithmetic {op : BinaryOp} (hop : op.isArithmetic = true)
    (hleft : CodeKeeps inv room constants scope left .number)
    (hright : CodeKeeps inv room constants scope right .number) :
    CodeKeeps inv room constants scope (.arithmetic op left right) .number := by
  intro φ activation stack supply hfits hconstants h
  have hkeeps : CodeKeeps inv room constants scope (.binary op left right) _ := binary hleft hright
  have hbinary := hkeeps hfits hconstants h
  rwa [BinaryOp.resultTy?_number hop, ← exec_arithmetic hop] at hbinary

/-- The result of a branch is accepted by what both branches have in common. -/
theorem conditional (htest : CodeKeeps inv room constants scope test testTy)
    (hyes : CodeKeeps inv room constants scope yes yesTy)
    (hno : CodeKeeps inv room constants scope no noTy) :
    CodeKeeps inv room constants scope (.conditional test yes no) (yesTy.join noTy) := by
  intro φ activation stack supply hfits hconstants h
  rw [exec]
  refine (htest hfits hconstants h.left.left).bind
    fun φ₁ value after hafter supply hle hholds hvalue => ?_
  split
  · exact Outcome.keeps_error hholds
  · exact (hyes hfits hconstants (h.left.right.later hafter hle hholds)).weaken
      fun _ _ hv => ⟨hv.1, Ty.accepts_join (.inl hv.2)⟩
  · exact (hno hfits hconstants (h.right.later hafter hle hholds)).weaken
      fun _ _ hv => ⟨hv.1, Ty.accepts_join (.inr hv.2)⟩

/-- A closure is made of captures that are typed, so it denotes its lambda. -/
theorem closure {params : List Parameter} {expr : Expr Value}
    (hnests : scope.Nests ⟨params, expr⟩ inner) (hbody : Translates constants inner expr body ty) :
    CodeKeeps inv room constants scope (.closure params inner.captureList body)
      (.function (some params.length)) := by
  intro φ activation stack supply hfits hconstants h
  obtain ⟨captured, hcapture, hcaptured⟩ := hnests.capture hfits
  have hdenotes := hnests.denotes (hconstants ▸ hbody)
    (hcaptured.imp fun param value => hfits.typed param value)
  rw [exec, hcapture]
  exact keeps_function h.holds (.inr ⟨_, _, hdenotes⟩)
    (allOf_parts_compiled h.held h.values hcaptured)

/-- A closure that is called at once gives what its code gives: the call finds the
    closure that was just made. -/
theorem direct {params : List Parameter} {expr : Expr Value}
    (hnests : scope.Nests ⟨params, expr⟩ inner) (hbody : Translates constants inner expr body ty)
    (hkeeps : CodeKeeps inv room constants inner body ty)
    (hargs : List.Forall₂ (fun _ (e : Emitted) => CodeKeeps inv room constants scope e.code e.ty)
      args emitted) :
    CodeKeeps inv room constants scope
      (.invoke (.closure params inner.captureList body) (emitted.map (·.code))) ty := by
  intro φ activation stack supply hfits hconstants h
  obtain ⟨own, captures⟩ := inner
  obtain rfl : own = params := hnests.params
  obtain ⟨captured, hcapture, hcaptured⟩ := hnests.capture hfits
  have htyped := hcaptured.imp fun param value => hfits.typed param value
  have hdenotes := hnests.denotes hbody htyped
  have hparts : Value.AllOf φ (Callable.compiled own body captured activation.constants).parts :=
    allOf_parts_compiled h.left.held h.values hcaptured
  rw [hconstants] at hparts
  -- a closure that is called at once is made nevertheless, so it may take an id
  obtain ⟨φ₁, hle₁, hholds, hclosure⟩ := inv.function h.holds (.inr ⟨_, _, hdenotes⟩) hparts
  have h := h.right.later (Nat.le_refl _) hle₁ hholds
  rw [exec, exec, hcapture, hconstants, Outcome.done_bind]
  refine .mono hle₁ ?_
  refine (keeps_execAll hargs hfits hconstants h).bind
    fun φ₂ values after hafter supply hle hholds hvalues => ?_
  refine keeps_call_compiled (fun room' hroom' => hkeeps.of_le ?_) htyped hholds
    ((hparts.mono hle₁).mono hle) hvalues.1
  exact Nat.le_trans (Nat.le_of_lt hroom') (Nat.le_trans hafter h.room)

/-- Of the result of a call nothing is known. -/
theorem invoke (calls : inv.CallsKeep room) (htarget : CodeKeeps inv room constants scope target ty)
    (hargs : List.Forall₂ (fun _ (e : Emitted) => CodeKeeps inv room constants scope e.code e.ty)
      args emitted) :
    CodeKeeps inv room constants scope (.invoke target (emitted.map (·.code))) .any := by
  intro φ activation stack supply hfits hconstants h
  rw [exec]
  refine (htarget hfits hconstants h.left).bind
    fun φ₁ target after hafter supply hle hholds htarget => ?_
  have h := h.right.later hafter hle hholds
  refine (keeps_execAll hargs hfits hconstants h).bind
    fun φ₂ values after hafter supply hle hholds hvalues => ?_
  exact (keeps_callValue calls (Nat.le_trans hafter h.room) hholds (htarget.1.mono hle)
    hvalues.1).weaken fun _ _ hv => ⟨hv, rfl⟩

end CodeKeeps

/-- Running the code of a tree keeps the invariant, and the result has the type
    that was inferred. -/
theorem keeps_exec (calls : inv.CallsKeep room) {constants : List Value} {scope : Scope}
    {expr : Expr Value} {code : Code Value} {ty : Ty}
    (htranslates : Translates constants scope expr code ty) :
    CodeKeeps inv room constants scope code ty := by
  refine Translates.inductionOn ?literal ?embedded ?pooled ?slot ?instantiate ?construct ?field
    ?fieldAt ?unary ?shortCircuit ?binary ?arithmetic ?conditional ?taken ?closure ?direct ?invoke
    htranslates
  case literal => exact fun _ _ _ _ => .literal
  case embedded => exact fun _ _ => .embedded
  case pooled => exact fun _ _ _ hindex => .pooled hindex
  case slot => exact fun _ _ _ hslot => .slot hslot
  case instantiate => exact fun _ _ _ _ ih => .instantiate ih
  case construct => exact fun _ _ _ _ ih hexact => .construct ih hexact
  case field => exact fun _ _ _ _ _ ih => .field ih
  case fieldAt => exact fun _ _ _ _ _ _ _ ih hfield => .fieldAt ih hfield
  case unary => exact fun _ _ _ _ _ ih => .unary ih
  case shortCircuit => exact fun _ _ _ _ _ _ _ _ _ ihl ihr => .shortCircuit ihl ihr
  case binary => exact fun _ _ _ _ _ _ _ _ _ ihl ihr => .binary ihl ihr
  case arithmetic => exact fun _ _ _ _ _ _ hop ihl ihr => .arithmetic hop ihl ihr
  case conditional => exact fun _ _ _ _ _ _ _ _ _ _ iht ihy ihn => .conditional iht ihy ihn
  case taken => exact fun _ _ _ _ _ _ _ _ ih => ih
  case closure => exact fun _ _ _ _ _ _ hnests hbody _ => .closure hnests hbody
  case direct => exact fun _ _ _ _ _ _ _ _ hnests hbody ih ihargs => .direct hnests hbody ih ihargs
  case invoke => exact fun _ _ _ _ _ _ ih ihargs => .invoke calls ih ihargs

/-! ### Calls -/

/-- Calls keep the invariant, as long as deeper calls do. -/
theorem keeps_call (deeper : ∀ room' < room, inv.CallsKeep room') : inv.CallsKeep room := by
  intro φ callable args stack supply hroom h hfits hparts hargs
  rcases hfits with ⟨name, arity, host, rfl⟩ | ⟨lambda, val, hdenotes⟩
  · rw [call]
    split
    · exact Outcome.keeps_error h
    · exact Outcome.keeps_during h fun inner hinner => keeps_host h hparts hargs
  · cases hdenotes with
    | @interpreted params body env henv =>
      rw [Callable.parts, Value.AllOf.append] at hparts
      rw [call]
      split
      · exact Outcome.keeps_error h
      · rename_i hcheck
        have hargsTyped := checkParameters_eq_ok.1 hcheck
        -- the arguments were accepted, so the body finds typed values under its parameters
        have hinnerTyped : Valuation.Typed (Env.lookup? (Frame.bind params args :: env)) := by
          rw [Env.lookup?_bind hargsTyped.length_eq]
          exact henv.bind hargsTyped
        have hvalues : Value.AllOf φ (Env.values (Frame.bind params args :: env)) :=
          fun value hvalue => (Env.values_cons hvalue).elim (hargs value) (hparts.2 value)
        refine Outcome.keeps_during h fun inner hinner => ?_
        have calls : inv.CallsKeep inner.room :=
          deeper inner.room (Nat.lt_of_lt_of_le hinner hroom)
        exact keeps_eval calls hinnerTyped body ⟨Nat.le_refl _, h, hparts.1, hvalues⟩
    | @compiled params captures body code ty captured constants htranslates hcaptured =>
      have hcode : ∀ room' < stack.room, CodeKeeps inv room' constants ⟨params, captures⟩ code ty :=
        fun room' hroom' => keeps_exec (deeper room' (Nat.lt_of_lt_of_le hroom' hroom)) htranslates
      exact (keeps_call_compiled hcode hcaptured h hparts hargs).weaken fun _ _ => And.left

/-- **Every call keeps the invariant**, however deep the calls in it are nested. -/
theorem callsKeep (inv : RunInvariant hosts) (room : Nat) : inv.CallsKeep room := by
  induction room using Nat.strongRecOn with
  | ind room ih => exact keeps_call ih

end RunInvariant

/-! ### Soundness -/

/-- The host makes sound values of sound ones: of those that a function captured and of
    its arguments. -/
def Hosts.Sound (hosts : Hosts) : Prop :=
  ∀ (host : HostFunction Value) args supply value, Value.AllOf Value.Fits host.captured →
    Value.AllOf Value.Fits args → (hosts host args supply).1 = .ok value → value.Sound

/-- All values in play are sound. -/
def RunInvariant.soundness {hosts : Hosts} (hhosts : hosts.Sound) : RunInvariant hosts where
  Holds _ φ := φ = Value.Fits
  fits h hvalue := h ▸ hvalue
  scalar h hvalue := h ▸ Value.fits_of_isScalar hvalue
  object h _ hfields := ⟨_, fun _ h => h, h, h ▸ hfields⟩
  function h hcallable _ := ⟨_, fun _ h => h, h, h ▸ hcallable⟩
  host {supply _ host args} h hcaptured hargs := by
    subst h
    exact ⟨_, fun _ h => h, rfl, fun value => hhosts host args supply value hcaptured hargs⟩

variable {hosts : Hosts} {stack : CallStack} {supply : Supply}

/-- With soundness for the invariant, nothing but values that fit comes in. -/
theorem Outcome.Keeps.of_soundness {hhosts : hosts.Sound} {α : Type}
    {Q : (Value → Prop) → α → Prop} {outcome : Outcome stack α}
    (h : outcome.Keeps (.soundness hhosts) Value.Fits Q) {a : α} (ha : outcome.result = .ok a) :
    Q Value.Fits a := by
  obtain ⟨_, _, rfl, hresult⟩ := h
  exact hresult a ha

/-- What a tree evaluates to is sound. -/
theorem eval_sound (hhosts : hosts.Sound) {expr : Expr Value} {env : Env Value} {value : Value}
    (henv : Valuation.Typed env.lookup?) (hparts : Value.AllOf Value.Fits expr.parts)
    (hvalues : Value.AllOf Value.Fits env.values)
    (hresult : (eval hosts expr env stack supply).result = .ok value) : value.Sound :=
  (RunInvariant.keeps_eval (RunInvariant.callsKeep (.soundness hhosts) stack.room) henv expr
    ⟨Nat.le_refl _, rfl, hparts, hvalues⟩).of_soundness hresult

/-- What the code of a tree gives is sound and has the type that was inferred. -/
theorem exec_sound (hhosts : hosts.Sound) {scope : Scope} {expr : Expr Value} {code : Code Value}
    {ty : Ty} {activation : Activation} {value : Value}
    (htranslates : Translates activation.constants scope expr code ty)
    (hfits : activation.Fits scope) (hliterals : Value.AllOf Value.Fits code.literals)
    (hvalues : Value.AllOf Value.Fits activation.values)
    (hresult : (exec hosts code activation stack supply).result = .ok value) :
    value.Sound ∧ ty.accepts value = true :=
  (RunInvariant.keeps_exec (RunInvariant.callsKeep (.soundness hhosts) stack.room) htranslates
    hfits rfl ⟨Nat.le_refl _, rfl, hliterals, hvalues⟩).of_soundness hresult

/-- Several pieces of code give values of the types that were inferred for them. -/
theorem execAll_sound (hhosts : hosts.Sound) {scope : Scope} {exprs : List (Expr Value)}
    {emitted : List Emitted} {activation : Activation} {values : List Value}
    (htranslates : TranslatesAll activation.constants scope exprs emitted)
    (hfits : activation.Fits scope)
    (hliterals : Value.AllOf Value.Fits (Code.literalsOfAll (emitted.map (·.code))))
    (hvalues : Value.AllOf Value.Fits activation.values)
    (hresult : (execAll hosts (emitted.map (·.code)) activation stack supply).result
      = .ok values) :
    Value.AllOf Value.Fits values
      ∧ List.Forall₂ (fun (e : Emitted) value => e.ty.accepts value = true) emitted values :=
  (RunInvariant.keeps_execAll ((translatesAll_iff.1 htranslates).imp fun _ _ h =>
      RunInvariant.keeps_exec (RunInvariant.callsKeep (.soundness hhosts) stack.room) h)
    hfits rfl ⟨Nat.le_refl _, rfl, hliterals, hvalues⟩).of_soundness hresult

end ExprTree

import ExprTree.Proofs.Run.Steps

namespace ExprTree

/-!
# What a run enters

A run of a function comes to other trees, pieces of code and calls.  The results
of a run do not tell which; `Task.Starts` does, one step at a time.  It asks of an
operand only that it is one, so a run enters at most what `Task.Enters` says.

Everything that is entered from something sound is sound
(`Task.Sound.of_enters`), and so code that makes an object without checking the
fields is never wrong (`Task.Sound.checkArguments`).
-/

/-- The pieces of code that a piece of code runs itself.  The body of a closure is
    not among them: it is run later, in a call. -/
def Code.operands {κ : Type} : Code κ → List (Code κ)
  | literal _ | embedded _ | pooled _ | slot _ | closure _ _ _ => []
  | construct _ args | instantiate _ args => args
  | fieldAt target _ _ | field target _ => [target]
  | unary _ operand => [operand]
  | shortCircuit _ left right | arithmetic _ left right | binary _ left right => [left, right]
  | conditional test yes no => [test, yes, no]
  | invoke target args => target :: args

/-- Something that can be running. -/
inductive Task where
  | tree (expr : Expr Value) (env : Env Value)
  | code (code : Code Value) (activation : Activation)
  | call (callable : Callable Value) (args : List Value)

namespace Task

/-- A task that may come up while another one is running.

* `operand` and `piece` — what a tree or a piece of code runs itself;
* `invoke` and `call` — an invocation calls what its target gave with what the
  arguments gave;
* `walk` and `run` — a call whose arguments fit runs the body. -/
inductive Starts (hosts : Hosts) : Task → Task → Prop
  | operand {expr sub : Expr Value} {env : Env Value} :
      sub ∈ expr.children → Starts hosts (.tree expr env) (.tree sub env)
  | piece {code sub : Code Value} {activation : Activation} :
      sub ∈ code.operands → Starts hosts (.code code activation) (.code sub activation)
  | invoke {target : Expr Value} {args : List (Expr Value)} {env : Env Value} {id : Nat}
      {callable : Callable Value} {values : List Value} {stack stack' : CallStack}
      {supply supply' : Supply} :
      (eval hosts target env stack supply).result = .ok (.function id callable) →
      (evalAll hosts args env stack' supply').result = .ok values →
      Starts hosts (.tree (.invoke target args) env) (.call callable values)
  | call {target : Code Value} {args : List (Code Value)} {activation : Activation} {id : Nat}
      {callable : Callable Value} {values : List Value} {stack stack' : CallStack}
      {supply supply' : Supply} :
      (exec hosts target activation stack supply).result = .ok (.function id callable) →
      (execAll hosts args activation stack' supply').result = .ok values →
      Starts hosts (.code (.invoke target args) activation) (.call callable values)
  | walk {params : List Parameter} {body : Expr Value} {env : Env Value} {args : List Value} :
      checkParameters params args = .ok () →
      Starts hosts (.call (.interpreted params body env) args)
        (.tree body (Frame.bind params args :: env))
  | run {params : List Parameter} {body : Code Value} {captured constants args : List Value} :
      checkParameters params args = .ok () →
      Starts hosts (.call (.compiled params body captured constants) args)
        (.code body ⟨args, captured, constants⟩)

/-- Everything that may come up while a task is running, itself included. -/
def Enters (hosts : Hosts) : Task → Task → Prop := Relation.ReflTransGen (Starts hosts)

/-- A task with nothing but sound values at hand, whose code is that of some tree. -/
def Sound : Task → Prop
  | .tree expr env =>
    Valuation.Typed env.lookup? ∧ Value.AllOf Value.Fits expr.parts
      ∧ Value.AllOf Value.Fits env.values
  | .code piece activation =>
    (∃ scope expr ty, Translates activation.constants scope expr piece ty ∧ activation.Fits scope)
      ∧ Value.AllOf Value.Fits piece.literals ∧ Value.AllOf Value.Fits activation.values
  | .call callable args =>
    callable.Fits ∧ Value.AllOf Value.Fits callable.parts ∧ Value.AllOf Value.Fits args

end Task

/-! ### Pieces of trees and of code -/

/-- What an operand holds, the tree holds. -/
theorem Expr.parts_subset_of_mem_children {κ : Type} {expr sub : Expr κ}
    (h : sub ∈ expr.children) : sub.parts ⊆ expr.parts := by
  have all : ∀ {exprs : List (Expr κ)}, sub ∈ exprs → sub.parts ⊆ partsOfAll exprs :=
    fun hmem c hc => mem_partsOfAll.2 ⟨sub, hmem, hc⟩
  -- the body of a lambda is no operand: it is entered by a call
  cases expr with
  | constant | parameter | lambda => cases h
  | new cls args => exact all h
  | field target name | unary op operand => exact List.mem_singleton.1 h ▸ fun c hc => hc
  | binary op left right =>
    rcases List.mem_pair.1 h with rfl | rfl
    · exact List.subset_append_left _ _
    · exact List.subset_append_right _ _
  | conditional test yes no =>
    simp only [children, List.mem_cons, List.not_mem_nil, or_false] at h
    rcases h with rfl | rfl | rfl <;> intro c hc <;> simp [parts, hc]
  | invoke target args =>
    rcases List.mem_cons.1 h with rfl | h
    · exact List.subset_append_left _ _
    · exact List.Subset.trans (all h) (List.subset_append_right _ _)
  | extension node operands reduction =>
    exact List.Subset.trans (List.subset_append_of_subset_right _ (all h))
      (subset_parts_extension node operands reduction)

/-- The literals of an operand are literals of the code around it. -/
theorem Code.literals_subset_of_mem_operands {κ : Type} {code sub : Code κ}
    (h : sub ∈ code.operands) : sub.literals ⊆ code.literals := by
  have all : ∀ {codes : List (Code κ)}, sub ∈ codes → sub.literals ⊆ literalsOfAll codes :=
    fun hmem c hc => mem_literalsOfAll.2 ⟨sub, hmem, hc⟩
  cases code with
  | literal | embedded | pooled | slot | closure => cases h
  | construct | instantiate => exact all h
  | fieldAt | field | unary => exact List.mem_singleton.1 h ▸ fun c hc => hc
  | shortCircuit | arithmetic | binary =>
    rcases List.mem_pair.1 h with rfl | rfl
    · exact List.subset_append_left _ _
    · exact List.subset_append_right _ _
  | conditional =>
    simp only [operands, List.mem_cons, List.not_mem_nil, or_false] at h
    rcases h with rfl | rfl | rfl <;> intro c hc <;> simp [literals, hc]
  | invoke =>
    rcases List.mem_cons.1 h with rfl | h
    · exact List.subset_append_left _ _
    · exact List.Subset.trans (all h) (List.subset_append_right _ _)

namespace Translates

variable {constants : List Value} {scope : Scope}

/-- Code that makes an object unchecked was emitted where its arguments surely fit, be it
    in a branch that is taken. -/
theorem of_construct {expr : Expr Value} {cls : ClassDef} {codes : List (Code Value)} {ty : Ty}
    (h : Translates constants scope expr (.construct cls codes) ty) :
    ∃ args emitted, codes = emitted.map (·.code) ∧ TranslatesAll constants scope args emitted
      ∧ List.Forall₂ (fun (field : Field) (e : Emitted) => field.ty.surelyTakes e.ty = true)
        cls.fields emitted := by
  induction expr generalizing ty with
  | new =>
    cases h with
    | construct hargs hexact => exact ⟨_, _, rfl, hargs, hexact⟩
  | conditional test yes no _ ihy ihn =>
    cases h with
    | @taken _ _ _ _ taken _ _ _ hbranch =>
      cases taken with
      | true => exact ihy hbranch
      | false => exact ihn hbranch
  | _ => cases h

/-- Code of a call was emitted of a call. -/
theorem of_invoke {expr : Expr Value} {target : Code Value} {codes : List (Code Value)} {ty : Ty}
    (h : Translates constants scope expr (.invoke target codes) ty) :
    (∃ expr ty, Translates constants scope expr target ty)
      ∧ ∃ args emitted, codes = emitted.map (·.code)
        ∧ TranslatesAll constants scope args emitted := by
  induction expr generalizing ty with
  | invoke =>
    cases h with
    | direct hnests hbody hargs => exact ⟨⟨_, _, .closure hnests hbody⟩, _, _, rfl, hargs⟩
    | invoke htarget hargs => exact ⟨⟨_, _, htarget⟩, _, _, rfl, hargs⟩
  | conditional test yes no _ ihy ihn =>
    cases h with
    | @taken _ _ _ _ taken _ _ _ hbranch =>
      cases taken with
      | true => exact ihy hbranch
      | false => exact ihn hbranch
  | _ => cases h

/-- Every piece of the code of a tree is the code of some tree. -/
theorem of_mem_operands {expr : Expr Value} {code sub : Code Value} {ty : Ty}
    (h : Translates constants scope expr code ty) (hsub : sub ∈ code.operands) :
    ∃ expr ty, Translates constants scope expr sub ty := by
  have all : ∀ {exprs : List (Expr Value)} {emitted : List Emitted},
      TranslatesAll constants scope exprs emitted → sub ∈ emitted.map (·.code) →
      ∃ expr ty, Translates constants scope expr sub ty := by
    intro exprs emitted hall hmem
    obtain ⟨e, he, rfl⟩ := List.mem_map.1 hmem
    obtain ⟨index, hindex, rfl⟩ := List.getElem_of_mem he
    have hall := translatesAll_iff.1 hall
    exact ⟨_, _, hall.get (hall.length_eq ▸ hindex) hindex⟩
  induction expr generalizing code ty with
  | conditional test yes no _ ihy ihn =>
    cases h with
    | literal => cases hsub
    | conditional htest hyes hno =>
      simp only [Code.operands, List.mem_cons, List.not_mem_nil, or_false] at hsub
      rcases hsub with rfl | rfl | rfl
      · exact ⟨_, _, htest⟩
      · exact ⟨_, _, hyes⟩
      · exact ⟨_, _, hno⟩
    | @taken _ _ _ _ taken _ _ _ hbranch =>
      cases taken with
      | true => exact ihy hbranch hsub
      | false => exact ihn hbranch hsub
  | constant | parameter | lambda | extension => cases h <;> cases hsub
  | new =>
    cases h with
    | literal => cases hsub
    | instantiate hargs => exact all hargs hsub
    | construct hargs => exact all hargs hsub
  | field =>
    cases h with
    | literal => cases hsub
    | field htarget => exact ⟨_, _, List.mem_singleton.1 hsub ▸ htarget⟩
    | fieldAt htarget _ => exact ⟨_, _, List.mem_singleton.1 hsub ▸ htarget⟩
  | unary =>
    cases h with
    | literal => cases hsub
    | unary hoperand => exact ⟨_, _, List.mem_singleton.1 hsub ▸ hoperand⟩
  | binary =>
    -- code of binary operators has two operands, in whichever of its three forms
    have pair : ∀ {left right : Expr Value} {leftCode rightCode : Code Value} {leftTy rightTy : Ty},
        Translates constants scope left leftCode leftTy →
        Translates constants scope right rightCode rightTy → sub ∈ [leftCode, rightCode] →
        ∃ expr ty, Translates constants scope expr sub ty := by
      intro left right leftCode rightCode leftTy rightTy hleft hright hmem
      rcases List.mem_pair.1 hmem with rfl | rfl
      · exact ⟨_, _, hleft⟩
      · exact ⟨_, _, hright⟩
    cases h with
    | literal => cases hsub
    | shortCircuit _ hleft hright => exact pair hleft hright hsub
    | binary _ hleft hright => exact pair hleft hright hsub
    | arithmetic _ hleft hright => exact pair hleft hright hsub
  | invoke =>
    cases h with
    | literal => cases hsub
    | direct hnests hbody hargs =>
      rcases List.mem_cons.1 hsub with rfl | hsub
      · exact ⟨_, _, .closure hnests hbody⟩
      · exact all hargs hsub
    | invoke htarget hargs =>
      rcases List.mem_cons.1 hsub with rfl | hsub
      · exact ⟨_, _, htarget⟩
      · exact all hargs hsub

end Translates

/-! ### Bodies of functions -/

namespace Callable.Fits

variable {params : List Parameter} {args : List Value}

/-- The body of a tree walk starts in a typed environment. -/
theorem walk {body : Expr Value} {env : Env Value} (h : (interpreted params body env).Fits)
    (hcheck : checkParameters params args = .ok ()) :
    Valuation.Typed (Env.lookup? (Frame.bind params args :: env)) := by
  have htyped := checkParameters_eq_ok.1 hcheck
  obtain ⟨_, _, _, hnative⟩ | ⟨_, _, hdenotes⟩ := h
  · cases hnative
  · cases hdenotes with
    | interpreted henv =>
      rw [Env.lookup?_bind htyped.length_eq]
      exact henv.bind htyped

/-- Compiled code starts on tables that fit the scope it was emitted in. -/
theorem run {body : Code Value} {captured constants : List Value}
    (h : (compiled params body captured constants).Fits)
    (hcheck : checkParameters params args = .ok ()) :
    ∃ scope expr ty, Translates constants scope expr body ty
      ∧ Activation.Fits ⟨args, captured, constants⟩ scope := by
  obtain ⟨_, _, _, hnative⟩ | ⟨_, _, hdenotes⟩ := h
  · cases hnative
  · cases hdenotes with
    | compiled htranslates hcaptured =>
      exact ⟨_, _, _, htranslates, checkParameters_eq_ok.1 hcheck, hcaptured⟩

end Callable.Fits

/-! ### Sound tasks -/

namespace Task

variable {hosts : Hosts}

/-- What a sound task starts is sound. -/
theorem Sound.of_starts (hhosts : hosts.Sound) {task next : Task} (h : task.Sound)
    (hstarts : Starts hosts task next) : next.Sound := by
  cases hstarts with
  | operand hsub =>
    obtain ⟨henv, hparts, hvalues⟩ := h
    exact ⟨henv, hparts.of_subset fun _ hc => Expr.parts_subset_of_mem_children hsub hc, hvalues⟩
  | piece hsub =>
    obtain ⟨⟨scope, expr, ty, htranslates, hfits⟩, hliterals, hvalues⟩ := h
    obtain ⟨expr, ty, htranslates⟩ := htranslates.of_mem_operands hsub
    exact ⟨⟨scope, expr, ty, htranslates, hfits⟩,
      hliterals.of_subset fun _ hc => Code.literals_subset_of_mem_operands hsub hc, hvalues⟩
  | invoke htarget hargs =>
    obtain ⟨henv, hparts, hvalues⟩ := h
    rw [Expr.parts, Value.AllOf.append] at hparts
    -- what is called came out of a run, and so did its arguments
    have hsound := eval_sound hhosts henv hparts.1 hvalues htarget
    exact ⟨hsound.self, fun part hpart => hsound.part hpart,
      (RunsAll.tree henv hparts.2 hvalues).sound hhosts hargs⟩
  | call htarget hargs =>
    obtain ⟨⟨scope, expr, ty, htranslates, hfits⟩, hliterals, hvalues⟩ := h
    rw [Code.literals, Value.AllOf.append] at hliterals
    obtain ⟨⟨_, _, hfirst⟩, args, emitted, rfl, hothers⟩ := htranslates.of_invoke
    have hsound := (exec_sound hhosts hfirst hfits hliterals.1 hvalues htarget).1
    exact ⟨hsound.self, fun part hpart => hsound.part hpart,
      (execAll_sound hhosts hothers hfits hliterals.2 hvalues hargs).1⟩
  | walk hcheck =>
    obtain ⟨hcallable, hparts, hargs⟩ := h
    rw [Callable.parts, Value.AllOf.append] at hparts
    exact ⟨hcallable.walk hcheck, hparts.1, fun value hvalue =>
      (Env.values_cons hvalue).elim (hargs value) (hparts.2 value)⟩
  | run hcheck =>
    obtain ⟨hcallable, hparts, hargs⟩ := h
    rw [Callable.parts, Value.AllOf.append, Value.AllOf.append] at hparts
    refine ⟨hcallable.run hcheck, hparts.1.1, ?_⟩
    rw [Activation.values, Value.AllOf.append, Value.AllOf.append]
    exact ⟨⟨hargs, hparts.1.2⟩, hparts.2⟩

/-- **Everything that a sound task enters is sound.** -/
theorem Sound.of_enters (hhosts : hosts.Sound) {task next : Task} (h : task.Sound)
    (henters : Enters hosts task next) : next.Sound := by
  induction henters with
  | refl => exact h
  | tail _ hstarts ih => exact ih.of_starts hhosts hstarts

/-- Code that leaves the checks of a constructor out gives it nothing that the
    checks would refuse. -/
theorem Sound.checkArguments (hhosts : hosts.Sound) {cls : ClassDef} {codes : List (Code Value)}
    {activation : Activation} (h : (Task.code (.construct cls codes) activation).Sound)
    {stack : CallStack} {supply : Supply} {values : List Value}
    (hvalues : (execAll hosts codes activation stack supply).result = .ok values) :
    cls.checkArguments values = .ok () := by
  obtain ⟨⟨scope, expr, ty, htranslates, hfits⟩, hliterals, hactivation⟩ := h
  obtain ⟨args, emitted, rfl, hargs, hexact⟩ := htranslates.of_construct
  obtain ⟨_, htypes⟩ := execAll_sound hhosts hargs hfits hliterals hactivation hvalues
  exact ClassOver.checkArguments_eq_ok.2 (Ty.forall₂_accepts_of_surelyTakes hexact htypes)

end Task

end ExprTree

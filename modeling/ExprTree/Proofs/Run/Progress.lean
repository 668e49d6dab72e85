import ExprTree.Proofs.Function.Compilation
import ExprTree.Proofs.Run.Typing
import ExprTree.Proofs.Tree.FullyTyped

namespace ExprTree

/-!
# Fully typed trees do not go wrong

`Expr.progresses` is progress: a run of a fully typed tree without extension nodes
gives a value, or fails for a reason that no type can rule out: a field of `none`, a
zero divisor, or too many nested calls.  The induction is over the tree, with a lemma
for each kind of node.  A fully typed tree calls nothing but lambdas that are invoked
directly, so each call enters a part of the tree.

`Lambda.safe_of_isFullyTyped` is the same for functions compiled by either
strategy.
-/

/-- What the types of a tree cannot rule out. -/
def RuntimeError.IsUnavoidable : RuntimeError → Prop
  | nullReference _ | zeroDivision | recursionLimit _ => True
  | _ => False

/-! ### Outcomes -/

namespace Outcome

variable {α β : Type} {stack : CallStack}

/-- A step that gives a value, or an error that is unavoidable. -/
def Safe (outcome : Outcome stack α) : Prop :=
  ∀ error, outcome.result = .error error → error.IsUnavoidable

theorem safe_done {supply : Supply} {result : Except RuntimeError α}
    (h : ∀ error, result = .error error → error.IsUnavoidable) :
    (done stack supply result).Safe := h

theorem safe_ok {supply : Supply} {a : α} : (done stack supply (.ok a)).Safe :=
  fun _ h => by cases h

/-- Steps are safe together if the later one is after every value of the first. -/
theorem Safe.bind {outcome : Outcome stack α}
    {next : α → (after : CallStack) → after.room ≤ stack.room → Supply → Outcome after β}
    (h : outcome.Safe)
    (hnext : ∀ a after hroom supply, outcome.result = .ok a → (next a after hroom supply).Safe) :
    (outcome.bind next).Safe := by
  obtain ⟨result, after, supply, hroom⟩ := outcome
  cases result with
  | error error =>
    intro error' h'
    cases h'
    exact h error rfl
  | ok a => exact hnext a after hroom supply rfl

/-- A call is safe if its body is; entering the stack may fail. -/
theorem safe_during {supply : Supply}
    {body : (inner : CallStack) → inner.room < stack.room → Outcome inner α}
    (h : ∀ inner hroom, (body inner hroom).Safe) : (stack.during supply body).Safe := by
  unfold CallStack.during
  split
  · rename_i error herror
    unfold CallStack.enter at herror
    split at herror <;> cases herror
    exact safe_done fun _ h => by
      cases h
      trivial
  · exact h _ _

end Outcome

/-! ### Well-typed trees -/

/-- What progress asks of a tree.

* `extensionFree` — nothing in it is evaluated by the host;
* `bound` — every parameter that it reads stands for something;
* `infers` — the tree is well typed;
* `fullyTyped` — so is each part of it, with a type that is known. -/
structure Expr.WellTyped (val : Valuation) (limit : Nat) (scopes : List (List Parameter))
    (depth : Nat) (expr : Expr Value) (ty : Ty) : Prop where
  extensionFree : expr.isExtensionFree = true
  bound : ∀ param ∈ expr.reads, val param ≠ none
  infers : expr.infer limit scopes depth = .ok ty
  fullyTyped : expr.isFullyTyped limit scopes depth = true

/-- Arguments that fit their places by their types. -/
abbrev Expr.FitPlaces (val : Valuation) (limit : Nat) (scopes : List (List Parameter))
    (depth : Nat) : List Place → List (Expr Value) → Prop :=
  List.Forall₂ fun place arg =>
    ∃ ty, arg.WellTyped val limit scopes depth ty ∧ place.2.isAssignableFrom ty = true

variable {hosts : Hosts} {run : Run Value} {val : Valuation} {limit depth : Nat}
  {scopes : List (List Parameter)} {ty : Ty}

/-- Arguments fit their places if each of them is well typed, and typing let it stand there. -/
theorem Expr.fitPlaces_of_assignable {places : List Place} {args : List (Expr Value)}
    (hplaces : List.Forall₂ (fun (place : Place) arg =>
      ∃ ty, arg.infer limit scopes depth = .ok ty ∧ place.2.isAssignableFrom ty = true)
      places args)
    (hfree : areExtensionFree args = true) (hbound : ∀ param ∈ readsOfAll args, val param ≠ none)
    (hfull : areFullyTyped limit scopes depth args = true) :
    FitPlaces val limit scopes depth places args := by
  induction hplaces with
  | nil => exact .nil
  | cons hhead _ ih =>
    -- each argument is well typed with the type that was found assignable
    obtain ⟨ty, hty, hassignable⟩ := hhead
    rw [areExtensionFree, Bool.and_eq_true] at hfree
    rw [readsOfAll, List.forall_mem_append] at hbound
    rw [areFullyTyped, Bool.and_eq_true] at hfull
    exact .cons ⟨ty, ⟨hfree.1, hbound.1, hty, hfull.1⟩, hassignable⟩
      (ih hfree.2 hbound.2 hfull.2)

namespace Expr.WellTyped

variable {expr target left right test yes no : Expr Value} {args : List (Expr Value)}

/-- The type of a well-typed tree is known. -/
theorem isKnown (h : expr.WellTyped val limit scopes depth ty) : ty.isKnown = true :=
  isKnown_of_isFullyTyped h.fullyTyped h.infers

/-- The values of a well-typed tree have its type. -/
theorem accepts (hhosts : hosts.Sound) (h : expr.WellTyped val limit scopes depth ty)
    (hrun : Runs hosts run expr val) {stack : CallStack} {supply : Supply} {value : Value}
    (hresult : (run stack supply).result = .ok value) : ty.accepts value = true :=
  expr.preserves hhosts h.extensionFree hrun h.infers hresult

/-- Where a well-typed tree may stand, its values are accepted. -/
theorem accepts_of_isAssignableFrom (hhosts : hosts.Sound)
    (h : expr.WellTyped val limit scopes depth ty) (hrun : Runs hosts run expr val)
    {place : Ty} (hassignable : place.isAssignableFrom ty = true) {stack : CallStack}
    {supply : Supply} {value : Value} (hresult : (run stack supply).result = .ok value) :
    place.accepts value = true :=
  Ty.accepts_of_isAssignableFrom hassignable h.isKnown (h.accepts hhosts hrun hresult)

/-- The fields of an object are well typed, and fit those of its class. -/
theorem new {cls : ClassDef} (h : (Expr.new cls args).WellTyped val limit scopes depth ty) :
    FitPlaces val limit scopes (depth + 1) cls.places args := by
  obtain ⟨hfree, hbound, hty, hfull⟩ := h
  rw [isFullyTyped.eq_def, Bool.and_eq_true] at hfull
  exact fitPlaces_of_assignable (assignable_of_new hty).1 hfree hbound hfull.2

/-- A field is one of a well-typed tree, whose type has it. -/
theorem field {name : String}
    (h : (Expr.field target name).WellTyped val limit scopes depth ty) :
    ∃ targetTy, target.WellTyped val limit scopes (depth + 1) targetTy
      ∧ targetTy.fieldTy name = .ok ty := by
  obtain ⟨hfree, hbound, hty, hfull⟩ := h
  rw [isFullyTyped.eq_def, Bool.and_eq_true] at hfull
  obtain ⟨targetTy, htarget, hfield⟩ := infer_field hty
  exact ⟨targetTy, ⟨hfree, hbound, htarget, hfull.2⟩, hfield⟩

/-- The operand of an operator is well typed, and of a type that the operator takes. -/
theorem unary {op : UnaryOp} (h : (Expr.unary op target).WellTyped val limit scopes depth ty) :
    ∃ operandTy, target.WellTyped val limit scopes (depth + 1) operandTy
      ∧ op.resultTy? operandTy = some ty := by
  obtain ⟨hfree, hbound, hty, hfull⟩ := h
  rw [isFullyTyped.eq_def, Bool.and_eq_true] at hfull
  obtain ⟨operandTy, hoperand, hop⟩ := infer_unary hty
  exact ⟨operandTy, ⟨hfree, hbound, hoperand, hfull.2⟩, hop⟩

/-- Both operands of an operator are well typed, and of types that it takes together. -/
theorem binary {op : BinaryOp}
    (h : (Expr.binary op left right).WellTyped val limit scopes depth ty) :
    ∃ leftTy rightTy, left.WellTyped val limit scopes (depth + 1) leftTy
      ∧ right.WellTyped val limit scopes (depth + 1) rightTy
      ∧ op.resultTy? leftTy rightTy = some ty := by
  obtain ⟨hfree, hbound, hty, hfull⟩ := h
  rw [isExtensionFree, Bool.and_eq_true] at hfree
  rw [reads, List.forall_mem_append] at hbound
  rw [isFullyTyped.eq_def, Bool.and_eq_true, Bool.and_eq_true] at hfull
  obtain ⟨leftTy, rightTy, hleft, hright, hop⟩ := infer_binary hty
  exact ⟨leftTy, rightTy, ⟨hfree.1, hbound.1, hleft, hfull.2.1⟩,
    ⟨hfree.2, hbound.2, hright, hfull.2.2⟩, hop⟩

/-- The condition and both branches are well typed, and the condition is a Boolean. -/
theorem conditional (h : (Expr.conditional test yes no).WellTyped val limit scopes depth ty) :
    (∃ testTy, test.WellTyped val limit scopes (depth + 1) testTy
        ∧ Ty.isAssignableFrom .bool testTy = true)
      ∧ (∃ yesTy, yes.WellTyped val limit scopes (depth + 1) yesTy)
      ∧ ∃ noTy, no.WellTyped val limit scopes (depth + 1) noTy := by
  obtain ⟨hfree, hbound, hty, hfull⟩ := h
  simp only [isExtensionFree, Bool.and_eq_true] at hfree
  rw [reads, List.forall_mem_append, List.forall_mem_append] at hbound
  rw [isFullyTyped.eq_def] at hfull
  simp only [Bool.and_eq_true] at hfull
  obtain ⟨⟨testTy, htest, hassignable⟩, yesTy, noTy, hyes, hno, _⟩ :=
    assignable_of_conditional hty
  exact ⟨⟨testTy, ⟨hfree.1.1, hbound.1.1, htest, hfull.2.1.1⟩, hassignable⟩,
    ⟨yesTy, hfree.1.2, hbound.1.2, hyes, hfull.2.1.2⟩, noTy, hfree.2, hbound.2, hno, hfull.2.2⟩

/-- A well-typed invocation is one of a lambda, as the result of any other invocation
    is of an unknown type.  Its body is well typed wherever the parameters stand for
    something, too, and the arguments fit these. -/
theorem invoke (h : (Expr.invoke target args).WellTyped val limit scopes depth ty) :
    ∃ params body, target = .lambda params body
      ∧ (∀ param ∈ Lambda.reads ⟨params, body⟩, val param ≠ none)
      ∧ (∀ {inner : Valuation}, (∀ param ∈ body.reads, inner param ≠ none) →
        body.WellTyped inner limit (params :: scopes) (depth + 1) ty)
      ∧ FitPlaces val limit scopes (depth + 1) (parameterPlaces params) args := by
  obtain ⟨params, body, rfl⟩ | hlambda := target.lambda_or_ne
  · obtain ⟨hfree, hbound, hty, hfull⟩ := h
    rw [isExtensionFree, Bool.and_eq_true] at hfree
    rw [reads, List.forall_mem_append] at hbound
    rw [isFullyTyped.eq_def, Bool.and_eq_true, Bool.and_eq_true] at hfull
    obtain ⟨hplaces, hbody⟩ := assignable_of_direct hty
    exact ⟨params, body, rfl, hbound.1, fun hinner => ⟨hfree.1, hinner, hbody, hfull.2.1⟩,
      fitPlaces_of_assignable hplaces hfree.2 hbound.2 hfull.2.2⟩
  · have hknown := h.isKnown
    rw [(infer_invoke hlambda h.infers).2.2] at hknown
    cases hknown

end Expr.WellTyped

/-! ### Nodes -/

/-- Runs of a tree do not go wrong where it is well typed. -/
def Expr.Progresses (hosts : Hosts) (expr : Expr Value) : Prop :=
  ∀ {run : Run Value} {val : Valuation} {limit : Nat} {scopes : List (List Parameter)}
    {depth : Nat} {ty : Ty}, Runs hosts run expr val → expr.WellTyped val limit scopes depth ty →
    ∀ stack supply, (run stack supply).Safe

namespace RunsAll

variable {exprs : List (Expr Value)} {runs : Run (List Value)} {places : List Place}

/-- Arguments are safe to run one after the other if each of them is. -/
theorem safe (hplaces : Expr.FitPlaces val limit scopes depth places exprs)
    (hexprs : ∀ expr ∈ exprs, expr.Progresses hosts) (h : RunsAll hosts val runs exprs)
    (stack : CallStack) (supply : Supply) : (runs stack supply).Safe := by
  induction hplaces generalizing runs stack supply with
  | nil =>
    cases h
    exact Outcome.safe_ok
  | cons hhead _ ih =>
    obtain ⟨ty, htyped, _⟩ := hhead
    obtain ⟨hexpr, hexprs⟩ := List.forall_mem_cons.1 hexprs
    cases h with
    | cons hrun hrest =>
      refine (hexpr hrun htyped stack supply).bind fun value after _ supply _ => ?_
      exact (ih hexprs hrest after supply).bind fun values _ _ _ _ => Outcome.safe_ok

/-- The values of arguments fit the places of the arguments. -/
theorem accepts (hhosts : hosts.Sound)
    (hplaces : Expr.FitPlaces val limit scopes depth places exprs)
    (h : RunsAll hosts val runs exprs) {stack : CallStack} {supply : Supply} {values : List Value}
    (hresult : (runs stack supply).result = .ok values) :
    List.Forall₂ (fun (place : Place) value => place.2.accepts value = true) places values := by
  induction hplaces generalizing runs stack supply values with
  | nil =>
    cases h
    cases hresult
    exact .nil
  | cons hhead _ ih =>
    obtain ⟨ty, htyped, hassignable⟩ := hhead
    cases h with
    | cons hrun hrest =>
      obtain ⟨value, hvalue, hresult⟩ := Outcome.result_of_bind hresult
      obtain ⟨others, hothers, hresult⟩ := Outcome.result_of_bind hresult
      cases hresult
      -- an argument is accepted by its own type, and so by the type of its place
      exact .cons (htyped.accepts_of_isAssignableFrom hhosts hrun hassignable hvalue)
        (ih hrest hothers)

end RunsAll

/-- Inside a call every parameter that the body reads stands for something, if the
    function knows what the lambda reads. -/
theorem Valuation.bind_ne_none (lambda : Lambda Value) {args : List Value}
    (hlength : lambda.params.length = args.length)
    (hknown : ∀ param ∈ lambda.reads, val param ≠ none) :
    ∀ param ∈ lambda.body.reads, val.bind lambda.params args param ≠ none := by
  intro param hparam
  unfold Valuation.bind
  split
  · rename_i index hindex
    have hlt := (List.getElem?_eq_some_iff.1 (getElem?_of_lastIndexOf? hindex)).1
    simp [List.getElem?_eq_getElem (hlength ▸ hlt)]
  · rename_i hnone
    exact hknown param (Lambda.mem_reads.2 ⟨hparam, lastIndexOf?_eq_none.1 hnone⟩)

namespace Expr

variable {target left right test yes no : Expr Value} {args : List (Expr Value)}

/-- A parameter that stands for something is read. -/
theorem progresses_parameter (param : Parameter) : (parameter param).Progresses hosts := by
  intro run val limit scopes depth ty hrun htyped stack supply
  have hparam := htyped.bound param (by simp [reads])
  rw [hrun.parameter]
  unfold Valuation.resolve
  split
  · exact Outcome.safe_ok
  · contradiction

/-- A constructor accepts values of the types of its fields. -/
theorem progresses_new (hhosts : hosts.Sound) {cls : ClassDef}
    (hargs : ∀ arg ∈ args, arg.Progresses hosts) : (new cls args).Progresses hosts := by
  intro run val limit scopes depth ty hrun htyped stack supply
  obtain ⟨runs, hruns, rfl⟩ := hrun.new hhosts
  refine (hruns.safe htyped.new hargs stack supply).bind fun values after _ supply hvalues => ?_
  have hfields := hruns.accepts hhosts htyped.new hvalues
  rw [ClassOver.places, List.forall₂_map_left_iff] at hfields
  rw [ClassOver.instantiate_of_accepts hfields]
  exact Outcome.safe_ok

/-- What has the type of an object is one, with all fields of its class, or `none`. -/
theorem progresses_field (hhosts : hosts.Sound) {name : String}
    (htarget : target.Progresses hosts) : (field target name).Progresses hosts := by
  intro run val limit scopes depth ty hrun htyped stack supply
  obtain ⟨inner, hinner, rfl⟩ := hrun.field hhosts
  obtain ⟨targetTy, htargetTyped, hfield⟩ := htyped.field
  refine (htarget hinner htargetTyped stack supply).bind fun object after _ supply hobject =>
    Outcome.safe_done fun error herror => ?_
  have haccepts := htargetTyped.accepts hhosts hinner hobject
  have hknown := htargetTyped.isKnown
  unfold Ty.fieldTy at hfield
  split at hfield
  · split at hfield
    · rename_i hfound
      rw [Value.field_eq_error (hinner.sound hhosts hobject).self haccepts hfound herror]
      trivial
    · cases hfield
  · -- a field of anything would be found at run time only
    cases hknown
  · cases hfield

/-- An operator is defined on the values of the type that it takes. -/
theorem progresses_unary (hhosts : hosts.Sound) {op : UnaryOp}
    (htarget : target.Progresses hosts) : (unary op target).Progresses hosts := by
  intro run val limit scopes depth ty hrun htyped stack supply
  obtain ⟨inner, hinner, rfl⟩ := hrun.unary
  obtain ⟨operandTy, hoperand, hop⟩ := htyped.unary
  refine (htarget hinner hoperand stack supply).bind fun a after _ supply ha => ?_
  obtain ⟨value, hvalue⟩ :=
    UnaryOp.exists_apply hop hoperand.isKnown (hoperand.accepts hhosts hinner ha)
  rw [hvalue]
  exact Outcome.safe_ok

/-- `&&` and `||` test Booleans only: the left operand, and the right one unless the
    left one settles the result.  Code may do without the test of a known operand. -/
theorem progresses_shortCircuit (hhosts : hosts.Sound) {op : BinaryOp}
    (hop : op.isShortCircuit = true) (hleft : left.Progresses hosts)
    (hright : right.Progresses hosts) : (binary op left right).Progresses hosts := by
  intro run val limit scopes depth ty hrun htyped stack supply
  obtain ⟨leftTy, rightTy, hleftTyped, hrightTyped, hopTy⟩ := htyped.binary
  obtain ⟨rfl, rfl⟩ :=
    BinaryOp.operandTys_of_shortCircuit hop hopTy hleftTyped.isKnown hrightTyped.isKnown
  rcases hrun.shortCircuit hop with ⟨value, _, rfl⟩ | ⟨first, second, hfirst, hsecond, rfl⟩
  · exact Outcome.safe_ok
  · refine (hleft hfirst hleftTyped stack supply).bind fun a after _ supply ha => ?_
    obtain ⟨x, rfl⟩ := Ty.exists_of_accepts_bool (hleftTyped.accepts hhosts hfirst ha)
    have htest : (Value.bool x).test op.symbol = .ok x := rfl
    simp only [htest]
    split
    · exact Outcome.safe_ok
    · refine (hright hsecond hrightTyped after supply).bind fun b _ _ _ hb => ?_
      obtain ⟨y, rfl⟩ := Ty.exists_of_accepts_bool (hrightTyped.accepts hhosts hsecond hb)
      exact Outcome.safe_ok

/-- Any other operator is defined on the values of the types that it takes, but for a
    divisor that is zero. -/
theorem progresses_operator (hhosts : hosts.Sound) {op : BinaryOp}
    (hop : op.isShortCircuit = false) (hleft : left.Progresses hosts)
    (hright : right.Progresses hosts) : (binary op left right).Progresses hosts := by
  intro run val limit scopes depth ty hrun htyped stack supply
  obtain ⟨leftTy, rightTy, hleftTyped, hrightTyped, hopTy⟩ := htyped.binary
  obtain ⟨first, second, hfirst, hsecond, rfl⟩ := hrun.binary hop
  refine (hleft hfirst hleftTyped stack supply).bind fun a after _ supply ha => ?_
  refine (hright hsecond hrightTyped after supply).bind fun b _ _ _ hb =>
    Outcome.safe_done fun error herror => ?_
  rw [BinaryOp.apply_eq_error hop hopTy hleftTyped.isKnown hrightTyped.isKnown
    (hleftTyped.accepts hhosts hfirst ha) (hrightTyped.accepts hhosts hsecond hb) herror]
  trivial

/-- A condition is a Boolean, and the branch that it takes is safe.  Code may consist of
    that branch only, if the condition is known. -/
theorem progresses_conditional (hhosts : hosts.Sound) (htest : test.Progresses hosts)
    (hyes : yes.Progresses hosts) (hno : no.Progresses hosts) :
    (conditional test yes no).Progresses hosts := by
  intro run val limit scopes depth ty hrun htyped stack supply
  obtain ⟨⟨testTy, htestTyped, hassignable⟩, ⟨_, hyesTyped⟩, _, hnoTyped⟩ := htyped.conditional
  rcases hrun.conditional with
    ⟨taken, _, hrun⟩ | ⟨first, second, third, hfirst, hsecond, hthird, rfl⟩
  · cases taken with
    | true => exact hyes hrun hyesTyped stack supply
    | false => exact hno hrun hnoTyped stack supply
  · refine (htest hfirst htestTyped stack supply).bind fun a after _ supply ha => ?_
    obtain ⟨b, rfl⟩ := Ty.exists_of_accepts_bool
      (htestTyped.accepts_of_isAssignableFrom hhosts hfirst hassignable ha)
    -- the test is a truth value, and the branch that it takes is safe
    cases b with
    | true => exact hyes hsecond hyesTyped after supply
    | false => exact hno hthird hnoTyped after supply

/-- A lambda is a closure, which nothing can go wrong with before it is called. -/
theorem progresses_lambda (params : List Parameter) (body : Expr Value) :
    (lambda params body).Progresses hosts := by
  intro run val limit scopes depth ty hrun htyped stack supply
  obtain ⟨callable, known, _, _, _, rfl⟩ := hrun.lambda
  exact Outcome.safe_ok

/-- A call of a closure is safe if the body of its lambda is, where the arguments fit
    the parameters. -/
theorem safe_callValue {params : List Parameter} {body : Expr Value}
    (h : Runs hosts run (.lambda params body) val)
    (hbound : ∀ param ∈ Lambda.reads ⟨params, body⟩, val param ≠ none)
    (hbody : ∀ {inner : Run Value} {val : Valuation}, Runs hosts inner body val →
      (∀ param ∈ body.reads, val param ≠ none) → ∀ stack supply, (inner stack supply).Safe)
    {stack after : CallStack} {supply supply' : Supply} {target : Value} {args : List Value}
    (htarget : (run stack supply).result = .ok target) (hargs : Value.AllOf Value.Fits args)
    (hfit : List.Forall₂ (fun (param : Parameter) value => param.ty.accepts value = true)
      params args) :
    (callValue hosts target args after supply' : Outcome after Value).Safe := by
  obtain ⟨callable, known, hdenotes, hparts, hknown, rfl⟩ := h.lambda
  cases htarget
  obtain ⟨inner, hinner, hcall⟩ := hdenotes.call hosts hparts hargs
  have hcheck : checkParameters params args = .ok () := checkParameters_eq_ok.2 hfit
  have hreads : ∀ param ∈ body.reads, known.bind params args param ≠ none :=
    Valuation.bind_ne_none ⟨params, body⟩ hfit.length_eq fun param hparam => by
      rw [hknown param hparam]
      exact hbound param hparam
  show (call hosts callable args after supply').Safe
  -- the arguments fit, so the call goes on to the body
  rw [hcall, hcheck]
  exact Outcome.safe_during fun deeper _ => hbody (hinner hcheck) hreads deeper supply'

/-- A call enters the body of the lambda that it invokes, with arguments that its
    parameters accept. -/
theorem progresses_invoke (hhosts : hosts.Sound)
    (hbody : ∀ params body, target = .lambda params body → body.Progresses hosts)
    (hargs : ∀ arg ∈ args, arg.Progresses hosts) : (invoke target args).Progresses hosts := by
  intro run val limit scopes depth ty hrun htyped stack supply
  obtain ⟨params, body, rfl, hbound, hbodyTyped, hplaces⟩ := htyped.invoke
  obtain ⟨first, others, hfirst, hothers, rfl⟩ := hrun.invoke
  -- making the closure cannot fail: what it captures is bound
  have hclosure : ∀ stack supply, (first stack supply).Safe := by
    obtain ⟨callable, known, _, _, _, rfl⟩ := hfirst.lambda
    exact fun _ _ => Outcome.safe_ok
  refine (hclosure stack supply).bind fun closure after _ supply hclosure => ?_
  refine (hothers.safe hplaces hargs after supply).bind fun values after _ supply hvalues => ?_
  have hfit := hothers.accepts hhosts hplaces hvalues
  rw [parameterPlaces, List.forall₂_map_left_iff] at hfit
  exact safe_callValue hfirst hbound
    (fun hinner hreads => hbody params body rfl hinner (hbodyTyped hreads))
    hclosure (hothers.sound hhosts hvalues) hfit

end Expr

/-! ### Trees -/

/-- **Fully typed trees do not go wrong.**  A run fails, if at all, for a reason that
    types cannot rule out. -/
theorem Expr.progresses (hhosts : hosts.Sound) (expr : Expr Value) : expr.Progresses hosts := by
  induction expr with
  | constant c =>
    intro run val limit scopes depth ty hrun htyped stack supply
    rw [hrun.constant]
    exact Outcome.safe_ok
  | parameter param => exact Expr.progresses_parameter param
  | new cls args ih => exact Expr.progresses_new hhosts ih
  | field target name ih => exact Expr.progresses_field hhosts ih
  | unary op operand ih => exact Expr.progresses_unary hhosts ih
  | binary op left right ihl ihr =>
    cases hop : op.isShortCircuit with
    | true => exact Expr.progresses_shortCircuit hhosts hop ihl ihr
    | false => exact Expr.progresses_operator hhosts hop ihl ihr
  | conditional test yes no iht ihy ihn => exact Expr.progresses_conditional hhosts iht ihy ihn
  | lambda params body _ => exact Expr.progresses_lambda params body
  | invoke target args _ ihb ih => exact Expr.progresses_invoke hhosts ihb ih
  | extension node operands reduction _ _ =>
    intro run val limit scopes depth ty hrun htyped
    have hfree := htyped.extensionFree
    simp [Expr.isExtensionFree] at hfree

/-! ### Functions -/

namespace Lambda

/-- **Progress.**  A fully typed lambda that validates, compiled by either strategy
    under any options, gives a value on all arguments that its parameters accept, or
    fails with one of the three errors that types do not rule out.  Validation may
    have been asked with any limit for the nesting of nodes. -/
theorem safe_of_isFullyTyped (hhosts : hosts.Sound) {lambda : Lambda Value}
    (hfree : lambda.isExtensionFree = true) {limit : Nat} {ty : Ty}
    (hvalidate : lambda.validate limit = .ok ty) (hfull : lambda.isFullyTyped limit = true)
    (hsound : Value.AllOf Value.Fits lambda.literals)
    (hcoherent : Value.Coherent fun c => c ∈ lambda.literals) {strategy : Strategy}
    {options : CompilerOptions} {strict : Bool} {fn : CompiledFn}
    (hcompile : lambda.compileBy strategy options strict = .ok fn) {args : List Value}
    (hargs : Value.AllOf Value.Fits args)
    (hfit : List.Forall₂ (fun (param : Parameter) value => param.ty.accepts value = true)
      lambda.params args) (supply : Supply) :
    (∃ value, (fn.invoke hosts args supply).1 = .ok value)
      ∨ (∃ name, (fn.invoke hosts args supply).1 = .error (.nullReference name))
      ∨ (fn.invoke hosts args supply).1 = .error .zeroDivision
      ∨ ∃ depth, (fn.invoke hosts args supply).1 = .error (.recursionLimit depth) := by
  obtain ⟨known, hdenotes⟩ := denotes_of_isExtensionFree hfree hcoherent hcompile
  have hparts := allOf_parts_of_compileBy (parts_eq_literals hfree ▸ hsound) hcoherent hcompile
  obtain ⟨inner, hinner, hcall⟩ := hdenotes.call hosts hparts hargs
  have hcheck : checkParameters lambda.params args = .ok () := checkParameters_eq_ok.2 hfit
  have hbody : lambda.body.infer limit [lambda.params] 0 = .ok ty := declaringOnce_eq_ok hvalidate
  have hreads : ∀ param ∈ lambda.body.reads, known.bind lambda.params args param ≠ none :=
    Valuation.bind_ne_none lambda hfit.length_eq fun param hparam =>
      absurd hparam (reads_of_compileBy hfree hcompile param)
  -- the body runs in a call of its own, and all its parameters are among its arguments
  have hsafe : (call hosts fn.callable args (.new fn.maxCallDepth) supply).Safe := by
    rw [hcall, hcheck]
    exact Outcome.safe_during fun deeper _ =>
      lambda.body.progresses hhosts (hinner hcheck) ⟨hfree, hreads, hbody, hfull⟩ deeper supply
  cases hresult : (fn.invoke hosts args supply).1 with
  | ok value => exact .inl ⟨value, rfl⟩
  | error error =>
    have herror : error.IsUnavoidable := hsafe error hresult
    cases error with
    | nullReference name => exact .inr (.inl ⟨name, rfl⟩)
    | zeroDivision => exact .inr (.inr (.inl rfl))
    | recursionLimit depth => exact .inr (.inr (.inr ⟨depth, rfl⟩))
    | _ => cases herror

/-- The name of nothing is a null reference, which the type of a tag allows. -/
theorem safe_of_isFullyTyped_nameOf :
    (nameOfFn.invoke Hosts.standard [.none] {}).1 = .error (.nullReference "name")
      ∧ ((∃ value, (nameOfFn.invoke Hosts.standard [.none] {}).1 = .ok value)
        ∨ (∃ name, (nameOfFn.invoke Hosts.standard [.none] {}).1 = .error (.nullReference name))
        ∨ (nameOfFn.invoke Hosts.standard [.none] {}).1 = .error .zeroDivision
        ∨ ∃ depth, (nameOfFn.invoke Hosts.standard [.none] {}).1
          = .error (.recursionLimit depth)) := by
  have hvalidate : nameOf.validate 512 = .ok .string := rfl
  have hcompile : nameOf.compileBy .fast {} true = .ok nameOfFn := rfl
  -- a field is asked of none
  have hresult : (nameOfFn.invoke Hosts.standard [.none] {}).1
      = .error (.nullReference "name") := by
    simp [CompiledFn.invoke, nameOfFn, nameOf, call, checkParameters, firstMisfit?, Ty.accepts,
      CallStack.during, CallStack.enter, CallStack.new, CallStack.defaultLimit, exec,
      Activation.read, Activation.entry, Outcome.bind, Outcome.done, Value.fieldAt, Value.field]
  exact ⟨hresult, safe_of_isFullyTyped Hosts.standard_sound rfl hvalidate rfl
    (List.forall_mem_nil _)
    .nil hcompile
    (List.forall_mem_singleton.2 (Value.sound_of_isScalar rfl)) (.cons rfl .nil) {}⟩

end Lambda

end ExprTree

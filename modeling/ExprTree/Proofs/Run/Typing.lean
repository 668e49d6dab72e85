import ExprTree.Proofs.Function.Denotation
import ExprTree.Proofs.Host
import ExprTree.Proofs.Run.Steps
import ExprTree.Proofs.Tree.Inference

namespace ExprTree

/-!
# Results have the inferred type

`Expr.preserves`: where a tree without extension nodes is well typed, its type
accepts whatever a run of it gives.  The induction is over the tree, with a lemma
for each kind of node; a call enters the tree again only for a lambda that is invoked
directly, since every other call has a result of unknown type.

`Lambda.accepts_of_validate` is the same for functions compiled by either
strategy.
-/

variable {hosts : Hosts} {run : Run Value} {val : Valuation}

namespace Runs

/-- A call of the function that a run of a lambda gives is a run of the body. -/
theorem body_of_call {params : List Parameter} {body : Expr Value}
    (hrun : Runs hosts run (.lambda params body) val) {stack after : CallStack}
    {supply supply' : Supply} {target value : Value} {args : List Value}
    (htarget : (run stack supply).result = .ok target) (hargs : Value.AllOf Value.Fits args)
    (hresult : (callValue hosts target args after supply').result = .ok value) :
    ∃ inner val', Runs hosts inner body val'
      ∧ ∃ stack supply, (inner stack supply).result = .ok value := by
  obtain ⟨callable, known, hdenotes, hparts, _, rfl⟩ := hrun.lambda
  cases htarget
  obtain ⟨inner, hinner, hcall⟩ := hdenotes.call hosts hparts hargs
  have hresult : (call hosts callable args after supply').result = .ok value := hresult
  -- a call that gives a value has not refused its arguments
  rw [hcall] at hresult
  split at hresult
  · cases hresult
  · rename_i hcheck
    obtain ⟨stack, _, hresult⟩ := Outcome.result_of_during hresult
    exact ⟨inner, _, hinner hcheck, stack, _, hresult⟩

/-- A short circuit gives a bool. -/
theorem exists_of_shortCircuit {op : BinaryOp} (hop : op.isShortCircuit = true)
    {left right : Expr Value} (h : Runs hosts run (.binary op left right) val)
    {stack : CallStack} {supply : Supply} {value : Value}
    (hresult : (run stack supply).result = .ok value) : ∃ b, value = .bool b := by
  rcases h.shortCircuit hop with ⟨found, hknown, rfl⟩ | ⟨first, second, _, _, rfl⟩
  · cases hresult
    -- a short circuit that was folded gives what folding found
    rw [Expr.known?_binary] at hknown
    obtain ⟨a, _, _, ⟨b, _, hsettled⟩ | ⟨b, _, hvalue⟩⟩ := BinaryOp.fold?_eq_some hknown
    · exact ⟨b, BinaryOp.settled?_eq_some hsettled⟩
    · obtain ⟨x, y, _, _, rfl⟩ := BinaryOp.apply_shortCircuit hop hvalue
      cases hsettled : op.settled? x with
      | none => exact ⟨y, rfl⟩
      | some settled => exact ⟨x, BinaryOp.settled?_eq_some hsettled⟩
  · obtain ⟨a, _, hresult⟩ := Outcome.result_of_bind hresult
    split at hresult
    · cases hresult
    · split at hresult
      · rename_i settled hsettled
        cases hresult
        exact ⟨_, BinaryOp.settled?_eq_some hsettled⟩
      · obtain ⟨b, _, hresult⟩ := Outcome.result_of_bind hresult
        obtain ⟨b, _, rfl⟩ := Value.exists_of_map_test hresult
        exact ⟨b, rfl⟩

end Runs

/-! ### Nodes -/

/-- Runs of a tree give values of the type that is inferred for it. -/
def Expr.Preserves (hosts : Hosts) (expr : Expr Value) : Prop :=
  ∀ {run : Run Value} {val : Valuation} {limit : Nat} {scopes : List (List Parameter)}
    {depth : Nat} {ty : Ty} {stack : CallStack} {supply : Supply} {value : Value},
    Runs hosts run expr val → expr.infer limit scopes depth = .ok ty →
    (run stack supply).result = .ok value → ty.accepts value = true

namespace Expr

variable {target left right test yes no : Expr Value} {args : List (Expr Value)}

/-- What a parameter stands for is of its type. -/
theorem preserves_parameter (param : Parameter) : (parameter param).Preserves hosts := by
  intro run val limit scopes depth ty stack supply value h hty hresult
  rw [h.parameter] at hresult
  rw [(infer_parameter hty).2]
  have hresult : val.resolve param = .ok value := hresult
  unfold Valuation.resolve at hresult
  split at hresult
  · rename_i found hfound
    cases hresult
    exact h.typed param _ hfound
  · cases hresult

/-- A field of an object fits the type that the class gives it.  Of anything else than an
    object of a known class, the type of the field is not known. -/
theorem preserves_field (hhosts : hosts.Sound) {name : String} (htarget : target.Preserves hosts) :
    (field target name).Preserves hosts := by
  intro run val limit scopes depth ty stack supply value h hty hresult
  obtain ⟨operand, hoperand, rfl⟩ := h.field hhosts
  obtain ⟨targetTy, htargetTy, hfield⟩ := infer_field hty
  obtain ⟨object, hobject, hresult⟩ := Outcome.result_of_bind hresult
  unfold Ty.fieldTy at hfield
  split at hfield
  · split at hfield
    · rename_i cls _ index field hfound
      cases hfield
      exact (hoperand.sound hhosts hobject).self.accepts_field
        (htarget hoperand htargetTy hobject) hfound hresult
    · cases hfield
  · cases hfield
    rfl
  · cases hfield

/-- The result of a unary operator has the type that the operator gives. -/
theorem preserves_unary (op : UnaryOp) (operand : Expr Value) :
    (unary op operand).Preserves hosts := by
  intro run val limit scopes depth ty stack supply value h hty hresult
  obtain ⟨inner, _, rfl⟩ := h.unary
  obtain ⟨operandTy, _, hop⟩ := infer_unary hty
  obtain ⟨a, _, hresult⟩ := Outcome.result_of_bind hresult
  have haccepts : ((op.resultTy? operandTy).getD .any).accepts value = true :=
    UnaryOp.accepts_apply hresult
  rwa [hop] at haccepts

/-- The result of a binary operator has the type that the operator gives to operands of
    their types. -/
theorem preserves_binary (op : BinaryOp) (hleft : left.Preserves hosts)
    (hright : right.Preserves hosts) : (binary op left right).Preserves hosts := by
  intro run val limit scopes depth ty stack supply value h hty hresult
  obtain ⟨leftTy, rightTy, hleftTy, hrightTy, hopTy⟩ := infer_binary hty
  cases hop : op.isShortCircuit with
  | true =>
    obtain ⟨b, rfl⟩ := h.exists_of_shortCircuit hop hresult
    rw [BinaryOp.resultTy?_shortCircuit hop hopTy]
    rfl
  | false =>
    obtain ⟨first, second, hfirst, hsecond, rfl⟩ := h.binary hop
    obtain ⟨a, ha, hresult⟩ := Outcome.result_of_bind hresult
    obtain ⟨b, hb, hresult⟩ := Outcome.result_of_bind hresult
    have haccepts := BinaryOp.accepts_apply (hleft hfirst hleftTy ha)
      (hright hsecond hrightTy hb) hresult
    rwa [hopTy] at haccepts

/-- What either branch of a conditional gives is of the common type of both. -/
theorem preserves_conditional (hyes : yes.Preserves hosts) (hno : no.Preserves hosts) :
    (conditional test yes no).Preserves hosts := by
  intro run val limit scopes depth ty stack supply value h hty hresult
  obtain ⟨_, yesTy, noTy, hyesTy, hnoTy, rfl⟩ := infer_conditional hty
  rcases h.conditional with ⟨taken, _, hrun⟩ | ⟨first, second, third, _, hsecond, hthird, rfl⟩
  · -- the test was known, and the run is one of the branch that it takes
    cases taken with
    | true => exact Ty.accepts_join (.inl (hyes hrun hyesTy hresult))
    | false => exact Ty.accepts_join (.inr (hno hrun hnoTy hresult))
  · obtain ⟨a, _, hresult⟩ := Outcome.result_of_bind hresult
    split at hresult
    · cases hresult
    · exact Ty.accepts_join (.inl (hyes hsecond hyesTy hresult))
    · exact Ty.accepts_join (.inr (hno hthird hnoTy hresult))

/-- A direct call gives what the body gives.  The result of any other call is of an
    unknown type, which accepts everything. -/
theorem preserves_invoke (hhosts : hosts.Sound)
    (hbody : ∀ params body, target = .lambda params body → body.Preserves hosts) :
    (invoke target args).Preserves hosts := by
  intro run val limit scopes depth ty stack supply value h hty hresult
  obtain ⟨first, others, hfirst, hothers, rfl⟩ := h.invoke
  obtain ⟨params, body, rfl⟩ | hlambda := target.lambda_or_ne
  · obtain ⟨closure, hclosure, hresult⟩ := Outcome.result_of_bind hresult
    obtain ⟨values, hvalues, hresult⟩ := Outcome.result_of_bind hresult
    obtain ⟨inner, _, hinner, _, _, hresult⟩ :=
      hfirst.body_of_call hclosure (hothers.sound hhosts hvalues) hresult
    exact hbody params body rfl hinner (infer_direct hty).1 hresult
  · rw [(infer_invoke hlambda hty).2.2]
    rfl

/-- **The type inferred for a tree accepts what every run of it gives**, where the tree has
    no extension nodes. -/
theorem preserves (hhosts : hosts.Sound) (expr : Expr Value) (hfree : expr.isExtensionFree = true) :
    expr.Preserves hosts := by
  induction expr with
  | constant c =>
    intro run val limit scopes depth ty stack supply value h hty hresult
    rw [h.constant] at hresult
    cases hresult
    rw [infer_constant hty]
    exact Value.accepts_typeOf c
  | parameter param => exact preserves_parameter param
  | new cls args _ =>
    intro run val limit scopes depth ty stack supply value h hty hresult
    obtain ⟨runs, _, rfl⟩ := h.new hhosts
    obtain ⟨values, _, hresult⟩ := Outcome.result_of_bind hresult
    rw [(infer_new hty).1]
    exact ClassOver.accepts_of_instantiate hresult
  | field target name ih => exact preserves_field hhosts (ih hfree)
  | unary op operand _ => exact preserves_unary op operand
  | binary op left right ihl ihr =>
    rw [isExtensionFree, Bool.and_eq_true] at hfree
    exact preserves_binary op (ihl hfree.1) (ihr hfree.2)
  | conditional test yes no _ ihy ihn =>
    simp only [isExtensionFree, Bool.and_eq_true] at hfree
    exact preserves_conditional (ihy hfree.1.2) (ihn hfree.2)
  | lambda params body _ =>
    intro run val limit scopes depth ty stack supply value h hty hresult
    obtain ⟨callable, known, hdenotes, _, _, rfl⟩ := h.lambda
    cases hresult
    rw [(infer_lambda hty).2]
    simp [Supply.function, Ty.accepts, hdenotes.arity_eq, Lambda.arity]
  | invoke target args _ ihb _ =>
    rw [isExtensionFree, Bool.and_eq_true] at hfree
    refine preserves_invoke hhosts fun params body htarget => ihb params body htarget ?_
    rw [htarget] at hfree
    exact hfree.1
  | extension node operands reduction _ _ => simp [isExtensionFree] at hfree

end Expr

/-! ### Functions -/

namespace Lambda

/-- What holds of the scalars and of everything in what the lambda holds, holds of
    everything in what the function holds, whichever strategy compiled it. -/
theorem allOf_of_compileBy {φ : Value → Prop} (hscalar : ∀ value, value.isScalar = true → φ value)
    {lambda : Lambda Value} {strategy : Strategy} {options : CompilerOptions} {strict : Bool}
    {fn : CompiledFn} (hparts : Value.AllOf φ lambda.parts)
    (hcoherent : Value.Coherent fun c => c ∈ lambda.literals)
    (h : lambda.compileBy strategy options strict = .ok fn) :
    Value.AllOf φ fn.callable.parts := fun part hpart => by
  rcases (denotes_of_compileBy hcoherent (fun _ hc => hc) h).2 part hpart with
    hprim | hliteral | hheld
  · exact Value.all_of_parts_eq_nil (Value.parts_of_isPrimitive hprim)
      (hscalar part (Value.isScalar_of_isPrimitive hprim))
  · exact hparts part (Expr.literals_subset_parts _ hliteral)
  · exact hparts part hheld

/-- A lambda that holds sound values makes a function that does. -/
theorem allOf_parts_of_compileBy {lambda : Lambda Value} {strategy : Strategy}
    {options : CompilerOptions} {strict : Bool} {fn : CompiledFn}
    (hsound : Value.AllOf Value.Fits lambda.parts)
    (hcoherent : Value.Coherent fun c => c ∈ lambda.literals)
    (h : lambda.compileBy strategy options strict = .ok fn) :
    Value.AllOf Value.Fits fn.callable.parts :=
  allOf_of_compileBy (fun _ => Value.fits_of_isScalar) hsound hcoherent h

/-- **Type soundness.**  Whatever a function compiled from a well-typed lambda
    returns fits the type of the lambda: by either strategy, under all options, on
    all arguments.  Validation may have been asked with any limit for the nesting
    of nodes. -/
theorem accepts_of_validate (hhosts : hosts.Sound) {lambda : Lambda Value}
    (hfree : lambda.isExtensionFree = true) {limit : Nat} {ty : Ty}
    (hvalidate : lambda.validate limit = .ok ty)
    (hsound : Value.AllOf Value.Fits lambda.literals)
    (hcoherent : Value.Coherent fun c => c ∈ lambda.literals) {strategy : Strategy}
    {options : CompilerOptions} {strict : Bool} {fn : CompiledFn}
    (hcompile : lambda.compileBy strategy options strict = .ok fn) {args : List Value}
    (hargs : Value.AllOf Value.Fits args) {supply : Supply} {value : Value}
    (hresult : (fn.invoke hosts args supply).1 = .ok value) : ty.accepts value = true := by
  obtain ⟨known, hdenotes⟩ := denotes_of_isExtensionFree hfree hcoherent hcompile
  have hparts := allOf_parts_of_compileBy (parts_eq_literals hfree ▸ hsound) hcoherent hcompile
  obtain ⟨inner, hinner, hcall⟩ := hdenotes.call hosts hparts hargs
  have hresult : (call hosts fn.callable args (.new fn.maxCallDepth) supply).result = .ok value :=
    hresult
  rw [hcall] at hresult
  split at hresult
  · cases hresult
  · rename_i hcheck
    obtain ⟨stack, _, hresult⟩ := Outcome.result_of_during hresult
    exact lambda.body.preserves hhosts hfree (hinner hcheck) (declaringOnce_eq_ok hvalidate) hresult

/-- A class of objects with a name. -/
def tag : ClassDef := ⟨1, "Tag", [⟨"name", .string⟩]⟩

/-- A lambda that reads a field, which compiled code finds by its position. -/
def nameOf : Lambda Value :=
  ⟨[⟨1, "t", .object tag⟩], .field (.parameter ⟨1, "t", .object tag⟩) "name"⟩

/-- What the fast strategy makes of `nameOf`. -/
def nameOfFn : CompiledFn :=
  ⟨.compiled nameOf.params (.fieldAt (.slot (.argument 0)) 0 "name") [] [], .fast,
    CallStack.defaultLimit, some ⟨[], [⟨0, ["t"], []⟩], 0, 0⟩⟩

/-- The name of a tag is a string. -/
theorem accepts_of_validate_nameOf :
    (nameOfFn.invoke Hosts.standard [.object 1 tag [.string "a"]] {}).1 = .ok (.string "a")
      ∧ Ty.string.accepts (.string "a") = true := by
  have hvalidate : nameOf.validate 512 = .ok .string := rfl
  have hcompile : nameOf.compileBy .fast {} true = .ok nameOfFn := rfl
  have hnone : ∀ value, value ∉ nameOf.literals := fun _ h => by cases h
  have hfits : Value.Fits (.object 1 tag [.string "a"]) := .cons rfl .nil
  have hsound : Value.Sound (.object 1 tag [.string "a"]) := by
    refine Value.all_iff.2 ⟨hfits, fun part hpart => ?_⟩
    cases List.mem_singleton.1 hpart
    exact Value.sound_of_isScalar rfl
  -- the field is read from where the class has it
  have hresult : (nameOfFn.invoke Hosts.standard [.object 1 tag [.string "a"]] {}).1
      = .ok (.string "a") := by
    simp [CompiledFn.invoke, nameOfFn, nameOf, call, checkParameters, firstMisfit?, Ty.accepts,
      CallStack.during, CallStack.enter, CallStack.new, CallStack.defaultLimit, exec,
      Activation.read, Activation.entry, Outcome.bind, Outcome.done, Value.fieldAt]
  exact ⟨hresult, accepts_of_validate Hosts.standard_sound rfl hvalidate
    (fun value h => absurd h (hnone value))
    ⟨fun h _ => absurd h (hnone _), fun h _ => absurd h (hnone _)⟩ hcompile
    (List.forall_mem_singleton.2 hsound) hresult⟩

end Lambda

end ExprTree

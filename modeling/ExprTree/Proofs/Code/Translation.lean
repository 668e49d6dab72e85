import ExprTree.Code.Emit
import ExprTree.Proofs.Tree.Known
import Mathlib.Data.List.Forall2

namespace ExprTree

/-!
# What code stands for

`Translates constants scope expr code ty` relates a tree to the code that
emission may make of it in a scope, with the type it infers on the way.  The
relation does not mention the state of emission: of the pool it knows the final
table `constants` alone.  There is one rule for each form of code, and two for
conditionals whose test is known.

`Scope.Nests` is what emission makes sure of when it enters a nested lambda: the
captures are found in the scope around it, and they cover what the lambda reads.
-/

/-! ### Positions -/

section

variable {α : Type} [DecidableEq α] {a : α}

/-- The position of the last occurrence holds the element. -/
theorem getElem?_of_lastIndexOf? {items : List α} {index : Nat}
    (h : lastIndexOf? a items = some index) : items[index]? = some a := by
  induction items generalizing index with
  | nil => simp [lastIndexOf?] at h
  | cons b rest ih =>
    rw [lastIndexOf?] at h
    split at h
    · rename_i found hfound
      cases h
      exact ih hfound
    · split at h
      · rename_i hb
        cases h
        simp [hb]
      · cases h

/-- Only what is not in a list has no position in it. -/
theorem lastIndexOf?_eq_none {items : List α} : lastIndexOf? a items = none ↔ a ∉ items := by
  induction items with
  | nil => simp [lastIndexOf?]
  | cons b rest ih =>
    rw [lastIndexOf?, List.mem_cons, not_or, ← ih]
    split
    · rename_i found hfound
      simp [hfound]
    · rename_i hnone
      split
      · rename_i hb
        simp [hb]
      · rename_i hb
        simp [hnone, Ne.symm hb]

end

/-! ### Translation -/

/-- The scope of a lambda inside another one: its captures have a slot in the
    scope around it, and everything it reads is among them. -/
structure Scope.Nests (parent : Scope) (lambda : Lambda Value) (inner : Scope) : Prop where
  params : inner.params = lambda.params
  source : ∀ capture ∈ inner.captures, parent.resolve? capture.1 = some capture.2.source
  covers : ∀ param ∈ lambda.reads, param ∈ inner.captures.map (·.1)

mutual

/-- The code that a tree may become in a scope, and the type inferred for it.

* `literal` — a value that folding finds, in place of the whole tree;
* `taken` — the branch that is left of a conditional whose test is known;
* `construct`, `fieldAt`, `arithmetic` — the forms without checks, where the
  inferred types allow them;
* `direct` — a lambda that is invoked at once, the one call of known type. -/
inductive Translates (constants : List Value) : Scope → Expr Value → Code Value → Ty → Prop
  | literal {scope expr value} :
      expr.known? true = some value → Translates constants scope expr (.literal value) value.typeOf
  | embedded {scope value} :
      Translates constants scope (.constant value) (.embedded value) value.typeOf
  | pooled {scope value index} :
      constants[index]? = some value →
      Translates constants scope (.constant value) (.pooled index) value.typeOf
  | slot {scope param slot} :
      scope.resolve? param = some slot →
      Translates constants scope (.parameter param) (.slot slot) param.ty
  | instantiate {scope cls args emitted} :
      TranslatesAll constants scope args emitted →
      Translates constants scope (.new cls args) (.instantiate cls (emitted.map (·.code)))
        (.object cls)
  | construct {scope cls args emitted} :
      TranslatesAll constants scope args emitted →
      List.Forall₂ (fun field (e : Emitted) => field.ty.surelyTakes e.ty = true)
        cls.fields emitted →
      Translates constants scope (.new cls args) (.construct cls (emitted.map (·.code)))
        (.object cls)
  | field {scope target code ty name} :
      Translates constants scope target code ty →
      Translates constants scope (.field target name) (.field code name) .any
  | fieldAt {scope target code cls name index field} :
      Translates constants scope target code (.object cls) →
      cls.field? name = some (index, field) →
      Translates constants scope (.field target name) (.fieldAt code index name) field.ty
  | unary {scope op operand code ty} :
      Translates constants scope operand code ty →
      Translates constants scope (.unary op operand) (.unary op code)
        ((op.resultTy? ty).getD .any)
  | shortCircuit {scope op left right leftCode rightCode leftTy rightTy} :
      op.isShortCircuit = true →
      Translates constants scope left leftCode leftTy →
      Translates constants scope right rightCode rightTy →
      Translates constants scope (.binary op left right) (.shortCircuit op leftCode rightCode)
        .bool
  | binary {scope op left right leftCode rightCode leftTy rightTy} :
      op.isShortCircuit = false →
      Translates constants scope left leftCode leftTy →
      Translates constants scope right rightCode rightTy →
      Translates constants scope (.binary op left right) (.binary op leftCode rightCode)
        ((op.resultTy? leftTy rightTy).getD .any)
  | arithmetic {scope op left right leftCode rightCode} :
      op.isArithmetic = true →
      Translates constants scope left leftCode .number →
      Translates constants scope right rightCode .number →
      Translates constants scope (.binary op left right) (.arithmetic op leftCode rightCode)
        .number
  | conditional {scope test yes no testCode yesCode noCode testTy yesTy noTy} :
      Translates constants scope test testCode testTy →
      Translates constants scope yes yesCode yesTy →
      Translates constants scope no noCode noTy →
      Translates constants scope (.conditional test yes no)
        (.conditional testCode yesCode noCode) (yesTy.join noTy)
  | taken {scope test yes no taken code ty} :
      test.known? true = some (.bool taken) →
      Translates constants scope (if taken then yes else no) code ty →
      Translates constants scope (.conditional test yes no) code ty
  | closure {scope params body inner code ty} :
      scope.Nests ⟨params, body⟩ inner →
      Translates constants inner body code ty →
      Translates constants scope (.lambda params body)
        (.closure params inner.captureList code) (.function (some params.length))
  | direct {scope params body args inner code ty emitted} :
      scope.Nests ⟨params, body⟩ inner →
      Translates constants inner body code ty →
      TranslatesAll constants scope args emitted →
      Translates constants scope (.invoke (.lambda params body) args)
        (.invoke (.closure params inner.captureList code) (emitted.map (·.code))) ty
  | invoke {scope target args code ty emitted} :
      Translates constants scope target code ty →
      TranslatesAll constants scope args emitted →
      Translates constants scope (.invoke target args)
        (.invoke code (emitted.map (·.code))) .any

/-- The code that several trees may become, one after the other. -/
inductive TranslatesAll (constants : List Value) : Scope → List (Expr Value) → List Emitted → Prop
  | nil {scope} : TranslatesAll constants scope [] []
  | cons {scope expr rest emitted others} :
      Translates constants scope expr emitted.code emitted.ty →
      TranslatesAll constants scope rest others →
      TranslatesAll constants scope (expr :: rest) (emitted :: others)

end

variable {constants : List Value}

/-- Several trees are translated one by one. -/
theorem translatesAll_iff {scope : Scope} {exprs : List (Expr Value)} {emitted : List Emitted} :
    TranslatesAll constants scope exprs emitted
      ↔ List.Forall₂ (fun expr (e : Emitted) => Translates constants scope expr e.code e.ty)
          exprs emitted := by
  constructor
  · intro h
    induction exprs generalizing emitted with
    | nil =>
      cases h
      exact .nil
    | cons expr rest ih =>
      cases h with
      | cons hhead hrest => exact .cons hhead (ih hrest)
  · intro h
    induction h with
    | nil => exact .nil
    | cons hhead _ ih => exact .cons hhead ih

/-- Induction over a translation, with what holds of several trees as one list. -/
@[elab_as_elim]
theorem Translates.inductionOn {motive : Scope → Expr Value → Code Value → Ty → Prop}
    (literal : ∀ scope expr value, expr.known? true = some value →
      motive scope expr (.literal value) value.typeOf)
    (embedded : ∀ scope value, motive scope (.constant value) (.embedded value) value.typeOf)
    (pooled : ∀ scope value index, constants[index]? = some value →
      motive scope (.constant value) (.pooled index) value.typeOf)
    (slot : ∀ scope param slot, scope.resolve? param = some slot →
      motive scope (.parameter param) (.slot slot) param.ty)
    (instantiate : ∀ scope cls args emitted,
      List.Forall₂ (fun arg (e : Emitted) => motive scope arg e.code e.ty) args emitted →
      motive scope (.new cls args) (.instantiate cls (emitted.map (·.code))) (.object cls))
    (construct : ∀ scope cls args emitted,
      List.Forall₂ (fun arg (e : Emitted) => motive scope arg e.code e.ty) args emitted →
      List.Forall₂ (fun field (e : Emitted) => field.ty.surelyTakes e.ty = true)
        cls.fields emitted →
      motive scope (.new cls args) (.construct cls (emitted.map (·.code))) (.object cls))
    (field : ∀ scope target code ty name, motive scope target code ty →
      motive scope (.field target name) (.field code name) .any)
    (fieldAt : ∀ scope target code cls name index field, motive scope target code (.object cls) →
      cls.field? name = some (index, field) →
      motive scope (.field target name) (.fieldAt code index name) field.ty)
    (unary : ∀ scope op operand code ty, motive scope operand code ty →
      motive scope (.unary op operand) (.unary op code) ((op.resultTy? ty).getD .any))
    (shortCircuit : ∀ scope op left right leftCode rightCode leftTy rightTy,
      op.isShortCircuit = true → motive scope left leftCode leftTy →
      motive scope right rightCode rightTy →
      motive scope (.binary op left right) (.shortCircuit op leftCode rightCode) .bool)
    (binary : ∀ scope op left right leftCode rightCode leftTy rightTy,
      op.isShortCircuit = false → motive scope left leftCode leftTy →
      motive scope right rightCode rightTy →
      motive scope (.binary op left right) (.binary op leftCode rightCode)
        ((op.resultTy? leftTy rightTy).getD .any))
    (arithmetic : ∀ scope op left right leftCode rightCode,
      op.isArithmetic = true → motive scope left leftCode .number →
      motive scope right rightCode .number →
      motive scope (.binary op left right) (.arithmetic op leftCode rightCode) .number)
    (conditional : ∀ scope test yes no testCode yesCode noCode testTy yesTy noTy,
      motive scope test testCode testTy → motive scope yes yesCode yesTy →
      motive scope no noCode noTy →
      motive scope (.conditional test yes no) (.conditional testCode yesCode noCode)
        (yesTy.join noTy))
    (taken : ∀ scope test yes no taken code ty, test.known? true = some (.bool taken) →
      motive scope (if taken then yes else no) code ty →
      motive scope (.conditional test yes no) code ty)
    (closure : ∀ scope params body inner code ty, scope.Nests ⟨params, body⟩ inner →
      Translates constants inner body code ty → motive inner body code ty →
      motive scope (.lambda params body) (.closure params inner.captureList code)
        (.function (some params.length)))
    (direct : ∀ scope params body args inner code ty emitted, scope.Nests ⟨params, body⟩ inner →
      Translates constants inner body code ty → motive inner body code ty →
      List.Forall₂ (fun arg (e : Emitted) => motive scope arg e.code e.ty) args emitted →
      motive scope (.invoke (.lambda params body) args)
        (.invoke (.closure params inner.captureList code) (emitted.map (·.code))) ty)
    (invoke : ∀ scope target args code ty emitted, motive scope target code ty →
      List.Forall₂ (fun arg (e : Emitted) => motive scope arg e.code e.ty) args emitted →
      motive scope (.invoke target args) (.invoke code (emitted.map (·.code))) .any)
    {scope : Scope} {expr : Expr Value} {code : Code Value} {ty : Ty}
    (h : Translates constants scope expr code ty) : motive scope expr code ty :=
  @Translates.rec constants (fun scope expr code ty _ => motive scope expr code ty)
    (fun scope exprs emitted _ =>
      List.Forall₂ (fun expr (e : Emitted) => motive scope expr e.code e.ty) exprs emitted)
    (literal _ _ _) (embedded _ _) (pooled _ _ _) (slot _ _ _)
    (fun _ ih => instantiate _ _ _ _ ih) (fun _ hexact ih => construct _ _ _ _ ih hexact)
    (fun _ ih => field _ _ _ _ _ ih) (fun _ hfield ih => fieldAt _ _ _ _ _ _ _ ih hfield)
    (fun _ ih => unary _ _ _ _ _ ih)
    (fun hop _ _ ihl ihr => shortCircuit _ _ _ _ _ _ _ _ hop ihl ihr)
    (fun hop _ _ ihl ihr => binary _ _ _ _ _ _ _ _ hop ihl ihr)
    (fun hop _ _ ihl ihr => arithmetic _ _ _ _ _ _ hop ihl ihr)
    (fun _ _ _ iht ihy ihn => conditional _ _ _ _ _ _ _ _ _ _ iht ihy ihn)
    (fun htest _ ih => taken _ _ _ _ _ _ _ htest ih)
    (fun hnests hbody ih => closure _ _ _ _ _ _ hnests hbody ih)
    (fun hnests hbody _ ih ihargs => direct _ _ _ _ _ _ _ _ hnests hbody ih ihargs)
    (fun _ _ ih ihargs => invoke _ _ _ _ _ _ ih ihargs)
    .nil (fun _ _ ih ihrest => .cons ih ihrest) scope expr code ty h

end ExprTree

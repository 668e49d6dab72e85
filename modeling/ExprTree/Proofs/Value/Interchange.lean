import ExprTree.Proofs.Tree.Reduction
import ExprTree.Proofs.Value.Correspondence

namespace ExprTree

/-!
# Closures that differ in what they do not need

A closure keeps the whole environment in which it was created, but looks up the free
parameters of its lambda only.  `Value.Interchangeable` holds of two values that are the same
except that closures of one lambda may have different environments: these have to agree on
what the lambda needs.

Operations give the same on interchangeable operands, or interchangeable results.
-/

/-! ### What a tree needs -/

/-- What has to be known about a parameter for a tree to be walked.  An extension node is
    walked by its operands, while capture analysis looks at its reduction: where there is one,
    every parameter counts. -/
def Expr.Needs (expr : Expr Value) (param : Parameter) : Prop :=
  expr.isExtensionFree = true → param ∈ expr.reads

/-- What a closure of a lambda has to know about a parameter: the free ones, if there are no
    extension nodes. -/
def Lambda.Needs (lambda : Lambda Value) (param : Parameter) : Prop :=
  lambda.isExtensionFree = true → param ∈ lambda.freeParameters

/-- A lambda needs the same as the tree that makes its closure. -/
theorem Lambda.needs_iff {lambda : Lambda Value} {param : Parameter} :
    lambda.Needs param ↔ lambda.toExpr.Needs param := by
  refine forall_congr' fun hfree => ?_
  rw [mem_freeParameters, reduce_eq_self hfree, reads]

/-! ### The relation -/

/-- Values that are the same, except that closures may have other environments where these
    agree on what the lambda needs.  Such closures may have been captured, by code or by a
    function of the host. -/
inductive Value.Interchangeable : Value → Value → Prop
  | same {value : Value} : Interchangeable value value
  | object {id : Nat} {cls : ClassDef} {fields fields' : List Value} :
      List.Forall₂ Interchangeable fields fields' →
      Interchangeable (.object id cls fields) (.object id cls fields')
  | interpreted {id : Nat} {params : List Parameter} {body : Expr Value} {env env' : Env Value} :
      (∀ param, Lambda.Needs ⟨params, body⟩ param →
        Option.Rel Interchangeable (env.lookup? param) (env'.lookup? param)) →
      Interchangeable (.function id (.interpreted params body env))
        (.function id (.interpreted params body env'))
  | compiled {id : Nat} {params : List Parameter} {body : Code Value}
      {captured captured' constants : List Value} :
      List.Forall₂ Interchangeable captured captured' →
      Interchangeable (.function id (.compiled params body captured constants))
        (.function id (.compiled params body captured' constants))
  | native {id arity : Nat} {name host : String} {captured captured' : List Value} :
      List.Forall₂ Interchangeable captured captured' →
      Interchangeable (.function id (.native name arity ⟨host, captured⟩))
        (.function id (.native name arity ⟨host, captured'⟩))

namespace Value.Interchangeable

variable {a a' b b' : Value}

theorem alike (h : Interchangeable a a') : Alike a a' := by
  cases h with
  | same => exact ⟨rfl, fun _ => rfl⟩
  | object | interpreted | compiled | native => exact ⟨rfl, nofun⟩

/-- References keep their ids. -/
theorem beq_eq (ha : Interchangeable a a') (hb : Interchangeable b b') :
    (a == b) = (a' == b') := by
  have hleft : (a == b) = (a' == b) := by
    cases ha with
    | same => rfl
    | object | interpreted | compiled | native => cases b <;> rfl
  have hright : (a' == b) = (a' == b') := by
    cases hb with
    | same => rfl
    | object | interpreted | compiled | native => cases a' <;> rfl
  exact hleft.trans hright

/-- A binary operator gives the same of interchangeable operands. -/
theorem binary_eq (ha : Interchangeable a a') (hb : Interchangeable b b') (op : BinaryOp) :
    op.apply a b = op.apply a' b' :=
  ha.alike.binary_eq hb.alike (beq_eq ha hb) op

theorem direct_eq (ha : Interchangeable a a') (hb : Interchangeable b b') (op : BinaryOp) :
    op.direct a b = op.direct a' b' :=
  ha.alike.direct_eq hb.alike (beq_eq ha hb) op

/-- Every value may stand for itself. -/
theorem results_of_eq {result : Except RuntimeError Value} :
    ResultsAgree Interchangeable result result :=
  .of_eq fun _ _ => .same

theorem forall₂_alike {values values' : List Value}
    (h : List.Forall₂ Interchangeable values values') : List.Forall₂ Alike values values' :=
  h.imp fun _ _ => alike

theorem forall₂_refl (values : List Value) : List.Forall₂ Interchangeable values values :=
  List.forall₂_same.2 fun _ _ => .same

theorem option_refl (value : Option Value) : Option.Rel Interchangeable value value := by
  cases value with
  | none => exact .none
  | some value => exact .some .same

/-- Interchangeable objects have interchangeable fields. -/
theorem field_rel (h : Interchangeable a a') (name : String) :
    ResultsAgree Interchangeable (a.field name) (a'.field name) := by
  cases h with
  | same => exact results_of_eq
  | object hfields => exact field_rel_of_fields hfields name
  | interpreted | compiled | native => exact results_of_eq

/-- Interchangeable objects have interchangeable fields at every position. -/
theorem fieldAt_rel (h : Interchangeable a a') (index : Nat) (name : String) :
    ResultsAgree Interchangeable (a.fieldAt index name) (a'.fieldAt index name) := by
  cases h with
  | same => exact results_of_eq
  | @object id cls fields fields' hfields =>
    rw [fieldAt, fieldAt]
    have hrel := forall₂_getElem? hfields index
    generalize fields[index]? = value at hrel ⊢
    generalize fields'[index]? = value' at hrel ⊢
    cases hrel with
    | none => exact field_rel_of_fields hfields name
    | some hvalue => exact .ok hvalue
  | interpreted | compiled | native => exact results_of_eq

end Value.Interchangeable

/-! ### Environments -/

namespace Env

variable {env env' : Env Value} {expr sub : Expr Value}

/-- Two environments give a tree interchangeable values for what it needs. -/
def AgreeFor (expr : Expr Value) (env env' : Env Value) : Prop :=
  ∀ param, expr.Needs param →
    Option.Rel Value.Interchangeable (env.lookup? param) (env'.lookup? param)

/-- What is enough for a tree is enough for its operands. -/
theorem AgreeFor.child (h : AgreeFor expr env env') (hsub : sub ∈ expr.children) :
    AgreeFor sub env env' :=
  fun param hneeds => h param fun hfree =>
    Expr.reads_subset_of_child hsub (hneeds (Expr.isExtensionFree_of_child hfree hsub))

/-- Inside a call, the arguments are looked up first. -/
theorem AgreeFor.bind {lambda : Lambda Value} {args args' : List Value}
    (h : AgreeFor lambda.toExpr env env')
    (hargs : List.Forall₂ Value.Interchangeable args args')
    (hlength : lambda.params.length = args.length) :
    AgreeFor lambda.body (Frame.bind lambda.params args :: env)
      (Frame.bind lambda.params args' :: env') := by
  intro param hneeds
  rw [lookup?_bind hlength, lookup?_bind (hlength.trans hargs.length_eq), Valuation.bind,
    Valuation.bind]
  split
  · exact forall₂_getElem? hargs _
  · rename_i hnone
    exact h param fun hfree =>
      Expr.mem_reads_lambda.2 ⟨hneeds hfree, lastIndexOf?_eq_none.1 hnone⟩

end Env

/-! ### Activations -/

namespace Activation

variable {args args' captured captured' : List Value}

/-- Entries at one index of interchangeable tables are interchangeable. -/
theorem entry_rel {table table' : List Value}
    (h : List.Forall₂ Value.Interchangeable table table') (index : Nat) :
    ResultsAgree Value.Interchangeable (entry table index) (entry table' index) := by
  have hrel := forall₂_getElem? h index
  rw [entry, entry]
  generalize table[index]? = value at hrel ⊢
  generalize table'[index]? = value' at hrel ⊢
  cases hrel with
  | none => exact .error
  | some hvalue => exact .ok hvalue

variable (hargs : List.Forall₂ Value.Interchangeable args args')
  (hcaptured : List.Forall₂ Value.Interchangeable captured captured')

include hargs hcaptured

/-- A slot is read alike in both activations. -/
theorem read_rel (constants : List Value) (slot : Slot) :
    ResultsAgree Value.Interchangeable (read ⟨args, captured, constants⟩ slot)
      (read ⟨args', captured', constants⟩ slot) := by
  cases slot with
  | argument index => exact entry_rel hargs index
  | captured index => exact entry_rel hcaptured index

/-- Closures capture interchangeable values. -/
theorem capture_rel (constants : List Value) (captures : List Capture) :
    ResultsAgree (List.Forall₂ Value.Interchangeable)
      (capture ⟨args, captured, constants⟩ captures)
      (capture ⟨args', captured', constants⟩ captures) := by
  induction captures with
  | nil => exact .ok .nil
  | cons first rest ih =>
    have hread := read_rel hargs hcaptured constants first.source
    rw [capture, capture]
    generalize read ⟨args, captured, constants⟩ first.source = result at hread ⊢
    generalize read ⟨args', captured', constants⟩ first.source = result' at hread ⊢
    -- captures are read in order, and both runs stop at the same one if it is missing
    cases hread with
    | error => exact .error
    | ok hvalue =>
      generalize capture ⟨args, captured, constants⟩ rest = results at ih ⊢
      generalize capture ⟨args', captured', constants⟩ rest = results' at ih ⊢
      cases ih with
      | error => exact .error
      | ok hvalues => exact .ok (.cons hvalue hvalues)

end Activation

end ExprTree

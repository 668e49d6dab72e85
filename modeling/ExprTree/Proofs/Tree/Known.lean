import ExprTree.Code.Folding
import ExprTree.Proofs.Tree.Basic
import ExprTree.Run.Evaluator

namespace ExprTree

/-!
# Known values

`Expr.known?` is the value that folding finds for a tree, read off the tree
itself.  It is a primitive (`Expr.isPrimitive_of_known?`); without folding, only
constants that stand in the tree are known.

`UnaryOp.fold?_eq_some` and `BinaryOp.fold?_eq_some` say what a folded operator
computes.

`Expr.KeepsExtension` says that an extension node is left over: it stands outside
every operand and every branch that folding discards.
-/

attribute [grind =] foldResult? BinaryOp.fold? BinaryOp.settled?

/-! ### Folded operators -/

/-- Only results that are primitives are kept. -/
theorem foldResult?_eq_some {result : Except RuntimeError Value} {value : Value} :
    foldResult? result = some value ↔ result = .ok value ∧ value.isPrimitive = true := by
  unfold foldResult?
  cases result with
  | error error => simp
  | ok found =>
    simp only [Option.ite_none_right_eq_some, Option.some.injEq, Except.ok.injEq]
    constructor
    · rintro ⟨h, rfl⟩
      exact ⟨rfl, h⟩
    · rintro ⟨rfl, h⟩
      exact ⟨h, rfl⟩

/-- A unary operator is folded to its result on a known operand. -/
theorem UnaryOp.fold?_eq_some {op : UnaryOp} {operand : Option Value} {value : Value} :
    op.fold? operand = some value
      ↔ ∃ a, operand = some a ∧ op.apply a = .ok value ∧ value.isPrimitive = true := by
  cases operand with
  | none => simp [fold?]
  | some a => simp [fold?, foldResult?_eq_some]

namespace BinaryOp

/-- Only a short circuit is settled by one operand. -/
theorem settled?_eq_none {op : BinaryOp} (h : op.isShortCircuit = false) (left : Bool) :
    op.settled? left = none := by
  cases op <;> simp_all [settled?, settledBy, isShortCircuit]

/-- A binary operator is folded to what its left operand settles, or to its
    result on two known operands. -/
theorem fold?_eq_some {op : BinaryOp} {left right : Option Value} {value : Value}
    (h : op.fold? left right = some value) :
    ∃ a, left = some a ∧ value.isPrimitive = true ∧
      ((∃ b, a = .bool b ∧ op.settled? b = some value) ∨
        ∃ b, right = some b ∧ op.apply a b = .ok value) := by
  unfold fold? at h
  split at h
  · split at h
    · cases h
      -- the left operand settles a short circuit, so the right one need not be known
      exact ⟨_, rfl, rfl, .inl ⟨false, rfl, rfl⟩⟩
    · cases h
      exact ⟨_, rfl, rfl, .inl ⟨true, rfl, rfl⟩⟩
    · split at h
      · obtain ⟨hvalue, hprim⟩ := foldResult?_eq_some.1 h
        exact ⟨_, rfl, hprim, .inr ⟨_, rfl, hvalue⟩⟩
      · cases h
  · cases h

/-- A settled short circuit needs nothing from its right operand. -/
theorem fold?_of_settled {op : BinaryOp} {b : Bool} {value : Value}
    (h : op.settled? b = some value) (right : Option Value) :
    op.fold? (some (.bool b)) right = some value := by
  cases op <;> cases b <;> simp_all [settled?, settledBy, fold?]

/-- What the left operand settles alone does not depend on the right one. -/
theorem fold?_of_left {op : BinaryOp} {left : Option Value} {value : Value}
    (h : op.fold? left none = some value) (right : Option Value) :
    op.fold? left right = some value := by
  obtain ⟨a, rfl, _, ⟨b, rfl, hsettled⟩ | ⟨b, hb, _⟩⟩ := fold?_eq_some h
  · exact fold?_of_settled hsettled right
  · cases hb

/-- Only a short circuit is folded with one operand. -/
theorem fold?_none {op : BinaryOp} (h : op.isShortCircuit = false) (left : Option Value) :
    op.fold? left none = none := by
  rw [Option.eq_none_iff_forall_ne_some]
  intro value hvalue
  obtain ⟨a, _, _, ⟨b, _, hsettled⟩ | ⟨b, hb, _⟩⟩ := fold?_eq_some hvalue
  · rw [settled?_eq_none h] at hsettled
    cases hsettled
  · cases hb

end BinaryOp

/-! ### Known values of trees -/

namespace Expr

/-- What is known about the value of a tree: the constants that are primitives,
    and with `fold` what operators and conditionals make of them. -/
def known? (fold : Bool) : Expr Value → Option Value
  | constant value => if value.isPrimitive then some value else none
  | unary op operand => if fold then op.fold? (operand.known? fold) else none
  | binary op left right =>
    if fold then op.fold? (left.known? fold) (right.known? fold) else none
  | conditional test yes no =>
    match if fold then foldTest? (test.known? fold) else none with
    | some true => yes.known? fold
    | some false => no.known? fold
    | none => none
  | _ => none

variable {fold : Bool}

attribute [grind =] known?

theorem known?_unary {op : UnaryOp} {operand : Expr Value} :
    (Expr.unary op operand).known? true = op.fold? (operand.known? true) := by
  simp [known?]

theorem known?_binary {op : BinaryOp} {left right : Expr Value} :
    (Expr.binary op left right).known? true
      = op.fold? (left.known? true) (right.known? true) := by
  simp [known?]

/-- A test is folded if it is a known truth value. -/
theorem foldTest?_eq_some {test : Option Value} {taken : Bool} :
    foldTest? test = some taken ↔ test = some (.bool taken) := by
  unfold foldTest?
  split
  · simp
  · cases taken <;> simp_all

/-- The known value of a conditional is that of the branch which its known test takes. -/
theorem known?_conditional {test yes no : Expr Value} {value : Value} :
    (Expr.conditional test yes no).known? true = some value
      ↔ ∃ taken, test.known? true = some (.bool taken)
        ∧ (if taken then yes else no).known? true = some value := by
  simp only [known?, if_true]
  cases hfold : foldTest? (test.known? true) with
  | none =>
    have : ∀ taken, test.known? true ≠ some (.bool taken) := fun taken htaken => by
      rw [foldTest?_eq_some.2 htaken] at hfold
      cases hfold
    simp [this]
  | some taken =>
    rw [foldTest?_eq_some.1 hfold]
    cases taken <;> simp

/-- Only primitives are known. -/
theorem isPrimitive_of_known? {expr : Expr Value} {value : Value}
    (h : expr.known? fold = some value) : value.isPrimitive = true := by
  induction expr with
  | constant c =>
    simp only [known?, Option.ite_none_right_eq_some, Option.some.injEq] at h
    exact h.2 ▸ h.1
  | unary op operand ih =>
    simp only [known?, Option.ite_none_right_eq_some] at h
    exact (UnaryOp.fold?_eq_some.1 h.2).choose_spec.2.2
  | binary op left right ihl ihr =>
    simp only [known?, Option.ite_none_right_eq_some] at h
    obtain ⟨_, _, hprim, _⟩ := BinaryOp.fold?_eq_some h.2
    exact hprim
  | conditional test yes no iht ihy ihn =>
    -- a conditional is known if the branch that it takes is
    rw [known?] at h
    split at h
    · exact ihy h
    · exact ihn h
    · cases h
  | parameter | new | field | lambda | invoke | extension => simp [known?] at h

/-! ### What folding leaves -/

/-- The branch of a conditional that is chosen before it runs. -/
def decided? (fold : Bool) (test : Expr Value) : Option Bool :=
  if fold then foldTest? (test.known? fold) else none

/-- An extension node is left when everything is reduced and folded: none of the
    operators around it has a known value, and no decided conditional drops it. -/
inductive KeepsExtension (fold : Bool) : Expr Value → Prop
  | here {node operands} : KeepsExtension fold (.extension node operands none)
  | new {cls args arg} : arg ∈ args → KeepsExtension fold arg → KeepsExtension fold (.new cls args)
  | field {target name} : KeepsExtension fold target → KeepsExtension fold (.field target name)
  | unary {op operand} : (unary op operand).known? fold = none → KeepsExtension fold operand →
      KeepsExtension fold (.unary op operand)
  | left {op left right} : (binary op left right).known? fold = none → KeepsExtension fold left →
      KeepsExtension fold (.binary op left right)
  | right {op left right} : (binary op left right).known? fold = none →
      KeepsExtension fold right → KeepsExtension fold (.binary op left right)
  | test {test yes no} : decided? fold test = none → KeepsExtension fold test →
      KeepsExtension fold (.conditional test yes no)
  | yes {test yes no} : decided? fold test ≠ some false → KeepsExtension fold yes →
      KeepsExtension fold (.conditional test yes no)
  | no {test yes no} : decided? fold test ≠ some true → KeepsExtension fold no →
      KeepsExtension fold (.conditional test yes no)
  | lambda {params body} : KeepsExtension fold body → KeepsExtension fold (.lambda params body)
  | target {target args} : KeepsExtension fold target → KeepsExtension fold (.invoke target args)
  | arg {target args arg} : arg ∈ args → KeepsExtension fold arg →
      KeepsExtension fold (.invoke target args)

/-- Of a conditional that is decided the branch decides what is known. -/
theorem known?_eq_decided {test yes no : Expr Value} :
    (Expr.conditional test yes no).known? fold
      = match decided? fold test with
        | some true => yes.known? fold
        | some false => no.known? fold
        | none => none := by
  rw [known?]
  rfl

/-- A decided conditional is known as the branch that is taken. -/
theorem known?_of_decided {test yes no : Expr Value} {taken : Bool}
    (h : decided? fold test = some taken) :
    (Expr.conditional test yes no).known? fold = (if taken then yes else no).known? fold := by
  rw [known?_eq_decided, h]
  cases taken <;> rfl

/-- Nothing is known about a tree that keeps an extension node. -/
theorem KeepsExtension.known?_eq_none {expr : Expr Value} (h : expr.KeepsExtension fold) :
    expr.known? fold = none := by
  induction h with
  | here | new | field | lambda | target | arg => rfl
  | unary hnone | left hnone | right hnone => exact hnone
  | test hnone => rw [known?_eq_decided, hnone]
  | yes hnot _ ih =>
    -- if the conditional is decided, then for the branch that keeps the node
    rw [known?_eq_decided]
    split
    · exact ih
    · contradiction
    · rfl
  | no hnot _ ih =>
    rw [known?_eq_decided]
    split
    · contradiction
    · exact ih
    · rfl

end Expr

end ExprTree

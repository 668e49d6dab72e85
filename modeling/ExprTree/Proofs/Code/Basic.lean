import ExprTree.Code.Basic

namespace ExprTree

/-!
# Code: induction

`Code.inductionOn` is induction over compiled code, with lists of operands taken
care of, as `Expr.inductionOn` is over trees.
-/

variable {κ : Type}

/-- Induction over compiled code. -/
@[elab_as_elim, induction_eliminator]
theorem Code.inductionOn {motive : Code κ → Prop}
    (literal : ∀ value, motive (.literal value))
    (embedded : ∀ value, motive (.embedded value))
    (pooled : ∀ index, motive (.pooled index))
    (slot : ∀ slot, motive (.slot slot))
    (construct : ∀ cls args, (∀ arg ∈ args, motive arg) → motive (.construct cls args))
    (instantiate : ∀ cls args, (∀ arg ∈ args, motive arg) → motive (.instantiate cls args))
    (fieldAt : ∀ target index name, motive target → motive (.fieldAt target index name))
    (field : ∀ target name, motive target → motive (.field target name))
    (unary : ∀ op operand, motive operand → motive (.unary op operand))
    (shortCircuit : ∀ op left right, motive left → motive right →
      motive (.shortCircuit op left right))
    (arithmetic : ∀ op left right, motive left → motive right →
      motive (.arithmetic op left right))
    (binary : ∀ op left right, motive left → motive right → motive (.binary op left right))
    (conditional : ∀ test yes no, motive test → motive yes → motive no →
      motive (.conditional test yes no))
    (closure : ∀ params captures body, motive body → motive (.closure params captures body))
    (invoke : ∀ target args, motive target → (∀ arg ∈ args, motive arg) →
      motive (.invoke target args))
    (code : Code κ) : motive code := by
  induction hn : sizeOf code using Nat.strongRecOn generalizing code with
  | ind n ih =>
    subst hn
    have smaller : ∀ sub : Code κ, sizeOf sub < sizeOf code → motive sub :=
      fun sub h => ih (sizeOf sub) h sub rfl
    -- operands in a list are smaller than the list, and so smaller than the code
    have member : ∀ {subs : List (Code κ)}, sizeOf subs < sizeOf code →
        ∀ sub ∈ subs, motive sub :=
      fun h sub hsub => smaller sub (Nat.lt_trans (List.sizeOf_lt_of_mem hsub) h)
    cases code with
    | literal value => exact literal value
    | embedded value => exact embedded value
    | pooled index => exact pooled index
    | slot s => exact slot s
    | construct cls args => exact construct cls args (member (by decreasing_tactic))
    | instantiate cls args => exact instantiate cls args (member (by decreasing_tactic))
    | fieldAt target index name =>
      exact fieldAt target index name (smaller target (by decreasing_tactic))
    | field target name => exact field target name (smaller target (by decreasing_tactic))
    | unary op operand => exact unary op operand (smaller operand (by decreasing_tactic))
    | shortCircuit op left right =>
      exact shortCircuit op left right (smaller left (by decreasing_tactic))
        (smaller right (by decreasing_tactic))
    | arithmetic op left right =>
      exact arithmetic op left right (smaller left (by decreasing_tactic))
        (smaller right (by decreasing_tactic))
    | binary op left right =>
      exact binary op left right (smaller left (by decreasing_tactic))
        (smaller right (by decreasing_tactic))
    | conditional test yes no =>
      exact conditional test yes no (smaller test (by decreasing_tactic))
        (smaller yes (by decreasing_tactic)) (smaller no (by decreasing_tactic))
    | closure params captures body =>
      exact closure params captures body (smaller body (by decreasing_tactic))
    | invoke target args =>
      exact invoke target args (smaller target (by decreasing_tactic))
        (member (by decreasing_tactic))

end ExprTree

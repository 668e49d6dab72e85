import ExprTree.Proofs.Code.Translation
import ExprTree.Proofs.Value.Parts

namespace ExprTree

/-!
# Constants that a run may come to

`Expr.uses` leaves out the constants that folding discards: the operands of a
binary operator with a known value, and the branch that a decided conditional
does not take.  What is left is found again in the code of the tree, or in the
table of constants (`Translates.mem_of_uses`).
-/

namespace Expr

mutual

/-- The constants of a tree that stand outside of what folding discards.  An
    extension node is walked by its operands. -/
def uses : Expr Value → List Value
  | constant value => [value]
  | parameter _ => []
  | new _ args => usesOfAll args
  | field target _ => target.uses
  | unary _ operand => operand.uses
  | binary op left right =>
    if ((binary op left right).known? true).isSome then [] else left.uses ++ right.uses
  | conditional test yes no =>
    match foldTest? (test.known? true) with
    | some true => yes.uses
    | some false => no.uses
    | none => test.uses ++ yes.uses ++ no.uses
  | lambda _ body => body.uses
  | invoke target args => target.uses ++ usesOfAll args
  | extension _ operands _ => usesOfAll operands

/-- The constants of several trees that stand outside of what folding discards. -/
def usesOfAll : List (Expr Value) → List Value
  | [] => []
  | expr :: rest => expr.uses ++ usesOfAll rest

end

/-- What several trees use is what one of them uses. -/
theorem mem_usesOfAll {c : Value} {exprs : List (Expr Value)} :
    c ∈ usesOfAll exprs ↔ ∃ expr ∈ exprs, c ∈ expr.uses := by
  induction exprs with
  | nil => simp [usesOfAll]
  | cons expr rest ih => simp [usesOfAll, ih]

theorem uses_binary (op : BinaryOp) (left right : Expr Value) :
    (binary op left right).uses
      = if ((binary op left right).known? true).isSome then [] else left.uses ++ right.uses := rfl

theorem uses_conditional (test yes no : Expr Value) :
    (conditional test yes no).uses
      = match foldTest? (test.known? true) with
        | some true => yes.uses
        | some false => no.uses
        | none => test.uses ++ yes.uses ++ no.uses := rfl

/-- A conditional whose test is known uses what the branch it takes uses. -/
theorem uses_of_taken {test yes no : Expr Value} {taken : Bool}
    (h : test.known? true = some (.bool taken)) :
    (conditional test yes no).uses = (if taken then yes else no).uses := by
  rw [uses_conditional, foldTest?_eq_some.2 h]
  cases taken <;> rfl

/-- Operands have no more uses in a binary operator than on their own. -/
theorem uses_binary_subset {op : BinaryOp} {left right : Expr Value} :
    (binary op left right).uses ⊆ left.uses ++ right.uses := by
  rw [uses_binary]
  split
  · exact List.nil_subset _
  · exact List.Subset.refl _

/-- A conditional uses no more than its parts do. -/
theorem uses_conditional_subset {test yes no : Expr Value} :
    (conditional test yes no).uses ⊆ test.uses ++ yes.uses ++ no.uses := by
  rw [uses_conditional, List.append_assoc]
  split
  · exact List.subset_append_of_subset_right _ (List.subset_append_left ..)
  · exact List.subset_append_of_subset_right _ (List.subset_append_right ..)
  · exact List.Subset.refl _

/-- Folding only takes constants away. -/
theorem uses_subset_literals (expr : Expr Value) : expr.uses ⊆ expr.literals := by
  have all : ∀ exprs : List (Expr Value), (∀ expr ∈ exprs, expr.uses ⊆ expr.literals) →
      usesOfAll exprs ⊆ literalsOfAll exprs := by
    intro exprs ih c hc
    obtain ⟨expr, hexpr, hc⟩ := mem_usesOfAll.1 hc
    exact mem_literalsOfAll.2 ⟨expr, hexpr, ih expr hexpr hc⟩
  induction expr with
  | constant value => exact List.Subset.refl _
  | parameter param => exact List.Subset.refl _
  | new cls args ih => exact all args ih
  | field target name ih => exact ih
  | unary op operand ih => exact ih
  | binary op left right ihl ihr =>
    exact List.Subset.trans uses_binary_subset (append_subset_append ihl ihr)
  | conditional test yes no iht ihy ihn =>
    exact List.Subset.trans uses_conditional_subset
      (append_subset_append (append_subset_append iht ihy) ihn)
  | lambda params body ih => exact ih
  | invoke target args iht _ ih => exact append_subset_append iht (all args ih)
  | extension node operands reduction ih _ =>
    cases reduction with
    | none => exact all operands ih
    | some reduced => exact List.Subset.trans (all operands ih) (List.subset_append_left _ _)

/-- Where a value is known only primitives are used. -/
theorem isPrimitive_of_uses {expr : Expr Value} {value : Value}
    (h : expr.known? true = some value) : ∀ c ∈ expr.uses, c.isPrimitive = true := by
  induction expr generalizing value with
  | constant c =>
    simp only [known?, Option.ite_none_right_eq_some] at h
    exact List.forall_mem_singleton.2 h.1
  | unary op operand ih =>
    rw [known?_unary] at h
    obtain ⟨a, ha, _⟩ := UnaryOp.fold?_eq_some.1 h
    exact ih ha
  | binary op left right ihl ihr =>
    -- an operator that is folded uses none of its operands
    rw [uses_binary, h]
    exact List.forall_mem_nil _
  | conditional test yes no iht ihy ihn =>
    obtain ⟨taken, htest, hbranch⟩ := known?_conditional.1 h
    rw [uses_of_taken htest]
    cases taken with
    | true => exact ihy hbranch
    | false => exact ihn hbranch
  | parameter | new | field | lambda | invoke | extension => simp [known?] at h

end Expr

/-! ### Code -/

variable {constants : List Value}

/-- What two trees use is in the two pieces of code taken together if it is in each. -/
theorem found_append {used used' literals literals' : List Value}
    (h : ∀ c ∈ used, c.isPrimitive = true ∨ c ∈ literals ∨ c ∈ constants)
    (h' : ∀ c ∈ used', c.isPrimitive = true ∨ c ∈ literals' ∨ c ∈ constants) :
    ∀ c ∈ used ++ used', c.isPrimitive = true ∨ c ∈ literals ++ literals' ∨ c ∈ constants := by
  intro c hc
  rcases List.mem_append.1 hc with hc | hc
  · exact (h c hc).imp_right (Or.imp_left (List.mem_append_left _))
  · exact (h' c hc).imp_right (Or.imp_left (List.mem_append_right _))

/-- What several trees use is in the code or in the table. -/
theorem mem_of_usesOfAll {args : List (Expr Value)}
    {emitted : List Emitted}
    (ih : List.Forall₂ (fun arg (e : Emitted) => ∀ c ∈ arg.uses,
      c.isPrimitive = true ∨ c ∈ e.code.literals ∨ c ∈ constants) args emitted) :
    ∀ c ∈ Expr.usesOfAll args, c.isPrimitive = true
      ∨ c ∈ Code.literalsOfAll (emitted.map (·.code)) ∨ c ∈ constants := by
  induction ih with
  | nil => simp [Expr.usesOfAll]
  | cons hhead _ ihrest =>
    rw [List.map_cons, Code.literalsOfAll, Expr.usesOfAll]
    exact found_append hhead ihrest

/-- What a tree uses is in its code or in the table of constants. -/
theorem Translates.mem_of_uses {scope : Scope} {expr : Expr Value}
    {code : Code Value} {ty : Ty} (h : Translates constants scope expr code ty) :
    ∀ c ∈ expr.uses, c.isPrimitive = true ∨ c ∈ code.literals ∨ c ∈ constants := by
  refine Translates.inductionOn ?literal ?embedded ?pooled ?slot ?instantiate ?construct ?field
    ?fieldAt ?unary ?shortCircuit ?binary ?arithmetic ?conditional ?taken ?closure ?direct ?invoke h
  case literal =>
    intro scope expr value hknown c hc
    exact .inl (Expr.isPrimitive_of_uses hknown c hc)
  case embedded =>
    intro scope value c hc
    exact .inr (.inl hc)
  case pooled =>
    intro scope value index hindex c hc
    cases List.mem_singleton.1 hc
    exact .inr (.inr (List.mem_of_getElem? hindex))
  case slot =>
    intro scope param slot _ c hc
    cases hc
  case instantiate =>
    intro scope cls args emitted ih
    exact mem_of_usesOfAll ih
  case construct =>
    intro scope cls args emitted ih _
    exact mem_of_usesOfAll ih
  case field =>
    intro scope target code ty name ih
    exact ih
  case fieldAt =>
    intro scope target code cls name index field ih _
    exact ih
  case unary =>
    intro scope op operand code ty ih
    exact ih
  case shortCircuit | binary =>
    intro scope op left right leftCode rightCode leftTy rightTy _ ihl ihr c hc
    exact found_append ihl ihr c (Expr.uses_binary_subset hc)
  case arithmetic =>
    intro scope op left right leftCode rightCode _ ihl ihr c hc
    exact found_append ihl ihr c (Expr.uses_binary_subset hc)
  case conditional =>
    intro scope test yes no testCode yesCode noCode testTy yesTy noTy iht ihy ihn c hc
    exact found_append (found_append iht ihy) ihn c (Expr.uses_conditional_subset hc)
  case taken =>
    intro scope test yes no taken code ty htest ih
    -- nothing is left of the condition and of the other branch, and nothing is used of them
    rw [Expr.uses_of_taken htest]
    exact ih
  case closure =>
    intro scope params body inner code ty _ _ ih
    exact ih
  case direct =>
    intro scope params body args inner code ty emitted _ _ ih ihargs
    exact found_append ih (mem_of_usesOfAll ihargs)
  case invoke =>
    intro scope target args code ty emitted ih ihargs
    exact found_append ih (mem_of_usesOfAll ihargs)

end ExprTree

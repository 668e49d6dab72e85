import ExprTree.Expr.Constants
import ExprTree.Proofs.Arena
import ExprTree.Proofs.Tree.Reduction
import ExprTree.Value.Basic

namespace ExprTree

/-!
# Interning constants

Two walks collect the constants of a tree, each value once: `Expr.constants` into a list,
emission into an arena.  Both are `addNew`, value by value (`Expr.constants_eq_foldl`,
`Arena.toList_internAll`):

* `Value.lawfulAt` — equality is lawful at the values that go to the arena, which are no
  primitives: of all values only a number may differ from itself;
* `filter_foldl_addNew` — leaving out primitives before or after is the same;
* `pairwise_foldl_addNew` — no two of the values are equal.
-/

/-! ### Equality of values -/

namespace Value

variable {a b : Value}

/-- Whatever is equal to a primitive is a primitive. -/
theorem isPrimitive_of_beq (h : (a == b) = true) : a.isPrimitive = b.isPrimitive := by
  have h : Value.beq a b = true := h
  unfold Value.beq at h
  split at h
  · rfl
  · rfl
  · rfl
  · rfl
  · rfl
  · rfl
  · cases h

/-- Equality is reflexive where no numbers are involved. -/
theorem beq_refl (h : a.isPrimitive = false) : (a == a) = true := by
  show Value.beq a a = true
  cases a with
  | none | bool | number => cases h
  | string | object | function => simp [Value.beq]

/-- Equality is symmetric where no numbers are involved. -/
theorem beq_symm (hb : b.isPrimitive = false) (h : (a == b) = true) : (b == a) = true := by
  have ha := isPrimitive_of_beq h
  rw [hb] at ha
  have h : Value.beq a b = true := h
  show Value.beq b a = true
  cases a with
  | none | bool | number => cases ha
  | string | object | function =>
    cases b with
    | none | bool | number => cases hb
    | string | object | function => simp_all [Value.beq]

/-- Equality may be asked either way round, if one side is no primitive. -/
theorem beq_comm (hb : b.isPrimitive = false) : (a == b) = (b == a) := by
  refine Bool.eq_iff_iff.2 ⟨beq_symm hb, fun h => ?_⟩
  exact beq_symm ((isPrimitive_of_beq h).symm.trans hb) h

theorem lawfulAt (h : a.isPrimitive = false) : LawfulAt a := ⟨beq_refl h, fun _ => beq_comm h⟩

end Value

/-! ### Lists -/

section

variable {found values : List Value} {value : Value}

/-- Everything that is added is found. -/
theorem contains_foldl_addNew (hvalue : value.isPrimitive = false)
    (h : found.contains value = true ∨ value ∈ values) :
    (values.foldl addNew found).contains value = true := by
  induction values generalizing found with
  | nil => exact h.resolve_right (List.not_mem_nil)
  | cons first rest ih =>
    refine ih ?_
    -- what was found before stays found, and a value is found from its own turn on
    rcases h with h | h
    · rw [List.contains_iff_exists_mem_beq] at h ⊢
      obtain ⟨item, hitem, hbeq⟩ := h
      exact .inl ⟨item, (prefix_addNew found first).subset hitem, hbeq⟩
    · rcases List.mem_cons.1 h with rfl | h
      · refine .inl ?_
        unfold addNew
        split
        · assumption
        · simp [Value.beq_refl hvalue]
      · exact .inr h

/-- A value that is no primitive is found among those that are none. -/
theorem contains_filter (hvalue : value.isPrimitive = false) :
    (found.filter fun c => !c.isPrimitive).contains value = found.contains value := by
  refine Bool.eq_iff_iff.2 ?_
  simp only [List.contains_iff_exists_mem_beq, List.mem_filter, Bool.not_eq_true']
  constructor
  · rintro ⟨item, ⟨hmem, _⟩, hbeq⟩
    exact ⟨item, hmem, hbeq⟩
  · rintro ⟨item, hmem, hbeq⟩
    exact ⟨item, ⟨hmem, (Value.isPrimitive_of_beq hbeq).symm.trans hvalue⟩, hbeq⟩

/-- **Primitives may be left out before or after.** -/
theorem filter_foldl_addNew (found values : List Value) :
    (values.foldl addNew found).filter (fun c => !c.isPrimitive)
      = (values.filter fun c => !c.isPrimitive).foldl addNew
        (found.filter fun c => !c.isPrimitive) := by
  induction values generalizing found with
  | nil => rfl
  | cons value rest ih =>
    rw [List.foldl_cons, ih]
    cases hvalue : value.isPrimitive with
    | true =>
      -- a primitive may be added to the list or not; the filter leaves it out either way
      have hsame : (addNew found value).filter (fun c => !c.isPrimitive)
          = found.filter fun c => !c.isPrimitive := by
        unfold addNew
        split
        · rfl
        · simp [hvalue]
      rw [hsame, List.filter_cons_of_neg (by simp [hvalue])]
    | false =>
      have hsame : (addNew found value).filter (fun c => !c.isPrimitive)
          = addNew (found.filter fun c => !c.isPrimitive) value := by
        unfold addNew
        rw [contains_filter hvalue]
        split
        · rfl
        · simp [hvalue]
      rw [hsame, List.filter_cons_of_pos (by simp [hvalue]), List.foldl_cons]

/-- **No two of the values are equal.** -/
theorem pairwise_foldl_addNew (hvalues : ∀ value ∈ values, value.isPrimitive = false)
    (h : found.Pairwise fun a b => (a == b) = false) :
    (values.foldl addNew found).Pairwise fun a b => (a == b) = false :=
  foldl_addNew_pairwise (fun value hvalue => Value.lawfulAt (hvalues value hvalue)) h

/-- Nothing is added but the values, and each of them has an equal one. -/
theorem mem_of_mem_foldl_addNew (h : value ∈ values.foldl addNew found) :
    value ∈ found ∨ value ∈ values := by
  induction values generalizing found with
  | nil => exact .inl h
  | cons first rest ih =>
    rcases ih h with h | h
    · unfold addNew at h
      split at h
      · exact .inl h
      · rcases List.mem_append.1 h with h | h
        · exact .inl h
        · exact .inr (List.mem_cons.2 (.inl (List.mem_singleton.1 h)))
    · exact .inr (List.mem_cons_of_mem _ h)

end

/-! ### Constants of trees -/

namespace Expr

variable {κ : Type} [BEq κ]

/-- The constants of operands are collected one after the other, if those of each operand are. -/
theorem constantsOfAll_eq_foldl {exprs : List (Expr κ)} (found : List κ)
    (h : ∀ expr ∈ exprs, ∀ found : List κ,
      expr.constants found = expr.reduce.literals.foldl addNew found) :
    constantsOfAll found exprs = (literalsOfAll (reduceAll exprs)).foldl addNew found := by
  induction exprs generalizing found with
  | nil => rfl
  | cons expr rest ih =>
    rw [List.forall_mem_cons] at h
    rw [constantsOfAll, reduceAll, literalsOfAll, List.foldl_append, ih _ h.2, h.1]

/-- **The distinct constants of a tree** are those of the reduced tree, each once. -/
theorem constants_eq_foldl (expr : Expr κ) (found : List κ) :
    expr.constants found = expr.reduce.literals.foldl addNew found := by
  induction expr generalizing found with
  | constant value => rfl
  | parameter param => rfl
  | new cls args ih => exact constantsOfAll_eq_foldl found ih
  | field target name ih => exact ih found
  | unary op operand ih => exact ih found
  -- the operands are walked from the left, as the literals stand
  | binary op left right ihl ihr =>
    rw [constants, reduce, literals, List.foldl_append, ihr, ihl]
  | conditional test yes no iht ihy ihn =>
    rw [constants, reduce, literals, List.foldl_append, List.foldl_append, ihn, ihy, iht]
  | lambda params body ih => exact ih found
  | invoke target args iht _ ih =>
    rw [constants, reduce, literals, List.foldl_append, constantsOfAll_eq_foldl _ ih, iht]
  | extension node operands reduction ih ihr =>
    cases reduction with
    | none => exact constantsOfAll_eq_foldl found ih
    | some reduced => exact ihr reduced rfl found

end Expr

end ExprTree

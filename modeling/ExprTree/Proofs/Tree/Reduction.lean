import ExprTree.Expr.FreeParameters
import ExprTree.Proofs.Tree.Basic

namespace ExprTree

/-!
# Carrying out reductions

`Expr.reduce` replaces every extension node that has a reduction by that
reduction, at every depth.  What looks through reductions on its own sees the
same in a tree before and after:

* `Expr.mem_freeParameters` — the free parameters of a tree are what its reduced
  form reads;
* `Expr.literals_reduce`, `Expr.parts_reduce` — reducing adds no constants, and no
  other values.

What does not look through them sees less, and `Expr.ReductionsBound` is needed to
say what the reduced tree reads (`Expr.reads_reduce_subset`).

A tree without extension nodes (`Expr.ExtensionFree`) is its own reduced form.
-/

variable {κ : Type}

namespace Expr

mutual

/-- A tree with every reduction carried out. -/
def reduce : Expr κ → Expr κ
  | constant value => .constant value
  | parameter param => .parameter param
  | new cls args => .new cls (reduceAll args)
  | field target name => .field target.reduce name
  | unary op operand => .unary op operand.reduce
  | binary op left right => .binary op left.reduce right.reduce
  | conditional test yes no => .conditional test.reduce yes.reduce no.reduce
  | lambda params body => .lambda params body.reduce
  | invoke target args => .invoke target.reduce (reduceAll args)
  | extension node operands none => .extension node (reduceAll operands) none
  | extension _ _ (some reduced) => reduced.reduce

/-- Several trees with every reduction carried out. -/
def reduceAll : List (Expr κ) → List (Expr κ)
  | [] => []
  | expr :: rest => expr.reduce :: reduceAll rest

end

theorem reduceAll_eq_map (exprs : List (Expr κ)) : reduceAll exprs = exprs.map reduce := by
  induction exprs with
  | nil => rfl
  | cons expr rest ih => rw [reduceAll, ih, List.map_cons]

/-! ### Constants -/

/-- Reducing only leaves out constants: those of the operands of a node that has a reduction. -/
theorem literals_reduce (expr : Expr κ) : expr.reduce.literals ⊆ expr.literals := by
  have all : ∀ exprs : List (Expr κ), (∀ expr ∈ exprs, expr.reduce.literals ⊆ expr.literals) →
      literalsOfAll (reduceAll exprs) ⊆ literalsOfAll exprs := by
    intro exprs ih c hc
    simp only [reduceAll_eq_map, mem_literalsOfAll, List.mem_map] at hc ⊢
    obtain ⟨_, ⟨expr, hexpr, rfl⟩, hc⟩ := hc
    exact ⟨expr, hexpr, ih expr hexpr hc⟩
  induction expr with
  | constant | parameter => exact List.Subset.refl _
  | new cls args ih => exact all args ih
  | field target name ih | unary op operand ih | lambda params body ih => exact ih
  | binary op left right ihl ihr => exact append_subset_append ihl ihr
  | conditional test yes no iht ihy ihn =>
    exact append_subset_append (append_subset_append iht ihy) ihn
  | invoke target args iht _ ih => exact append_subset_append iht (all args ih)
  | extension node operands reduction ih ihr =>
    -- of a node with a reduction the operands are dropped
    cases reduction with
    | none => exact all operands ih
    | some reduced => exact List.subset_append_of_subset_right _ (ihr reduced rfl)

/-- Reducing only leaves out values: what the functions of the host captured that are no
    longer called, and what their operands hold. -/
theorem parts_reduce (expr : Expr κ) : expr.reduce.parts ⊆ expr.parts := by
  have all : ∀ exprs : List (Expr κ), (∀ expr ∈ exprs, expr.reduce.parts ⊆ expr.parts) →
      partsOfAll (reduceAll exprs) ⊆ partsOfAll exprs := by
    intro exprs ih c hc
    simp only [reduceAll_eq_map, mem_partsOfAll, List.mem_map] at hc ⊢
    obtain ⟨_, ⟨expr, hexpr, rfl⟩, hc⟩ := hc
    exact ⟨expr, hexpr, ih expr hexpr hc⟩
  induction expr with
  | constant | parameter => exact List.Subset.refl _
  | new cls args ih => exact all args ih
  | field target name ih | unary op operand ih | lambda params body ih => exact ih
  | binary op left right ihl ihr => exact append_subset_append ihl ihr
  | conditional test yes no iht ihy ihn =>
    exact append_subset_append (append_subset_append iht ihy) ihn
  | invoke target args iht _ ih => exact append_subset_append iht (all args ih)
  | extension node operands reduction ih ihr =>
    -- of a node with a reduction the function of the host is dropped, and the operands
    cases reduction with
    | none => exact append_subset_append (List.Subset.refl _) (all operands ih)
    | some reduced => exact List.subset_append_of_subset_right _ (ihr reduced rfl)

/-! ### Free parameters -/

/-- **Capture analysis sees the reduced tree.**  What it adds to `found` is what
    the reduced tree reads and `bound` does not declare. -/
theorem mem_freeParameters (expr : Expr κ) (bound found : List Parameter) (param : Parameter) :
    param ∈ expr.freeParameters bound found
      ↔ param ∈ found ∨ (param ∈ expr.reduce.reads ∧ param ∉ bound) := by
  have all : ∀ exprs : List (Expr κ),
      (∀ expr ∈ exprs, ∀ bound found, param ∈ expr.freeParameters bound found
        ↔ param ∈ found ∨ (param ∈ expr.reduce.reads ∧ param ∉ bound)) →
      ∀ bound found, param ∈ freeParametersOfAll bound found exprs
        ↔ param ∈ found ∨ (param ∈ readsOfAll (reduceAll exprs) ∧ param ∉ bound) := by
    -- what was found before goes along from one tree to the next
    intro exprs ih bound
    induction exprs with
    | nil => simp [freeParametersOfAll, reduceAll, readsOfAll]
    | cons expr rest ihr =>
      intro found
      rw [freeParametersOfAll, ihr (fun e he => ih e (List.mem_cons_of_mem _ he)),
        ih expr (List.mem_cons_self ..), reduceAll, readsOfAll, List.mem_append,
        or_and_right, or_assoc]
  induction expr generalizing bound found with
  | constant value => simp [freeParameters, reduce, reads]
  | parameter p =>
    simp only [freeParameters, reduce, reads, List.mem_singleton]
    split
    · rename_i h
      constructor
      · exact Or.inl
      · rintro (hp | ⟨rfl, hp⟩)
        · exact hp
        · exact h.resolve_left hp
    · rename_i h
      rw [List.mem_append, List.mem_singleton]
      constructor
      · rintro (hp | rfl)
        · exact Or.inl hp
        · exact Or.inr ⟨rfl, fun hp => h (Or.inl hp)⟩
      · exact Or.imp id And.left
  | new cls args ih => exact all args ih bound found
  | field target name ih => exact ih bound found
  | unary op operand ih => exact ih bound found
  | binary op left right ihl ihr =>
    simp only [freeParameters, reduce, reads, ihl, ihr, List.mem_append, or_and_right, or_assoc]
  | conditional test yes no iht ihy ihn =>
    simp only [freeParameters, reduce, reads, iht, ihy, ihn, List.mem_append, or_and_right,
      or_assoc]
  | lambda params body ih =>
    simp only [freeParameters, reduce, ih, mem_reads_lambda, List.mem_append, not_or, and_assoc]
  | invoke target args iht _ ih =>
    simp only [freeParameters, reduce, reads, all args ih, iht, List.mem_append, or_and_right,
      or_assoc]
  | extension node operands reduction ih ihr =>
    cases reduction with
    | none => exact all operands ih bound found
    | some reduced => exact ihr reduced rfl bound found

/-! ### Bound reductions -/

mutual

/-- Reductions bring in no parameters: those of a reduction, its own reductions
    carried out, are among `bound`, which is what the lambdas around declare. -/
def ReductionsBound (bound : List Parameter) : Expr κ → Prop
  | constant _ | parameter _ => True
  | new _ args => ReductionsAllBound bound args
  | field target _ => target.ReductionsBound bound
  | unary _ operand => operand.ReductionsBound bound
  | binary _ left right => left.ReductionsBound bound ∧ right.ReductionsBound bound
  | conditional test yes no =>
    test.ReductionsBound bound ∧ yes.ReductionsBound bound ∧ no.ReductionsBound bound
  | lambda params body => body.ReductionsBound (params ++ bound)
  | invoke target args => target.ReductionsBound bound ∧ ReductionsAllBound bound args
  | extension _ operands none => ReductionsAllBound bound operands
  | extension _ _ (some reduced) => ∀ param ∈ reduced.reduce.reads, param ∈ bound

/-- Reductions in several trees bring in no parameters. -/
def ReductionsAllBound (bound : List Parameter) : List (Expr κ) → Prop
  | [] => True
  | expr :: rest => expr.ReductionsBound bound ∧ ReductionsAllBound bound rest

end

/-- Where a tree reads only what is bound, and so do the reductions in it, the
    reduced tree reads only what is bound. -/
theorem reads_reduce_subset {expr : Expr κ} {bound : List Parameter}
    (hreductions : expr.ReductionsBound bound) (hreads : expr.reads ⊆ bound) :
    expr.reduce.reads ⊆ bound := by
  have all : ∀ (exprs : List (Expr κ)) (bound : List Parameter),
      (∀ expr ∈ exprs, ∀ {bound}, expr.ReductionsBound bound → expr.reads ⊆ bound →
        expr.reduce.reads ⊆ bound) →
      ReductionsAllBound bound exprs → readsOfAll exprs ⊆ bound →
      readsOfAll (reduceAll exprs) ⊆ bound := by
    intro exprs bound ih hreductions hreads
    induction exprs with
    | nil => exact hreads
    | cons expr rest ihrest =>
      rw [readsOfAll, List.append_subset] at hreads
      rw [reduceAll, readsOfAll, List.append_subset]
      exact ⟨ih expr (List.mem_cons_self ..) hreductions.1 hreads.1,
        ihrest (fun e he => ih e (List.mem_cons_of_mem _ he)) hreductions.2 hreads.2⟩
  induction expr generalizing bound with
  | constant value => exact hreads
  | parameter param => exact hreads
  | new cls args ih => exact all args bound ih hreductions hreads
  | field target name ih => exact ih hreductions hreads
  | unary op operand ih => exact ih hreductions hreads
  | binary op left right ihl ihr =>
    rw [reads, List.append_subset] at hreads
    rw [reduce, reads, List.append_subset]
    exact ⟨ihl hreductions.1 hreads.1, ihr hreductions.2 hreads.2⟩
  | conditional test yes no iht ihy ihn =>
    rw [reads, List.append_subset, List.append_subset] at hreads
    rw [reduce, reads, List.append_subset, List.append_subset]
    exact ⟨⟨iht hreductions.1 hreads.1.1, ihy hreductions.2.1 hreads.1.2⟩,
      ihn hreductions.2.2 hreads.2⟩
  | lambda params body ih =>
    intro param hparam
    obtain ⟨hparam, hfree⟩ := mem_reads_lambda.1 hparam
    have hbody : body.reads ⊆ params ++ bound := fun p hp =>
      if h : p ∈ params then List.mem_append_left _ h
      else List.mem_append_right _ (hreads (mem_reads_lambda.2 ⟨hp, h⟩))
    exact (List.mem_append.1 (ih hreductions hbody hparam)).resolve_left hfree
  | invoke target args iht _ ih =>
    rw [reads, List.append_subset] at hreads
    rw [reduce, reads, List.append_subset]
    exact ⟨iht hreductions.1 hreads.1, all args bound ih hreductions.2 hreads.2⟩
  | extension node operands reduction ih _ =>
    cases reduction with
    | none => exact all operands bound ih hreductions hreads
    | some reduced => exact hreductions

/-! ### Trees without extension nodes -/

mutual

/-- Whether a tree has no extension nodes. -/
def isExtensionFree : Expr κ → Bool
  | constant _ | parameter _ => true
  | new _ args => areExtensionFree args
  | field target _ => target.isExtensionFree
  | unary _ operand => operand.isExtensionFree
  | binary _ left right => left.isExtensionFree && right.isExtensionFree
  | conditional test yes no =>
    test.isExtensionFree && yes.isExtensionFree && no.isExtensionFree
  | lambda _ body => body.isExtensionFree
  | invoke target args => target.isExtensionFree && areExtensionFree args
  | extension .. => false

/-- Whether several trees have no extension nodes. -/
def areExtensionFree : List (Expr κ) → Bool
  | [] => true
  | expr :: rest => expr.isExtensionFree && areExtensionFree rest

end

theorem areExtensionFree_iff {exprs : List (Expr κ)} :
    areExtensionFree exprs = true ↔ ∀ expr ∈ exprs, expr.isExtensionFree = true := by
  induction exprs with
  | nil => simp [areExtensionFree]
  | cons expr rest ih => simp [areExtensionFree, ih]

/-- Where there is no extension node there is none in an operand. -/
theorem isExtensionFree_of_child {expr sub : Expr κ} (h : expr.isExtensionFree = true)
    (hsub : sub ∈ expr.children) : sub.isExtensionFree = true := by
  -- one case for each kind of node, as its operands are listed
  cases expr with
  | constant | parameter | lambda => cases hsub
  | new => exact areExtensionFree_iff.1 h sub hsub
  | field | unary => exact List.mem_singleton.1 hsub ▸ h
  | binary =>
    simp only [isExtensionFree, Bool.and_eq_true] at h
    simp only [children, List.mem_cons, List.not_mem_nil, or_false] at hsub
    rcases hsub with rfl | rfl
    · exact h.1
    · exact h.2
  | conditional =>
    simp only [isExtensionFree, Bool.and_eq_true] at h
    simp only [children, List.mem_cons, List.not_mem_nil, or_false] at hsub
    rcases hsub with rfl | rfl | rfl
    · exact h.1.1
    · exact h.1.2
    · exact h.2
  | invoke =>
    simp only [isExtensionFree, Bool.and_eq_true] at h
    rcases List.mem_cons.1 hsub with rfl | hsub
    · exact h.1
    · exact areExtensionFree_iff.1 h.2 sub hsub
  | extension => cases h

/-- Where there is no extension node a tree holds nothing but its constants. -/
theorem parts_eq_literals {expr : Expr κ} (h : expr.isExtensionFree = true) :
    expr.parts = expr.literals := by
  have all : ∀ exprs : List (Expr κ),
      (∀ expr ∈ exprs, expr.isExtensionFree = true → expr.parts = expr.literals) →
      areExtensionFree exprs = true → partsOfAll exprs = literalsOfAll exprs := by
    intro exprs ih h
    induction exprs with
    | nil => rfl
    | cons expr rest ihrest =>
      rw [areExtensionFree, Bool.and_eq_true] at h
      rw [List.forall_mem_cons] at ih
      rw [partsOfAll, literalsOfAll, ih.1 h.1, ihrest ih.2 h.2]
  -- functions of the host stand in extension nodes only
  induction expr with
  | constant | parameter => rfl
  | new cls args ih => exact all args ih h
  | field target name ih | unary op operand ih | lambda params body ih => exact ih h
  | binary op left right ihl ihr =>
    rw [isExtensionFree, Bool.and_eq_true] at h
    rw [parts, literals, ihl h.1, ihr h.2]
  | conditional test yes no iht ihy ihn =>
    rw [isExtensionFree, Bool.and_eq_true, Bool.and_eq_true] at h
    rw [parts, literals, iht h.1.1, ihy h.1.2, ihn h.2]
  | invoke target args iht _ ih =>
    rw [isExtensionFree, Bool.and_eq_true] at h
    rw [parts, literals, iht h.1, all args ih h.2]
  | extension => cases h

/-- Where there is no extension node there is nothing to reduce. -/
theorem reduce_eq_self {expr : Expr κ} (h : expr.isExtensionFree = true) :
    expr.reduce = expr := by
  have all : ∀ exprs : List (Expr κ),
      (∀ expr ∈ exprs, expr.isExtensionFree = true → expr.reduce = expr) →
      areExtensionFree exprs = true → reduceAll exprs = exprs := by
    intro exprs ih h
    rw [reduceAll_eq_map, List.map_congr_left (g := id)
      (fun expr hexpr => ih expr hexpr (areExtensionFree_iff.1 h expr hexpr)), List.map_id]
  -- nothing is replaced below, so every node is put together again as it was
  induction expr with
  | constant value => rfl
  | parameter param => rfl
  | new cls args ih => rw [reduce, all args ih h]
  | field target name ih => rw [reduce, ih h]
  | unary op operand ih => rw [reduce, ih h]
  | binary op left right ihl ihr =>
    simp only [isExtensionFree, Bool.and_eq_true] at h
    rw [reduce, ihl h.1, ihr h.2]
  | conditional test yes no iht ihy ihn =>
    simp only [isExtensionFree, Bool.and_eq_true] at h
    rw [reduce, iht h.1.1, ihy h.1.2, ihn h.2]
  | lambda params body ih => rw [reduce, ih h]
  | invoke target args iht _ ih =>
    simp only [isExtensionFree, Bool.and_eq_true] at h
    rw [reduce, iht h.1, all args ih h.2]
  | extension node operands reduction _ _ => simp [isExtensionFree] at h

/-- Where there is no extension node there is no reduction. -/
theorem reductionsBound_of_isExtensionFree {expr : Expr κ} {bound : List Parameter}
    (h : expr.isExtensionFree = true) : expr.ReductionsBound bound := by
  have all : ∀ (exprs : List (Expr κ)) (bound : List Parameter),
      (∀ expr ∈ exprs, ∀ {bound}, expr.isExtensionFree = true → expr.ReductionsBound bound) →
      areExtensionFree exprs = true → ReductionsAllBound bound exprs := by
    intro exprs bound ih h
    induction exprs with
    | nil => trivial
    | cons expr rest ihrest =>
      rw [areExtensionFree, Bool.and_eq_true] at h
      exact ⟨ih expr (List.mem_cons_self ..) h.1,
        ihrest (fun e he => ih e (List.mem_cons_of_mem _ he)) h.2⟩
  -- a lambda adds to what is bound, and without reductions nothing is asked of that
  induction expr generalizing bound with
  | constant value => trivial
  | parameter param => trivial
  | new cls args ih => exact all args bound ih h
  | field target name ih => exact ih h
  | unary op operand ih => exact ih h
  | binary op left right ihl ihr =>
    simp only [isExtensionFree, Bool.and_eq_true] at h
    exact ⟨ihl h.1, ihr h.2⟩
  | conditional test yes no iht ihy ihn =>
    simp only [isExtensionFree, Bool.and_eq_true] at h
    exact ⟨iht h.1.1, ihy h.1.2, ihn h.2⟩
  | lambda params body ih => exact ih h
  | invoke target args iht _ ih =>
    simp only [isExtensionFree, Bool.and_eq_true] at h
    exact ⟨iht h.1, all args bound ih h.2⟩
  | extension node operands reduction _ _ => simp [isExtensionFree] at h

end Expr

/-! ### Lambdas -/

namespace Lambda

/-- A lambda with every reduction in its body carried out. -/
def reduce (lambda : Lambda κ) : Lambda κ := ⟨lambda.params, lambda.body.reduce⟩

/-- Whether a lambda has no extension nodes. -/
def isExtensionFree (lambda : Lambda κ) : Bool := lambda.body.isExtensionFree

/-- The reductions in a lambda bring in no parameters. -/
def ReductionsBound (lambda : Lambda κ) : Prop :=
  lambda.body.ReductionsBound lambda.params

theorem reduce_eq_self {lambda : Lambda κ} (h : lambda.isExtensionFree = true) :
    lambda.reduce = lambda := by
  rw [reduce, Expr.reduce_eq_self h]

theorem parts_eq_literals {lambda : Lambda κ} (h : lambda.isExtensionFree = true) :
    lambda.parts = lambda.literals :=
  Expr.parts_eq_literals h

/-- The free parameters of a lambda are what a closure of its reduced form has to
    know from outside. -/
theorem mem_freeParameters {lambda : Lambda κ} {param : Parameter} :
    param ∈ lambda.freeParameters ↔ param ∈ lambda.reduce.reads := by
  rw [freeParameters, Expr.mem_freeParameters, mem_reads]
  simp [reduce]

/-- Nothing is free in a lambda whose body, reduced, reads only what the lambda declares. -/
theorem freeParameters_eq_nil_iff {lambda : Lambda κ} :
    lambda.freeParameters = [] ↔ lambda.body.reduce.reads ⊆ lambda.params := by
  refine List.eq_nil_iff_forall_not_mem.trans (forall_congr' fun param => ?_)
  rw [mem_freeParameters, mem_reads, not_and, Decidable.not_not]
  rfl

end Lambda

end ExprTree

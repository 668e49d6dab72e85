import ExprTree.Expr.Basic

namespace ExprTree

/-!
# Trees: induction, constants and parameters

What proofs about trees start from:

* `Expr.inductionOn` — induction over a tree, with lists of operands and the
  body of a directly invoked lambda taken care of;
* `Expr.literals` — all constants of a tree, wherever they stand;
* `Expr.parts` — these, and what the functions of the host in the tree captured;
* `Expr.reads` — the parameters that walking a tree may look up in the
  environment it starts from.
-/

variable {κ : Type}

theorem append_subset_append {α : Type} {xs xs' ys ys' : List α} (hxs : xs ⊆ xs')
    (hys : ys ⊆ ys') : xs ++ ys ⊆ xs' ++ ys' :=
  List.append_subset.2
    ⟨List.subset_append_of_subset_left _ hxs, List.subset_append_of_subset_right _ hys⟩

namespace Expr

/-! ### Induction -/

/-- Induction over a tree.  A lambda that is invoked directly is never a node of
    its own when code is emitted or types are inferred, so an invocation also
    knows about the body of such a target. -/
@[elab_as_elim, induction_eliminator]
theorem inductionOn {motive : Expr κ → Prop}
    (constant : ∀ value, motive (.constant value))
    (parameter : ∀ param, motive (.parameter param))
    (new : ∀ cls args, (∀ arg ∈ args, motive arg) → motive (.new cls args))
    (field : ∀ target name, motive target → motive (.field target name))
    (unary : ∀ op operand, motive operand → motive (.unary op operand))
    (binary : ∀ op left right, motive left → motive right → motive (.binary op left right))
    (conditional : ∀ test yes no, motive test → motive yes → motive no →
      motive (.conditional test yes no))
    (lambda : ∀ params body, motive body → motive (.lambda params body))
    (invoke : ∀ target args, motive target →
      (∀ params body, target = .lambda params body → motive body) →
      (∀ arg ∈ args, motive arg) → motive (.invoke target args))
    (extension : ∀ node operands reduction, (∀ operand ∈ operands, motive operand) →
      (∀ reduced, reduction = some reduced → motive reduced) →
      motive (.extension node operands reduction))
    (expr : Expr κ) : motive expr := by
  induction hn : sizeOf expr using Nat.strongRecOn generalizing expr with
  | ind n ih =>
    subst hn
    have smaller : ∀ sub : Expr κ, sizeOf sub < sizeOf expr → motive sub :=
      fun sub h => ih (sizeOf sub) h sub rfl
    have member : ∀ {subs : List (Expr κ)}, sizeOf subs < sizeOf expr →
        ∀ sub ∈ subs, motive sub :=
      fun h sub hsub => smaller sub (Nat.lt_trans (List.sizeOf_lt_of_mem hsub) h)
    cases expr with
    | constant value => exact constant value
    | parameter param => exact parameter param
    | new cls args => exact new cls args (member (by decreasing_tactic))
    | field target name => exact field target name (smaller target (by decreasing_tactic))
    | unary op operand => exact unary op operand (smaller operand (by decreasing_tactic))
    | binary op left right =>
      exact binary op left right (smaller left (by decreasing_tactic))
        (smaller right (by decreasing_tactic))
    | conditional test yes no =>
      exact conditional test yes no (smaller test (by decreasing_tactic))
        (smaller yes (by decreasing_tactic)) (smaller no (by decreasing_tactic))
    | lambda params body => exact lambda params body (smaller body (by decreasing_tactic))
    | invoke target args =>
      refine invoke target args (smaller target (by decreasing_tactic)) ?_
        (member (by decreasing_tactic))
      -- the body of a lambda that is invoked directly is smaller by two nodes
      rintro params body rfl
      exact smaller body (by decreasing_tactic)
    | extension node operands reduction =>
      refine extension node operands reduction (member (by decreasing_tactic)) ?_
      rintro reduced rfl
      exact smaller reduced (by decreasing_tactic)

/-- Operands are smaller than the tree. -/
theorem sizeOf_lt_of_mem_children [SizeOf κ] {expr sub : Expr κ} (h : sub ∈ expr.children) :
    sizeOf sub < sizeOf expr := by
  cases expr with
  | constant | parameter | lambda => cases h
  | new cls args =>
    -- an operand in a list is smaller than the list
    have hsize : sizeOf sub < sizeOf args := List.sizeOf_lt_of_mem h
    simp only [new.sizeOf_spec]
    omega
  | field target name | unary op operand =>
    cases List.mem_singleton.1 h
    simp only [field.sizeOf_spec, unary.sizeOf_spec]
    omega
  | binary op left right =>
    simp only [children, List.mem_cons, List.not_mem_nil, or_false] at h
    simp only [binary.sizeOf_spec]
    rcases h with rfl | rfl <;> omega
  | conditional test yes no =>
    simp only [children, List.mem_cons, List.not_mem_nil, or_false] at h
    simp only [conditional.sizeOf_spec]
    rcases h with rfl | rfl | rfl <;> omega
  | invoke target args =>
    simp only [invoke.sizeOf_spec]
    rcases List.mem_cons.1 h with rfl | h
    · omega
    · have hsize : sizeOf sub < sizeOf args := List.sizeOf_lt_of_mem h
      omega
  | extension node operands reduction =>
    have hsize : sizeOf sub < sizeOf operands := List.sizeOf_lt_of_mem h
    simp only [extension.sizeOf_spec]
    omega

/-- The target of an invocation is a lambda, which is invoked directly, or it is not. -/
theorem lambda_or_ne (target : Expr κ) :
    (∃ params body, target = .lambda params body)
      ∨ ∀ params body, target ≠ .lambda params body := by
  cases target with
  | lambda params body => exact .inl ⟨params, body, rfl⟩
  | _ => exact .inr fun _ _ h => by cases h

/-- An invocation is direct only if its target is a lambda. -/
theorem invoke_ne_direct {target : Expr κ} (h : ∀ params body, target ≠ .lambda params body)
    (args : List (Expr κ)) (params : List Parameter) (body : Expr κ) (args' : List (Expr κ)) :
    invoke target args ≠ .invoke (.lambda params body) args' :=
  fun heq => h params body (invoke.inj heq).1

/-! ### Constants -/

mutual

/-- The constants of a tree, with those of operands of extension nodes and those of reductions. -/
def literals : Expr κ → List κ
  | constant value => [value]
  | parameter _ => []
  | new _ args => literalsOfAll args
  | field target _ => target.literals
  | unary _ operand => operand.literals
  | binary _ left right => left.literals ++ right.literals
  | conditional test yes no => test.literals ++ yes.literals ++ no.literals
  | lambda _ body => body.literals
  | invoke target args => target.literals ++ literalsOfAll args
  | extension _ operands none => literalsOfAll operands
  | extension _ operands (some reduced) => literalsOfAll operands ++ reduced.literals

/-- The constants of several trees. -/
def literalsOfAll : List (Expr κ) → List κ
  | [] => []
  | expr :: rest => expr.literals ++ literalsOfAll rest

end

theorem mem_literalsOfAll {c : κ} {exprs : List (Expr κ)} :
    c ∈ literalsOfAll exprs ↔ ∃ expr ∈ exprs, c ∈ expr.literals := by
  induction exprs with
  | nil => simp [literalsOfAll]
  | cons expr rest ih => simp [literalsOfAll, ih]

/-! ### Parts -/

mutual

/-- The values that a tree holds: its constants, and what the functions of the host
    captured that compute its extension nodes.  All of it is there before the tree is
    walked, so a walk may come upon it. -/
def parts : Expr κ → List κ
  | constant value => [value]
  | parameter _ => []
  | new _ args => partsOfAll args
  | field target _ => target.parts
  | unary _ operand => operand.parts
  | binary _ left right => left.parts ++ right.parts
  | conditional test yes no => test.parts ++ yes.parts ++ no.parts
  | lambda _ body => body.parts
  | invoke target args => target.parts ++ partsOfAll args
  | extension node operands none => node.host.captured ++ partsOfAll operands
  | extension node operands (some reduced) =>
    node.host.captured ++ partsOfAll operands ++ reduced.parts

/-- The values that several trees hold. -/
def partsOfAll : List (Expr κ) → List κ
  | [] => []
  | expr :: rest => expr.parts ++ partsOfAll rest

end

theorem mem_partsOfAll {c : κ} {exprs : List (Expr κ)} :
    c ∈ partsOfAll exprs ↔ ∃ expr ∈ exprs, c ∈ expr.parts := by
  induction exprs with
  | nil => simp [partsOfAll]
  | cons expr rest ih => simp [partsOfAll, ih]

/-- An extension node holds what its function captured and what its operands hold,
    whatever it reduces to. -/
theorem subset_parts_extension (node : ExtensionNode κ) (operands : List (Expr κ))
    (reduction : Option (Expr κ)) :
    node.host.captured ++ partsOfAll operands ⊆ (extension node operands reduction).parts := by
  cases reduction with
  | none => exact List.Subset.refl _
  | some reduced => exact List.subset_append_left ..

/-- The constants of a tree are among the values that it holds. -/
theorem literals_subset_parts (expr : Expr κ) : expr.literals ⊆ expr.parts := by
  have all : ∀ exprs : List (Expr κ), (∀ expr ∈ exprs, expr.literals ⊆ expr.parts) →
      literalsOfAll exprs ⊆ partsOfAll exprs := fun exprs ih c hc =>
    have ⟨expr, hexpr, hc⟩ := mem_literalsOfAll.1 hc
    mem_partsOfAll.2 ⟨expr, hexpr, ih expr hexpr hc⟩
  induction expr with
  | constant | parameter => exact List.Subset.refl _
  | new cls args ih => exact all args ih
  | field target name ih | unary op operand ih | lambda params body ih => exact ih
  | binary op left right ihl ihr => exact append_subset_append ihl ihr
  | conditional test yes no iht ihy ihn =>
    exact append_subset_append (append_subset_append iht ihy) ihn
  | invoke target args iht _ ih => exact append_subset_append iht (all args ih)
  | extension node operands reduction ih ihr =>
    have hoperands : literalsOfAll operands ⊆ node.host.captured ++ partsOfAll operands :=
      List.subset_append_of_subset_right _ (all operands ih)
    cases reduction with
    | none => exact hoperands
    | some reduced => exact append_subset_append hoperands (ihr reduced rfl)

/-! ### Parameters -/

mutual

/-- The parameters that walking a tree may look up outside the tree: those that
    no lambda around the occurrence declares.  An extension node is walked by
    its operands, whatever it reduces to. -/
def reads : Expr κ → List Parameter
  | constant _ => []
  | parameter param => [param]
  | new _ args => readsOfAll args
  | field target _ => target.reads
  | unary _ operand => operand.reads
  | binary _ left right => left.reads ++ right.reads
  | conditional test yes no => test.reads ++ yes.reads ++ no.reads
  | lambda params body => body.reads.filter (· ∉ params)
  | invoke target args => target.reads ++ readsOfAll args
  | extension _ operands _ => readsOfAll operands

/-- The parameters that walking several trees may look up. -/
def readsOfAll : List (Expr κ) → List Parameter
  | [] => []
  | expr :: rest => expr.reads ++ readsOfAll rest

end

theorem mem_readsOfAll {param : Parameter} {exprs : List (Expr κ)} :
    param ∈ readsOfAll exprs ↔ ∃ expr ∈ exprs, param ∈ expr.reads := by
  induction exprs with
  | nil => simp [readsOfAll]
  | cons expr rest ih => simp [readsOfAll, ih]

theorem reads_subset_of_all {expr : Expr κ} {exprs : List (Expr κ)} (h : expr ∈ exprs) :
    expr.reads ⊆ readsOfAll exprs :=
  fun _ hparam => mem_readsOfAll.2 ⟨expr, h, hparam⟩

/-- What an operand reads, the node reads. -/
theorem reads_subset_of_child {expr sub : Expr κ} (h : sub ∈ expr.children) :
    sub.reads ⊆ expr.reads := by
  -- a lambda has no operands: its body reads in one more scope
  cases expr with
  | constant | parameter | lambda => cases h
  | new | extension => exact reads_subset_of_all h
  | field | unary =>
    rw [List.mem_singleton.1 h]
    exact List.Subset.refl _
  | binary =>
    simp only [children, List.mem_cons, List.not_mem_nil, or_false] at h
    rcases h with rfl | rfl
    · exact List.subset_append_left ..
    · exact List.subset_append_right ..
  | conditional =>
    simp only [children, List.mem_cons, List.not_mem_nil, or_false] at h
    rcases h with rfl | rfl | rfl
    · exact List.subset_append_of_subset_left _ (List.subset_append_left ..)
    · exact List.subset_append_of_subset_left _ (List.subset_append_right ..)
    · exact List.subset_append_right ..
  | invoke =>
    rcases List.mem_cons.1 h with rfl | h
    · exact List.subset_append_left ..
    · exact List.subset_append_of_subset_right _ (reads_subset_of_all h)

/-- What a lambda reads is what its body reads and it does not declare. -/
theorem mem_reads_lambda {param : Parameter} {params : List Parameter} {body : Expr κ} :
    param ∈ (Expr.lambda params body).reads ↔ param ∈ body.reads ∧ param ∉ params := by
  simp [reads]

end Expr

/-! ### Lambdas -/

namespace Lambda

/-- The constants of a lambda. -/
def literals (lambda : Lambda κ) : List κ := lambda.body.literals

/-- The values that a lambda holds. -/
def parts (lambda : Lambda κ) : List κ := lambda.body.parts

/-- The parameters that a closure of the lambda has to know from outside. -/
def reads (lambda : Lambda κ) : List Parameter := lambda.toExpr.reads

theorem mem_reads {param : Parameter} {lambda : Lambda κ} :
    param ∈ lambda.reads ↔ param ∈ lambda.body.reads ∧ param ∉ lambda.params :=
  Expr.mem_reads_lambda

end Lambda

end ExprTree

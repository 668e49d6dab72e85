import ExprTree.Proofs.Tree.Binding
import ExprTree.Proofs.Tree.Reduction
import Mathlib.Data.List.Induction
import Mathlib.Data.List.Nodup

namespace ExprTree

/-!
# Free occurrences

`Expr.occurrences` lists the places where parameters stand in a tree, each with what the
lambdas around it declare.  Capture analysis, which goes through the tree with one list of
what is declared and one of what was found, comes to the parameters of the free occurrences,
each where it occurs first (`Lambda.freeParameters_eq_eraseDups`).

Validation knows about the same occurrences: nothing is free in a lambda that it accepts, and
what it reports as unbound is free (`Lambda.freeParameters_spec`).
-/

variable {κ : Type}

section

variable {α : Type} [BEq α] [LawfulBEq α] {items : List α} {item : α}

theorem eraseDups_append_of_mem (h : item ∈ items) :
    (items ++ [item]).eraseDups = items.eraseDups := by
  rw [List.eraseDups_append]
  simp [List.removeAll, h]

theorem eraseDups_append_of_not_mem (h : item ∉ items) :
    (items ++ [item]).eraseDups = items.eraseDups ++ [item] := by
  rw [List.eraseDups_append]
  simp [List.removeAll, h, List.eraseDups_cons]

/-- Nothing is left twice. -/
theorem nodup_eraseDups (items : List α) : items.eraseDups.Nodup := by
  induction items using List.reverseRec with
  | nil => exact List.nodup_nil
  | append_singleton items item ih =>
    by_cases hmem : item ∈ items
    · rwa [eraseDups_append_of_mem hmem]
    · rw [eraseDups_append_of_not_mem hmem]
      have hnew : item ∉ items.eraseDups := fun h => hmem (List.mem_eraseDups.1 h)
      exact ih.append (List.nodup_singleton item) (List.disjoint_singleton.2 hnew)

end

/-! ### Occurrences -/

/-- A place where a parameter stands; `scopes` lists what the lambdas around it declare,
    innermost first. -/
structure Occurrence where
  param : Parameter
  scopes : List (List Parameter)

/-- No lambda around the occurrence declares the parameter. -/
def Occurrence.IsFree (occurrence : Occurrence) : Prop :=
  ∀ scope ∈ occurrence.scopes, occurrence.param ∉ scope

instance : DecidablePred Occurrence.IsFree := fun _ =>
  inferInstanceAs (Decidable (∀ _ ∈ _, _))

namespace Expr

mutual

/-- The occurrences of parameters in a tree from left to right, where `scopes` lists what the
    lambdas around the tree declare.  An extension node stands for its reduction, if it has
    one, and otherwise for its operands. -/
def occurrences (scopes : List (List Parameter)) : Expr κ → List Occurrence
  | constant _ => []
  | parameter param => [⟨param, scopes⟩]
  | new _ args => occurrencesInAll scopes args
  | field target _ => target.occurrences scopes
  | unary _ operand => operand.occurrences scopes
  | binary _ left right => left.occurrences scopes ++ right.occurrences scopes
  | conditional test yes no =>
    test.occurrences scopes ++ yes.occurrences scopes ++ no.occurrences scopes
  | lambda params body => body.occurrences (params :: scopes)
  | invoke target args => target.occurrences scopes ++ occurrencesInAll scopes args
  | extension _ _ (some reduced) => reduced.occurrences scopes
  | extension _ operands none => occurrencesInAll scopes operands

/-- The occurrences of parameters in several trees. -/
def occurrencesInAll (scopes : List (List Parameter)) : List (Expr κ) → List Occurrence
  | [] => []
  | expr :: rest => expr.occurrences scopes ++ occurrencesInAll scopes rest

end

end Expr

/-- The parameters of the occurrences that are free. -/
def freeOf (occurrences : List Occurrence) : List Parameter :=
  (occurrences.filter (·.IsFree)).map (·.param)

theorem freeOf_append (first rest : List Occurrence) :
    freeOf (first ++ rest) = freeOf first ++ freeOf rest := by
  rw [freeOf, List.filter_append, List.map_append]
  rfl

/-- A parameter is free where it occurs free. -/
theorem mem_freeOf {occurrences : List Occurrence} {param : Parameter} :
    param ∈ freeOf occurrences
      ↔ ∃ occurrence ∈ occurrences, occurrence.param = param ∧ occurrence.IsFree := by
  simp only [freeOf, List.mem_map, List.mem_filter, decide_eq_true_eq]
  constructor
  · rintro ⟨occurrence, ⟨hmem, hfree⟩, rfl⟩
    exact ⟨occurrence, hmem, rfl, hfree⟩
  · rintro ⟨occurrence, hmem, rfl, hfree⟩
    exact ⟨occurrence, ⟨hmem, hfree⟩, rfl⟩

/-! ### Capture analysis -/

namespace Expr

/-- **Capture analysis adds the free occurrences.**  It is told about everything that the
    lambdas around the tree declare, as one list, and adds to what it has found what occurs
    free, unless it is there. -/
theorem freeParameters_eq (expr : Expr κ) (scopes : List (List Parameter))
    (found : List Parameter) :
    expr.freeParameters scopes.flatten found.eraseDups
      = (found ++ freeOf (expr.occurrences scopes)).eraseDups := by
  have all : ∀ (exprs : List (Expr κ)),
      (∀ expr ∈ exprs, ∀ (scopes : List (List Parameter)) (found : List Parameter),
        expr.freeParameters scopes.flatten found.eraseDups
          = (found ++ freeOf (expr.occurrences scopes)).eraseDups) →
      ∀ (scopes : List (List Parameter)) (found : List Parameter),
        freeParametersOfAll scopes.flatten found.eraseDups exprs
          = (found ++ freeOf (occurrencesInAll scopes exprs)).eraseDups := by
    intro exprs ih scopes
    induction exprs with
    | nil => simp [freeParametersOfAll, occurrencesInAll, freeOf]
    | cons expr rest ihr =>
      intro found
      rw [List.forall_mem_cons] at ih
      rw [freeParametersOfAll, ih.1, ihr ih.2, occurrencesInAll, freeOf_append, List.append_assoc]
  induction expr generalizing scopes found with
  | constant value => simp [freeParameters, occurrences, freeOf]
  | parameter param =>
    rw [freeParameters, occurrences]
    by_cases hfree : (⟨param, scopes⟩ : Occurrence).IsFree
    · have hopen : param ∉ scopes.flatten := fun h => by
        obtain ⟨scope, hscope, hmem⟩ := List.mem_flatten.1 h
        exact hfree scope hscope hmem
      have hfound : freeOf [⟨param, scopes⟩] = [param] := by simp [freeOf, hfree]
      rw [hfound]
      -- only the first free occurrence counts
      by_cases hmem : param ∈ found
      · rw [if_pos (.inr (List.mem_eraseDups.2 hmem)), eraseDups_append_of_mem hmem]
      · have hnew : param ∉ found.eraseDups := fun h => hmem (List.mem_eraseDups.1 h)
        rw [if_neg (by simp [hopen, hnew]), eraseDups_append_of_not_mem hmem]
    · have hbound : param ∈ scopes.flatten := by
        simpa [Occurrence.IsFree] using hfree
      have hnone : freeOf [⟨param, scopes⟩] = [] := by simp [freeOf, hfree]
      rw [if_pos (.inl hbound), hnone, List.append_nil]
  | new cls args ih => exact all args ih scopes found
  | field target name ih => exact ih scopes found
  | unary op operand ih => exact ih scopes found
  | binary op left right ihl ihr =>
    rw [freeParameters, ihl, ihr, occurrences, freeOf_append, List.append_assoc]
  | conditional test yes no iht ihy ihn =>
    rw [freeParameters, iht, ihy, ihn, occurrences, freeOf_append, freeOf_append,
      List.append_assoc, List.append_assoc, List.append_assoc]
  | lambda params body ih => exact ih (params :: scopes) found
  | invoke target args iht _ ih =>
    rw [freeParameters, iht, all args ih, occurrences, freeOf_append, List.append_assoc]
  | extension node operands reduction ih ihr =>
    cases reduction with
    | none => exact all operands ih scopes found
    | some reduced => exact ihr reduced rfl scopes found

end Expr

namespace Lambda

/-- The occurrences of parameters in the body of a lambda. -/
def occurrences (lambda : Lambda κ) : List Occurrence :=
  lambda.body.occurrences [lambda.params]

/-- **The free parameters of a lambda** are the parameters of its free occurrences, each where
    it occurs first. -/
theorem freeParameters_eq_eraseDups (lambda : Lambda κ) :
    lambda.freeParameters = (freeOf lambda.occurrences).eraseDups := by
  have h := Expr.freeParameters_eq lambda.body [lambda.params] []
  rwa [List.flatten_singleton] at h

/-- Nothing is free in a lambda that validation accepts. -/
theorem freeParameters_of_validate {lambda : Lambda Value} (hfree : lambda.isExtensionFree = true)
    {limit : Nat} {ty : Ty} (h : lambda.validate limit = .ok ty) : lambda.freeParameters = [] := by
  rw [freeParameters_eq_nil_iff, Expr.reduce_eq_self hfree]
  exact reads_body_of_validate h

/-- **Capture analysis is exact and agrees with validation.**  The free parameters of a lambda
    are those that occur in it where no lambda declares them, each once, in the order in which
    they occur first.  Without extension nodes, nothing is free in a lambda that validation
    accepts, and the parameter that it reports as unbound is one of the free ones. -/
theorem freeParameters_spec (lambda : Lambda Value) :
    lambda.freeParameters = (freeOf lambda.occurrences).eraseDups
      ∧ lambda.freeParameters.Nodup
      ∧ (∀ param, param ∈ lambda.freeParameters
        ↔ ∃ occurrence ∈ lambda.occurrences, occurrence.param = param ∧ occurrence.IsFree)
      ∧ (lambda.isExtensionFree = true → ∀ limit,
        (∀ ty, lambda.validate limit = .ok ty → lambda.freeParameters = [])
        ∧ ∀ name, lambda.validate limit = .error (.unboundParameter name) →
          ∃ param ∈ lambda.freeParameters, param.name = name) := by
  have heq := lambda.freeParameters_eq_eraseDups
  refine ⟨heq, ?_, fun param => ?_, fun hfree limit => ⟨fun ty h => ?_, fun name h => ?_⟩⟩
  · rw [heq]
    exact nodup_eraseDups _
  · rw [heq, List.mem_eraseDups, mem_freeOf]
  · exact freeParameters_of_validate hfree h
  · -- validation reports a parameter that the tree reads, and without extensions these
    -- are the free ones
    obtain ⟨param, hparam, hname⟩ := unbound_of_validate h
    refine ⟨param, ?_, hname⟩
    rwa [mem_freeParameters, reduce_eq_self hfree]

/-- A lambda that is invoked at once, whose body and whose argument read one parameter each
    besides its own. -/
def straying (inside outside : Parameter) : Lambda Value :=
  let own : Parameter := ⟨1, "y", .number⟩
  ⟨[⟨0, "x", .number⟩],
    .invoke (.lambda [own] (.binary .add (.parameter own) (.parameter inside)))
      [.parameter outside]⟩

/-- Of two free parameters the body of the lambda comes first, but validation looks at the
    argument first, which is declared in the body only. -/
theorem freeParameters_spec_straying :
    let x : Parameter := ⟨0, "x", .number⟩
    let y : Parameter := ⟨1, "y", .number⟩
    let z : Parameter := ⟨2, "z", .number⟩
    (straying z y).isExtensionFree = true ∧ (straying z y).freeParameters = [z, y]
      ∧ (straying z y).validate 3 = .error (.unboundParameter "y")
      ∧ (∃ param ∈ (straying z y).freeParameters, param.name = "y")
      ∧ (straying x x).isExtensionFree = true ∧ (straying x x).validate 3 = .ok .number
      ∧ (straying x x).freeParameters = [] := by
  intro x y z
  obtain ⟨-, -, -, hreported⟩ := freeParameters_spec (straying z y)
  obtain ⟨-, -, -, haccepted⟩ := freeParameters_spec (straying x x)
  exact ⟨rfl, rfl, rfl, (hreported rfl 3).2 "y" rfl, rfl, rfl, (haccepted rfl 3).1 .number rfl⟩

end Lambda

end ExprTree

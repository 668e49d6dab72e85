import ExprTree.Proofs.Tree.Basic
import ExprTree.Value.Operations
import Mathlib.Logic.Relation

namespace ExprTree

/-!
# What a value holds

A value gives access to others: an object to its fields, a function to what its
body holds and to the environment or the tables it runs with, and a function of the
host to what it captured.

* `Value.parts` — the values that a value holds directly;
* `Value.Holds` — the same at any depth, the value itself included;
* `Value.All` — a property of everything that a value holds;
* `Value.Coherent` — values among which no two references share an id.

A value is larger than what it holds, so there is induction over its parts
(`Value.inductionOnParts`).
-/

namespace Code

variable {κ : Type}

mutual

/-- The constants that stand in the code. -/
def literals : Code κ → List κ
  | literal value | embedded value => [value]
  | pooled _ | slot _ => []
  | construct _ args | instantiate _ args => literalsOfAll args
  | fieldAt target _ _ | field target _ => target.literals
  | unary _ operand => operand.literals
  | shortCircuit _ left right | arithmetic _ left right | binary _ left right =>
    left.literals ++ right.literals
  | conditional test yes no => test.literals ++ yes.literals ++ no.literals
  | closure _ _ body => body.literals
  | invoke target args => target.literals ++ literalsOfAll args

/-- The constants that stand in several pieces of code. -/
def literalsOfAll : List (Code κ) → List κ
  | [] => []
  | code :: rest => code.literals ++ literalsOfAll rest

end

theorem mem_literalsOfAll {c : κ} {codes : List (Code κ)} :
    c ∈ literalsOfAll codes ↔ ∃ code ∈ codes, c ∈ code.literals := by
  induction codes with
  | nil => simp [literalsOfAll]
  | cons code rest ih => simp [literalsOfAll, ih]

end Code

/-- The values bound in an environment, shadowed ones included. -/
def Env.values {κ : Type} (env : Env κ) : List κ :=
  env.flatMap fun frame => List.map (·.2) frame

/-- The values that a function runs with. -/
def Callable.parts {κ : Type} : Callable κ → List κ
  | interpreted _ body env => body.parts ++ Env.values env
  | compiled _ body captured constants => body.literals ++ captured ++ constants
  | native _ _ host => host.captured

namespace Value

/-- The values that a value holds directly. -/
def parts : Value → List Value
  | object _ _ fields => fields
  | function _ callable => callable.parts
  | _ => []

/-- Whether a value can be reached from another one, itself included. -/
def Holds (value part : Value) : Prop :=
  Relation.ReflTransGen (fun v w => w ∈ v.parts) value part

/-- A property of everything that a value holds. -/
def All (P : Value → Prop) (value : Value) : Prop :=
  ∀ part, value.Holds part → P part

theorem Holds.refl (value : Value) : value.Holds value := Relation.ReflTransGen.refl

theorem Holds.of_mem {value part : Value} (h : part ∈ value.parts) : value.Holds part :=
  .single h

theorem Holds.trans {a b c : Value} (hab : a.Holds b) (hbc : b.Holds c) : a.Holds c :=
  Relation.ReflTransGen.trans hab hbc

section

variable {P Q : Value → Prop} {value : Value}

theorem All.self (h : value.All P) : P value := h value (.refl value)

theorem All.of_holds {part : Value} (h : value.All P) (hpart : value.Holds part) : part.All P :=
  fun w hw => h w (hpart.trans hw)

theorem All.part {part : Value} (h : value.All P) (hpart : part ∈ value.parts) : part.All P :=
  h.of_holds (.of_mem hpart)

theorem All.mono (h : value.All P) (hPQ : ∀ v, P v → Q v) : value.All Q :=
  fun w hw => hPQ w (h w hw)

/-- A property holds of everything in a value when it holds of the value and of
    everything in its parts. -/
theorem all_iff : value.All P ↔ P value ∧ ∀ part ∈ value.parts, part.All P := by
  constructor
  · exact fun h => ⟨h.self, fun part hpart => h.part hpart⟩
  · rintro ⟨hself, hparts⟩ w hw
    rcases Relation.ReflTransGen.cases_head hw with rfl | ⟨part, hpart, hw⟩
    · exact hself
    · exact hparts part hpart w hw

/-- The type of a value accepts it. -/
theorem accepts_typeOf (value : Value) : value.typeOf.accepts value = true := by
  cases value <;> simp [typeOf, Ty.accepts]

/-- A value that has no parts holds only itself. -/
theorem all_of_parts_eq_nil (hparts : value.parts = []) (h : P value) : value.All P :=
  all_iff.2 ⟨h, by simp [hparts]⟩

theorem parts_of_isPrimitive (h : value.isPrimitive = true) : value.parts = [] := by
  cases value <;> simp_all [isPrimitive, parts]

end

/-! ### References -/

/-- References of one kind with one id are one reference. -/
structure Coherent (values : Value → Prop) : Prop where
  object {id : Nat} {cls cls' : ClassDef} {fields fields' : List Value} :
    values (.object id cls fields) → values (.object id cls' fields') →
    Value.object id cls fields = .object id cls' fields'
  function {id : Nat} {callable callable' : Callable Value} :
    values (.function id callable) → values (.function id callable') →
    Value.function id callable = .function id callable'

theorem Coherent.nil : Coherent fun value => value ∈ ([] : List Value) :=
  ⟨nofun, nofun⟩

theorem Coherent.mono {values values' : Value → Prop} (h : Coherent values)
    (hle : ∀ value, values' value → values value) : Coherent values' :=
  ⟨fun ha hb => h.object (hle _ ha) (hle _ hb), fun ha hb => h.function (hle _ ha) (hle _ hb)⟩

/-- Among coherent values only numbers can be equal without being the same. -/
theorem Coherent.eq_of_beq {values : Value → Prop} (h : Coherent values)
    {a b : Value} (ha : values a) (hb : values b) (hprim : b.isPrimitive = false)
    (heq : (a == b) = true) : a = b := by
  have heq : Value.beq a b = true := heq
  -- references are compared by their ids, and among these values an id stands for one of them
  unfold Value.beq at heq
  split at heq
  · rfl
  · cases hprim
  · cases hprim
  · rw [beq_iff_eq.1 heq]
  · cases beq_iff_eq.1 heq
    exact h.object ha hb
  · cases beq_iff_eq.1 heq
    exact h.function ha hb
  · cases heq

end Value

/-! ### Induction over what a value holds -/

/-- What a function of the host captured is smaller than it. -/
theorem HostFunction.sizeOf_lt_of_mem_captured {κ : Type} [SizeOf κ] {c : κ}
    (host : HostFunction κ) (h : c ∈ host.captured) : sizeOf c < sizeOf host := by
  obtain ⟨name, captured⟩ := host
  exact Nat.lt_trans (List.sizeOf_lt_of_mem h) (by decreasing_tactic)

/-- What the function of an extension node captured is smaller than the node. -/
theorem ExtensionNode.sizeOf_lt_of_mem_captured {κ : Type} [SizeOf κ] {c : κ}
    (node : ExtensionNode κ) (h : c ∈ node.host.captured) : sizeOf c < sizeOf node := by
  obtain ⟨name, ty, host⟩ := node
  exact Nat.lt_trans (host.sizeOf_lt_of_mem_captured h) (by decreasing_tactic)

/-- The parts of a tree are smaller than the tree. -/
theorem Expr.sizeOf_lt_of_mem_parts {κ : Type} [SizeOf κ] {c : κ} {expr : Expr κ}
    (h : c ∈ expr.parts) : sizeOf c < sizeOf expr := by
  have all : ∀ exprs : List (Expr κ), (∀ expr ∈ exprs, c ∈ expr.parts → sizeOf c < sizeOf expr) →
      c ∈ partsOfAll exprs → sizeOf c < sizeOf exprs := by
    intro exprs ih hc
    obtain ⟨expr, hexpr, hc⟩ := mem_partsOfAll.1 hc
    exact Nat.lt_trans (ih expr hexpr hc) (List.sizeOf_lt_of_mem hexpr)
  induction expr with
  | constant value =>
    cases List.mem_singleton.1 h
    simp
  | parameter param => cases h
  | new cls args ih =>
    have := all args ih h
    simp only [new.sizeOf_spec]
    omega
  | field target name ih =>
    have := ih h
    simp only [field.sizeOf_spec]
    omega
  | unary op operand ih =>
    have := ih h
    simp only [unary.sizeOf_spec]
    omega
  | binary op left right ihl ihr =>
    simp only [binary.sizeOf_spec]
    rcases List.mem_append.1 h with h | h
    · have := ihl h
      omega
    · have := ihr h
      omega
  | conditional test yes no iht ihy ihn =>
    simp only [conditional.sizeOf_spec]
    rcases List.mem_append.1 h with h | h
    · rcases List.mem_append.1 h with h | h
      · have := iht h
        omega
      · have := ihy h
        omega
    · have := ihn h
      omega
  | lambda params body ih =>
    have := ih h
    simp only [lambda.sizeOf_spec]
    omega
  | invoke target args iht _ ih =>
    simp only [invoke.sizeOf_spec]
    rcases List.mem_append.1 h with h | h
    · have := iht h
      omega
    · have := all args ih h
      omega
  | extension node operands reduction ih ihr =>
    -- what a function of the host captured is a part of the node, as the function is
    have taken : c ∈ node.host.captured ++ partsOfAll operands →
        sizeOf c < 1 + sizeOf node + sizeOf operands := fun h => by
      rcases List.mem_append.1 h with h | h
      · have := node.sizeOf_lt_of_mem_captured h
        omega
      · have := all operands ih h
        omega
    cases reduction with
    | none =>
      have := taken h
      simp only [extension.sizeOf_spec]
      omega
    | some reduced =>
      simp only [extension.sizeOf_spec, Option.some.sizeOf_spec]
      rcases List.mem_append.1 h with h | h
      · have := taken h
        omega
      · have := ihr reduced rfl h
        omega

mutual

/-- The literals of code are smaller than the code. -/
theorem Code.sizeOf_lt_of_mem_literals {κ : Type} [SizeOf κ] {c : κ} :
    ∀ code : Code κ, c ∈ code.literals → sizeOf c < sizeOf code
  | .literal value, h | .embedded value, h => by
    cases List.mem_singleton.1 h
    simp
  | .pooled _, h | .slot _, h => by cases h
  | .construct _ args, h | .instantiate _ args, h =>
    Nat.lt_trans (Code.sizeOf_lt_of_mem_literalsOfAll args h) (by decreasing_tactic)
  | .fieldAt target _ _, h | .field target _, h =>
    Nat.lt_trans (Code.sizeOf_lt_of_mem_literals target h) (by decreasing_tactic)
  | .unary _ operand, h =>
    Nat.lt_trans (Code.sizeOf_lt_of_mem_literals operand h) (by decreasing_tactic)
  | .shortCircuit _ left right, h | .arithmetic _ left right, h | .binary _ left right, h =>
    (List.mem_append.1 h).elim
      (fun h => Nat.lt_trans (Code.sizeOf_lt_of_mem_literals left h) (by decreasing_tactic))
      (fun h => Nat.lt_trans (Code.sizeOf_lt_of_mem_literals right h) (by decreasing_tactic))
  | .conditional test yes no, h =>
    (List.mem_append.1 h).elim
      (fun h => (List.mem_append.1 h).elim
        (fun h => Nat.lt_trans (Code.sizeOf_lt_of_mem_literals test h) (by decreasing_tactic))
        (fun h => Nat.lt_trans (Code.sizeOf_lt_of_mem_literals yes h) (by decreasing_tactic)))
      (fun h => Nat.lt_trans (Code.sizeOf_lt_of_mem_literals no h) (by decreasing_tactic))
  | .closure _ _ body, h =>
    Nat.lt_trans (Code.sizeOf_lt_of_mem_literals body h) (by decreasing_tactic)
  | .invoke target args, h =>
    (List.mem_append.1 h).elim
      (fun h => Nat.lt_trans (Code.sizeOf_lt_of_mem_literals target h) (by decreasing_tactic))
      (fun h => Nat.lt_trans (Code.sizeOf_lt_of_mem_literalsOfAll args h) (by decreasing_tactic))

/-- The literals of codes are smaller than the list of these. -/
theorem Code.sizeOf_lt_of_mem_literalsOfAll {κ : Type} [SizeOf κ] {c : κ} :
    ∀ codes : List (Code κ), c ∈ Code.literalsOfAll codes → sizeOf c < sizeOf codes
  | [], h => by cases h
  | code :: rest, h =>
    (List.mem_append.1 h).elim
      (fun h => Nat.lt_trans (Code.sizeOf_lt_of_mem_literals code h) (by decreasing_tactic))
      (fun h => Nat.lt_trans (Code.sizeOf_lt_of_mem_literalsOfAll rest h) (by decreasing_tactic))

end

/-- The values of an environment are smaller than it. -/
theorem Env.sizeOf_lt_of_mem_values {κ : Type} [SizeOf κ] {c : κ} {env : Env κ}
    (h : c ∈ env.values) : sizeOf c < sizeOf env := by
  obtain ⟨frame, hframe, hc⟩ := List.mem_flatMap.1 h
  obtain ⟨binding, hbinding, rfl⟩ := List.mem_map.1 hc
  have h₁ := List.sizeOf_lt_of_mem hframe
  have h₂ := List.sizeOf_lt_of_mem hbinding
  have h₃ : sizeOf binding.2 < sizeOf binding := by
    obtain ⟨param, value⟩ := binding
    decreasing_tactic
  omega

/-- The parts of a value are smaller than the value, so there is induction over them. -/
theorem Value.sizeOf_lt_of_mem_parts {value part : Value} (h : part ∈ value.parts) :
    sizeOf part < sizeOf value := by
  cases value with
  | none | bool | number | string => cases h
  | object id cls fields =>
    have hfields : sizeOf part < sizeOf fields := List.sizeOf_lt_of_mem h
    exact Nat.lt_trans hfields (by decreasing_tactic)
  | function id callable =>
    simp only [Value.function.sizeOf_spec]
    cases callable with
    | native name arity host =>
      have := host.sizeOf_lt_of_mem_captured h
      simp only [Callable.native.sizeOf_spec]
      omega
    | interpreted params body env =>
      simp only [Callable.interpreted.sizeOf_spec]
      rcases List.mem_append.1 h with h | h
      · have := Expr.sizeOf_lt_of_mem_parts h
        omega
      · have := Env.sizeOf_lt_of_mem_values h
        omega
    | compiled params body captured constants =>
      simp only [Callable.compiled.sizeOf_spec]
      rcases List.mem_append.1 h with h | h
      · rcases List.mem_append.1 h with h | h
        · have := Code.sizeOf_lt_of_mem_literals body h
          omega
        · have := List.sizeOf_lt_of_mem h
          omega
      · have := List.sizeOf_lt_of_mem h
        omega

/-- Induction over a value: what holds of a value as soon as it holds of its parts
    holds of every value. -/
theorem Value.inductionOnParts {motive : Value → Prop}
    (step : ∀ value, (∀ part ∈ value.parts, motive part) → motive value) (value : Value) :
    motive value := by
  induction hn : sizeOf value using Nat.strongRecOn generalizing value with
  | ind n ih =>
    subst hn
    exact step value fun part hpart => ih _ (sizeOf_lt_of_mem_parts hpart) part rfl

end ExprTree

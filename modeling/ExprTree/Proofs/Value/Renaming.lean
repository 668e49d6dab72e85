import ExprTree.Proofs.Code.Basic
import ExprTree.Proofs.Value.Alike
import ExprTree.Run.Evaluator

namespace ExprTree

/-!
# Renaming ids

The ids of objects and functions are names: nothing but equality looks at them.
`Value.rename ρ` gives every object and function in a value the id that `ρ` has for
it, at any depth, in the bodies, environments and tables of functions as well.

* `Value.rename_rename` and `Value.rename_eq_self` — renaming twice, and renaming what
  keeps its ids;
* `Value.beq_rename` — where `ρ` is injective, renamed values are equal if they were;
* `Value.field_rename`, `BinaryOp.apply_rename` and the like — operations on renamed
  values give the renamed results, and the same errors.
-/

/-- New ids for objects and for functions. -/
structure Renaming where
  object : Nat → Nat
  function : Nat → Nat

mutual

/-- A value with the ids that `ρ` gives. -/
def Value.rename (ρ : Renaming) : Value → Value
  | .none => .none
  | .bool b => .bool b
  | .number n => .number n
  | .string s => .string s
  | .object id cls fields => .object (ρ.object id) cls (Value.renameAll ρ fields)
  | .function id callable => .function (ρ.function id) (callable.rename ρ)

/-- Several values with the ids that `ρ` gives. -/
def Value.renameAll (ρ : Renaming) : List Value → List Value
  | [] => []
  | value :: rest => value.rename ρ :: Value.renameAll ρ rest

/-- What a function runs, with the ids that `ρ` gives. -/
def Callable.rename (ρ : Renaming) : Callable Value → Callable Value
  | .interpreted params body env => .interpreted params (body.rename ρ) (Env.rename ρ env)
  | .compiled params body captured constants =>
    .compiled params (body.rename ρ) (Value.renameAll ρ captured) (Value.renameAll ρ constants)
  | .native name arity host => .native name arity (host.rename ρ)

/-- A function of the host that captured values with the ids that `ρ` gives. -/
def HostFunction.rename (ρ : Renaming) : HostFunction Value → HostFunction Value
  | ⟨name, captured⟩ => ⟨name, Value.renameAll ρ captured⟩

/-- A tree whose constants have the ids that `ρ` gives. -/
def Expr.rename (ρ : Renaming) : Expr Value → Expr Value
  | .constant value => .constant (value.rename ρ)
  | .parameter param => .parameter param
  | .new cls args => .new cls (Expr.renameAll ρ args)
  | .field target name => .field (target.rename ρ) name
  | .unary op operand => .unary op (operand.rename ρ)
  | .binary op left right => .binary op (left.rename ρ) (right.rename ρ)
  | .conditional test yes no => .conditional (test.rename ρ) (yes.rename ρ) (no.rename ρ)
  | .lambda params body => .lambda params (body.rename ρ)
  | .invoke target args => .invoke (target.rename ρ) (Expr.renameAll ρ args)
  | .extension node operands reduction =>
    .extension (node.rename ρ) (Expr.renameAll ρ operands) (Expr.renameReduction ρ reduction)

/-- An extension node whose function captured values with the ids that `ρ` gives. -/
def ExtensionNode.rename (ρ : Renaming) : ExtensionNode Value → ExtensionNode Value
  | ⟨name, ty, host⟩ => ⟨name, ty, host.rename ρ⟩

/-- Several trees whose constants have the ids that `ρ` gives. -/
def Expr.renameAll (ρ : Renaming) : List (Expr Value) → List (Expr Value)
  | [] => []
  | expr :: rest => expr.rename ρ :: Expr.renameAll ρ rest

/-- The reduction of an extension node with the ids that `ρ` gives. -/
def Expr.renameReduction (ρ : Renaming) : Option (Expr Value) → Option (Expr Value)
  | none => none
  | some reduced => some (reduced.rename ρ)

/-- Code whose constants have the ids that `ρ` gives. -/
def Code.rename (ρ : Renaming) : Code Value → Code Value
  | .literal value => .literal (value.rename ρ)
  | .embedded value => .embedded (value.rename ρ)
  | .pooled index => .pooled index
  | .slot place => .slot place
  | .construct cls args => .construct cls (Code.renameAll ρ args)
  | .instantiate cls args => .instantiate cls (Code.renameAll ρ args)
  | .fieldAt target index name => .fieldAt (target.rename ρ) index name
  | .field target name => .field (target.rename ρ) name
  | .unary op operand => .unary op (operand.rename ρ)
  | .shortCircuit op left right => .shortCircuit op (left.rename ρ) (right.rename ρ)
  | .arithmetic op left right => .arithmetic op (left.rename ρ) (right.rename ρ)
  | .binary op left right => .binary op (left.rename ρ) (right.rename ρ)
  | .conditional test yes no => .conditional (test.rename ρ) (yes.rename ρ) (no.rename ρ)
  | .closure params captures body => .closure params captures (body.rename ρ)
  | .invoke target args => .invoke (target.rename ρ) (Code.renameAll ρ args)

/-- Several pieces of code whose constants have the ids that `ρ` gives. -/
def Code.renameAll (ρ : Renaming) : List (Code Value) → List (Code Value)
  | [] => []
  | code :: rest => code.rename ρ :: Code.renameAll ρ rest

/-- An environment with the ids that `ρ` gives. -/
def Env.rename (ρ : Renaming) : List (List (Parameter × Value)) → List (List (Parameter × Value))
  | [] => []
  | frame :: outer => Frame.rename ρ frame :: Env.rename ρ outer

/-- The bindings of one call with the ids that `ρ` gives. -/
def Frame.rename (ρ : Renaming) : List (Parameter × Value) → List (Parameter × Value)
  | [] => []
  | binding :: rest => Value.renameBinding ρ binding :: Frame.rename ρ rest

/-- A binding with the ids that `ρ` gives. -/
def Value.renameBinding (ρ : Renaming) : Parameter × Value → Parameter × Value
  | (param, value) => (param, value.rename ρ)

end

variable {ρ σ τ : Renaming}

/-! ### Lists -/

theorem Value.renameAll_eq_map (values : List Value) :
    Value.renameAll ρ values = values.map (·.rename ρ) := by
  induction values with
  | nil => rw [renameAll, List.map_nil]
  | cons value rest ih => rw [renameAll, List.map_cons, ih]

theorem Expr.renameAll_eq_map (exprs : List (Expr Value)) :
    Expr.renameAll ρ exprs = exprs.map (·.rename ρ) := by
  induction exprs with
  | nil => rw [renameAll, List.map_nil]
  | cons expr rest ih => rw [renameAll, List.map_cons, ih]

theorem Code.renameAll_eq_map (codes : List (Code Value)) :
    Code.renameAll ρ codes = codes.map (·.rename ρ) := by
  induction codes with
  | nil => rw [renameAll, List.map_nil]
  | cons code rest ih => rw [renameAll, List.map_cons, ih]

/-- In a frame the values are renamed, and the parameters stay. -/
theorem Frame.rename_eq_map (frame : Frame Value) :
    Frame.rename ρ frame = List.map (fun binding => (binding.1, binding.2.rename ρ)) frame := by
  induction frame with
  | nil => rw [rename, List.map_nil]
  | cons binding rest ih => rw [rename, List.map_cons, ih, Value.renameBinding]

/-- In an environment every frame is renamed. -/
theorem Env.rename_eq_map (env : Env Value) :
    Env.rename ρ env = env.map (Frame.rename ρ) := by
  induction env with
  | nil => rw [rename, List.map_nil]
  | cons frame outer ih => rw [rename, List.map_cons, ih]

@[simp] theorem HostFunction.name_rename (host : HostFunction Value) :
    (host.rename ρ).name = host.name := by
  obtain ⟨name, captured⟩ := host
  rw [rename]

@[simp] theorem HostFunction.captured_rename (host : HostFunction Value) :
    (host.rename ρ).captured = host.captured.map (·.rename ρ) := by
  obtain ⟨name, captured⟩ := host
  rw [rename, Value.renameAll_eq_map]

@[simp] theorem ExtensionNode.host_rename (node : ExtensionNode Value) :
    (node.rename ρ).host = node.host.rename ρ := by
  obtain ⟨name, ty, host⟩ := node
  rw [rename]

/-! ### Renaming twice -/

/-- One renaming after another. -/
def Renaming.comp (τ σ : Renaming) : Renaming :=
  ⟨fun id => τ.object (σ.object id), fun id => τ.function (σ.function id)⟩

/-- Values that are renamed twice are renamed once, if each of them is. -/
theorem Value.renameAll_renameAll {values : List Value}
    (h : ∀ value ∈ values, (value.rename σ).rename τ = value.rename (τ.comp σ)) :
    renameAll τ (renameAll σ values) = renameAll (τ.comp σ) values := by
  simp only [renameAll_eq_map, List.map_map]
  exact List.map_congr_left h

/-- Renaming a function of the host twice is renaming it once, if that is true of what it
    captured. -/
theorem HostFunction.rename_rename {host : HostFunction Value}
    (h : ∀ value ∈ host.captured, (value.rename σ).rename τ = value.rename (τ.comp σ)) :
    (host.rename σ).rename τ = host.rename (τ.comp σ) := by
  obtain ⟨name, captured⟩ := host
  simp only [rename, Value.renameAll_renameAll h]

/-- Renaming an extension node twice is renaming it once, if that is true of what its function
    captured. -/
theorem ExtensionNode.rename_rename {node : ExtensionNode Value}
    (h : ∀ value ∈ node.host.captured, (value.rename σ).rename τ = value.rename (τ.comp σ)) :
    (node.rename σ).rename τ = node.rename (τ.comp σ) := by
  obtain ⟨name, ty, host⟩ := node
  simp only [rename, HostFunction.rename_rename h]

/-- Renaming a tree twice is renaming it once, if that is true of its parts. -/
theorem Expr.rename_rename {expr : Expr Value}
    (h : ∀ c ∈ expr.parts, (c.rename σ).rename τ = c.rename (τ.comp σ)) :
    (expr.rename σ).rename τ = expr.rename (τ.comp σ) := by
  have all : ∀ {exprs : List (Expr Value)},
      (∀ expr ∈ exprs, (∀ c ∈ expr.parts, (c.rename σ).rename τ = c.rename (τ.comp σ)) →
        (expr.rename σ).rename τ = expr.rename (τ.comp σ)) →
      (∀ c ∈ partsOfAll exprs, (c.rename σ).rename τ = c.rename (τ.comp σ)) →
      Expr.renameAll τ (Expr.renameAll σ exprs) = Expr.renameAll (τ.comp σ) exprs := fun ih h => by
    simp only [renameAll_eq_map, List.map_map]
    exact List.map_congr_left fun expr hexpr =>
      ih expr hexpr fun c hc => h c (mem_partsOfAll.2 ⟨expr, hexpr, hc⟩)
  induction expr with
  | constant c => simp only [rename, h c (List.mem_singleton_self c)]
  | parameter param => simp only [rename]
  | new cls args ih => simp only [rename, all ih h]
  | field target name ih | unary op operand ih | lambda params body ih => simp only [rename, ih h]
  | binary op left right ihl ihr =>
    rw [parts, List.forall_mem_append] at h
    simp only [rename, ihl h.1, ihr h.2]
  | conditional test yes no iht ihy ihn =>
    rw [parts, List.forall_mem_append, List.forall_mem_append] at h
    simp only [rename, iht h.1.1, ihy h.1.2, ihn h.2]
  | invoke target args iht _ ih =>
    rw [parts, List.forall_mem_append] at h
    simp only [rename, iht h.1, all ih h.2]
  | extension node operands reduction ih ihr =>
    cases reduction with
    | none =>
      rw [parts, List.forall_mem_append] at h
      simp only [rename, renameReduction, ExtensionNode.rename_rename h.1, all ih h.2]
    | some reduced =>
      rw [parts, List.forall_mem_append, List.forall_mem_append] at h
      simp only [rename, renameReduction, ExtensionNode.rename_rename h.1.1, all ih h.1.2,
        ihr reduced rfl h.2]

/-- Renaming code twice is renaming it once, if that is true of its literals. -/
theorem Code.rename_rename {code : Code Value}
    (h : ∀ c ∈ code.literals, (c.rename σ).rename τ = c.rename (τ.comp σ)) :
    (code.rename σ).rename τ = code.rename (τ.comp σ) := by
  have all : ∀ {codes : List (Code Value)},
      (∀ code ∈ codes, (∀ c ∈ code.literals, (c.rename σ).rename τ = c.rename (τ.comp σ)) →
        (code.rename σ).rename τ = code.rename (τ.comp σ)) →
      (∀ c ∈ literalsOfAll codes, (c.rename σ).rename τ = c.rename (τ.comp σ)) →
      Code.renameAll τ (Code.renameAll σ codes) = Code.renameAll (τ.comp σ) codes := fun ih h => by
    simp only [renameAll_eq_map, List.map_map]
    exact List.map_congr_left fun code hcode =>
      ih code hcode fun c hc => h c (mem_literalsOfAll.2 ⟨code, hcode, hc⟩)
  induction code with
  | literal c | embedded c => simp only [rename, h c (List.mem_singleton_self c)]
  | pooled | slot => simp only [rename]
  | construct cls args ih | instantiate cls args ih => simp only [rename, all ih h]
  | fieldAt target index name ih | field target name ih | unary op operand ih
  | closure params captures body ih => simp only [rename, ih h]
  | shortCircuit op left right ihl ihr | arithmetic op left right ihl ihr
  | binary op left right ihl ihr =>
    rw [literals, List.forall_mem_append] at h
    simp only [rename, ihl h.1, ihr h.2]
  | conditional test yes no iht ihy ihn =>
    rw [literals, List.forall_mem_append, List.forall_mem_append] at h
    simp only [rename, iht h.1.1, ihy h.1.2, ihn h.2]
  | invoke target args iht ih =>
    rw [literals, List.forall_mem_append] at h
    simp only [rename, iht h.1, all ih h.2]

theorem Env.mem_values {env : Env Value} {frame : Frame Value} {binding : Parameter × Value}
    (hframe : frame ∈ env) (hbinding : binding ∈ frame) : binding.2 ∈ Env.values env :=
  List.mem_flatMap.2 ⟨frame, hframe, List.mem_map_of_mem hbinding⟩

/-- Renaming an environment twice is renaming it once, if that is true of its values. -/
theorem Env.rename_rename {env : Env Value}
    (h : ∀ value ∈ Env.values env, (value.rename σ).rename τ = value.rename (τ.comp σ)) :
    Env.rename τ (Env.rename σ env) = Env.rename (τ.comp σ) env := by
  simp only [rename_eq_map, List.map_map]
  refine List.map_congr_left fun frame hframe => ?_
  simp only [Function.comp_apply, Frame.rename_eq_map, List.map_map]
  refine List.map_congr_left fun binding hbinding => ?_
  simp only [Function.comp_apply, h binding.2 (mem_values hframe hbinding)]

/-- **Renaming twice** is renaming once. -/
theorem Value.rename_rename (value : Value) :
    (value.rename σ).rename τ = value.rename (τ.comp σ) := by
  -- Trees and code get the law for their constants from what the function holds.
  induction value using inductionOnParts with
  | step value ih =>
    cases value with
    | none | bool | number | string => simp only [rename]
    | object id cls fields =>
      have ih : ∀ field ∈ fields, (field.rename σ).rename τ = field.rename (τ.comp σ) := ih
      simp only [rename, renameAll_renameAll ih]
      rfl
    | function id callable =>
      simp only [rename]
      congr 1
      cases callable with
      | interpreted params body env =>
        simp only [parts, Callable.parts, List.forall_mem_append] at ih
        simp only [Callable.rename, Expr.rename_rename ih.1, Env.rename_rename ih.2]
      | compiled params body captured constants =>
        simp only [parts, Callable.parts, List.forall_mem_append] at ih
        simp only [Callable.rename, Code.rename_rename ih.1.1, renameAll_renameAll ih.1.2,
          renameAll_renameAll ih.2]
      | native name arity host =>
        have ih : ∀ value ∈ host.captured, (value.rename σ).rename τ = value.rename (τ.comp σ) := ih
        simp only [Callable.rename, HostFunction.rename_rename ih]

/-! ### Ids that stay -/

/-- A value that keeps its own id. -/
def Renaming.Fixes (ρ : Renaming) : Value → Prop
  | .object id _ _ => ρ.object id = id
  | .function id _ => ρ.function id = id
  | _ => True

theorem map_eq_self {α : Type} {f : α → α} {xs : List α} (h : ∀ x ∈ xs, f x = x) :
    xs.map f = xs :=
  (List.map_congr_left h).trans (List.map_id xs)

theorem Value.renameAll_eq_self {values : List Value}
    (h : ∀ value ∈ values, value.rename ρ = value) : renameAll ρ values = values := by
  rw [renameAll_eq_map]
  exact map_eq_self h

/-- A function of the host stays if all that it captured does. -/
theorem HostFunction.rename_eq_self {host : HostFunction Value}
    (h : ∀ value ∈ host.captured, value.rename ρ = value) : host.rename ρ = host := by
  obtain ⟨name, captured⟩ := host
  rw [rename, Value.renameAll_eq_self h]

/-- An extension node stays if all that its function captured does. -/
theorem ExtensionNode.rename_eq_self {node : ExtensionNode Value}
    (h : ∀ value ∈ node.host.captured, value.rename ρ = value) : node.rename ρ = node := by
  obtain ⟨name, ty, host⟩ := node
  rw [rename, HostFunction.rename_eq_self h]

/-- A tree stays if its parts do. -/
theorem Expr.rename_eq_self {expr : Expr Value} (h : ∀ c ∈ expr.parts, c.rename ρ = c) :
    expr.rename ρ = expr := by
  have all : ∀ {exprs : List (Expr Value)},
      (∀ expr ∈ exprs, (∀ c ∈ expr.parts, c.rename ρ = c) → expr.rename ρ = expr) →
      (∀ c ∈ partsOfAll exprs, c.rename ρ = c) → Expr.renameAll ρ exprs = exprs := fun ih h => by
    rw [renameAll_eq_map]
    exact map_eq_self fun expr hexpr =>
      ih expr hexpr fun c hc => h c (mem_partsOfAll.2 ⟨expr, hexpr, hc⟩)
  induction expr with
  | constant c => simp only [rename, h c (List.mem_singleton_self c)]
  | parameter param => simp only [rename]
  | new cls args ih => simp only [rename, all ih h]
  | field target name ih | unary op operand ih | lambda params body ih => simp only [rename, ih h]
  | binary op left right ihl ihr =>
    rw [parts, List.forall_mem_append] at h
    simp only [rename, ihl h.1, ihr h.2]
  | conditional test yes no iht ihy ihn =>
    rw [parts, List.forall_mem_append, List.forall_mem_append] at h
    simp only [rename, iht h.1.1, ihy h.1.2, ihn h.2]
  | invoke target args iht _ ih =>
    rw [parts, List.forall_mem_append] at h
    simp only [rename, iht h.1, all ih h.2]
  | extension node operands reduction ih ihr =>
    cases reduction with
    | none =>
      rw [parts, List.forall_mem_append] at h
      simp only [rename, renameReduction, ExtensionNode.rename_eq_self h.1, all ih h.2]
    | some reduced =>
      rw [parts, List.forall_mem_append, List.forall_mem_append] at h
      simp only [rename, renameReduction, ExtensionNode.rename_eq_self h.1.1, all ih h.1.2,
        ihr reduced rfl h.2]

/-- Code stays if its literals do. -/
theorem Code.rename_eq_self {code : Code Value} (h : ∀ c ∈ code.literals, c.rename ρ = c) :
    code.rename ρ = code := by
  have all : ∀ {codes : List (Code Value)},
      (∀ code ∈ codes, (∀ c ∈ code.literals, c.rename ρ = c) → code.rename ρ = code) →
      (∀ c ∈ literalsOfAll codes, c.rename ρ = c) → Code.renameAll ρ codes = codes := fun ih h => by
    rw [renameAll_eq_map]
    exact map_eq_self fun code hcode =>
      ih code hcode fun c hc => h c (mem_literalsOfAll.2 ⟨code, hcode, hc⟩)
  induction code with
  | literal c | embedded c => simp only [rename, h c (List.mem_singleton_self c)]
  | pooled | slot => simp only [rename]
  | construct cls args ih | instantiate cls args ih => simp only [rename, all ih h]
  | fieldAt target index name ih | field target name ih | unary op operand ih
  | closure params captures body ih => simp only [rename, ih h]
  | shortCircuit op left right ihl ihr | arithmetic op left right ihl ihr
  | binary op left right ihl ihr =>
    rw [literals, List.forall_mem_append] at h
    simp only [rename, ihl h.1, ihr h.2]
  | conditional test yes no iht ihy ihn =>
    rw [literals, List.forall_mem_append, List.forall_mem_append] at h
    simp only [rename, iht h.1.1, ihy h.1.2, ihn h.2]
  | invoke target args iht ih =>
    rw [literals, List.forall_mem_append] at h
    simp only [rename, iht h.1, all ih h.2]

/-- An environment stays if its values do. -/
theorem Env.rename_eq_self {env : Env Value}
    (h : ∀ value ∈ Env.values env, value.rename ρ = value) : Env.rename ρ env = env := by
  rw [rename_eq_map]
  refine map_eq_self fun frame hframe => ?_
  rw [Frame.rename_eq_map]
  refine map_eq_self fun binding hbinding => ?_
  rw [h binding.2 (mem_values hframe hbinding)]

/-- A function stays if all that it holds does. -/
theorem Callable.rename_eq_self {callable : Callable Value}
    (h : ∀ part ∈ callable.parts, part.rename ρ = part) : callable.rename ρ = callable := by
  cases callable with
  | interpreted params body env =>
    rw [parts, List.forall_mem_append] at h
    simp only [rename, Expr.rename_eq_self h.1, Env.rename_eq_self h.2]
  | compiled params body captured constants =>
    rw [parts, List.forall_mem_append, List.forall_mem_append] at h
    simp only [rename, Code.rename_eq_self h.1.1, Value.renameAll_eq_self h.1.2,
      Value.renameAll_eq_self h.2]
  | native name arity host => rw [rename, HostFunction.rename_eq_self h]

/-- **A value whose ids all stay is not changed.** -/
theorem Value.rename_eq_self {value : Value} (h : value.All ρ.Fixes) : value.rename ρ = value := by
  induction value using inductionOnParts with
  | step value ih =>
    have ih : ∀ part ∈ value.parts, part.rename ρ = part := fun part hpart =>
      ih part hpart (h.part hpart)
    cases value with
    | none | bool | number | string => simp only [rename]
    | object id cls fields =>
      have hid : ρ.object id = id := h.self
      have ih : ∀ field ∈ fields, field.rename ρ = field := ih
      rw [rename, hid, renameAll_eq_self ih]
    | function id callable =>
      have hid : ρ.function id = id := h.self
      rw [rename, hid, Callable.rename_eq_self ih]

/-! ### What does not depend on ids -/

namespace Value

/-- Renaming changes no types. -/
theorem typeOf_rename (value : Value) : (value.rename ρ).typeOf = value.typeOf := by
  cases value with
  | function id callable => cases callable <;> rfl
  | _ => rfl

/-- Scalars have no id to rename. -/
theorem rename_of_isScalar {value : Value} (h : value.isScalar = true) :
    value.rename ρ = value := by
  cases value with
  | object | function => cases h
  | _ => rfl

/-- Only identity tells a value from a renamed one. -/
theorem alike_rename (value : Value) : Alike value (value.rename ρ) :=
  ⟨value.typeOf_rename.symm, rename_of_isScalar⟩

/-- Values are alike to what they are renamed to. -/
theorem forall₂_alike_rename (values : List Value) :
    List.Forall₂ Alike values (values.map (·.rename ρ)) :=
  List.forall₂_map_right_iff.2 (List.forall₂_same.2 fun value _ => value.alike_rename)

end Value

/-- Scalar results are the same under every renaming. -/
theorem map_rename_of_isScalar {result : Except RuntimeError Value}
    (h : ∀ value, result = .ok value → value.isScalar = true) :
    result.map (·.rename ρ) = result := by
  cases result with
  | error error => rfl
  | ok value => rw [Except.map, Value.rename_of_isScalar (h value rfl)]

/-! ### Fields -/

namespace Value

/-- The fields of a renamed object are the renamed fields. -/
theorem fieldOf?_rename (cls : ClassDef) (fields : List Value) (name : String) :
    fieldOf? cls (fields.map (·.rename ρ)) name = (fieldOf? cls fields name).map (·.rename ρ) := by
  unfold fieldOf?
  cases cls.fieldIndex? name with
  | none => rfl
  | some index => simp only [Option.bind_eq_bind, Option.bind_some, List.getElem?_map]

/-- Reading a field of a renamed value. -/
theorem field_rename (value : Value) (name : String) :
    (value.rename ρ).field name = (value.field name).map (·.rename ρ) := by
  cases value with
  | object id cls fields =>
    rw [rename, renameAll_eq_map, field, field, fieldOf?_rename]
    cases fieldOf? cls fields name <;> rfl
  | function id callable =>
    have halike : Alike (function id callable) ((function id callable).rename ρ) :=
      alike_rename _
    exact congrArg Except.error (RuntimeError.ofOperands_eq (.cons halike .nil) ("." ++ name)).symm
  | _ => rfl

/-- The field of a renamed object at some position is the renamed field. -/
theorem fieldAt_rename (value : Value) (index : Nat) (name : String) :
    (value.rename ρ).fieldAt index name = (value.fieldAt index name).map (·.rename ρ) := by
  cases value with
  | object id cls fields =>
    have hfield := field_rename (ρ := ρ) (.object id cls fields) name
    rw [rename, renameAll_eq_map] at hfield ⊢
    simp only [fieldAt, List.getElem?_map]
    cases fields[index]? with
    -- a position that is not there is read by name
    | none => exact hfield
    | some value => rfl
  | function id callable => exact field_rename (.function id callable) name
  | _ => rfl

end Value

/-! ### Lookup -/

/-- What is found in a renamed frame is what was found, renamed. -/
theorem Frame.lookup?_rename (frame : Frame Value) (param : Parameter) :
    Frame.lookup? (Frame.rename ρ frame) param = (frame.lookup? param).map (·.rename ρ) := by
  rw [rename_eq_map, lookup?, lookup?, List.find?_map]
  simp only [Option.map_map]
  rfl

/-- What is found in a renamed environment is what was found, renamed. -/
theorem Env.lookup?_rename (env : Env Value) (param : Parameter) :
    Env.lookup? (Env.rename ρ env) param = (env.lookup? param).map (·.rename ρ) := by
  induction env with
  | nil => rfl
  | cons frame outer ih =>
    rw [rename, lookup?, lookup?, Frame.lookup?_rename, ih]
    cases frame.lookup? param <;> rfl

/-- A parameter that is missing in an environment is missing in the renamed one. -/
theorem Env.resolve_rename (env : Env Value) (param : Parameter) :
    Env.resolve (Env.rename ρ env) param = (env.resolve param).map (·.rename ρ) := by
  rw [resolve, resolve, lookup?_rename]
  cases env.lookup? param <;> rfl

/-- Binding renamed arguments gives the renamed frame. -/
theorem Frame.rename_bind (params : List Parameter) (args : List Value) :
    Frame.rename ρ (Frame.bind params args) = Frame.bind params (args.map (·.rename ρ)) := by
  rw [rename_eq_map, bind, bind, List.zip_map_right, List.map_reverse]
  rfl

namespace Activation

/-- What compiled code reads, with the ids that `ρ` gives. -/
def rename (ρ : Renaming) (activation : Activation) : Activation :=
  ⟨activation.args.map (·.rename ρ), activation.captured.map (·.rename ρ),
    activation.constants.map (·.rename ρ)⟩

theorem entry_rename (table : List Value) (index : Nat) :
    entry (table.map (·.rename ρ)) index = (entry table index).map (·.rename ρ) := by
  rw [entry, entry, List.getElem?_map]
  cases table[index]? <;> rfl

/-- A slot of a renamed activation has the renamed value. -/
theorem read_rename (activation : Activation) (slot : Slot) :
    (activation.rename ρ).read slot = (activation.read slot).map (·.rename ρ) := by
  cases slot with
  | argument index => exact entry_rename activation.args index
  | captured index => exact entry_rename activation.captured index

/-- A closure captures renamed values there. -/
theorem capture_rename (activation : Activation) (captures : List Capture) :
    (activation.rename ρ).capture captures
      = (activation.capture captures).map (List.map (·.rename ρ)) := by
  induction captures with
  | nil => rfl
  | cons capture rest ih =>
    rw [Activation.capture, Activation.capture, read_rename, ih]
    cases activation.read capture.source with
    | error error => rfl
    | ok value => cases activation.capture rest <;> rfl

end Activation

/-! ### Equality -/

/-- No two ids of one kind get the same id. -/
structure Renaming.Injective (ρ : Renaming) : Prop where
  object : Function.Injective ρ.object
  function : Function.Injective ρ.function

/-- **Renamed values are equal if they were.** -/
theorem Value.beq_rename (hρ : ρ.Injective) (a b : Value) :
    (a.rename ρ == b.rename ρ) = (a == b) := by
  cases a with
  | object i =>
    cases b with
    | object j => exact decide_eq_decide.2 hρ.object.eq_iff
    | _ => rfl
  | function i =>
    cases b with
    | function j => exact decide_eq_decide.2 hρ.function.eq_iff
    | _ => rfl
  | _ => cases b <;> rfl

/-- Operators give the same scalars on renamed operands, and fail in the same way. -/
theorem UnaryOp.apply_rename (op : UnaryOp) (value : Value) :
    op.apply (value.rename ρ) = op.apply value :=
  (value.alike_rename.unary_eq op).symm

/-- Binary operators cannot tell renamed operands from the others. -/
theorem BinaryOp.apply_rename (hρ : ρ.Injective) (op : BinaryOp) (a b : Value) :
    op.apply (a.rename ρ) (b.rename ρ) = op.apply a b :=
  (a.alike_rename.binary_eq b.alike_rename (Value.beq_rename hρ a b).symm op).symm

/-- Arithmetic that is done directly cannot tell renamed operands from the others. -/
theorem BinaryOp.direct_rename (hρ : ρ.Injective) (op : BinaryOp) (a b : Value) :
    op.direct (a.rename ρ) (b.rename ρ) = op.direct a b :=
  (a.alike_rename.direct_eq b.alike_rename (Value.beq_rename hρ a b).symm op).symm

end ExprTree

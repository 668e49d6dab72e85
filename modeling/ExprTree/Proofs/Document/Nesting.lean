import ExprTree.Proofs.Document.Basic

namespace ExprTree

/-!
# Where expressions stand in a document

The text of an expression is made of its own brackets (`Node.frame`) and of the texts of
the expressions in it (`Node.parts`), each of which stands inside two or three of them.  So
its nesting is found part by part (`Node.nesting_le_iff`).

`Node.Holds` and `Document.Holds` say where an expression stands in another one or in a
document: inside how many brackets of the text.
-/

namespace Document

/-- Parameters are objects, which stand in an array if there are any. -/
theorem itemsNesting_namedTys (params : List NamedTy) :
    Json.itemsNesting (params.map namedTyToJson) = if params = [] then 0 else 1 := by
  have one : ∀ named : NamedTy, (namedTyToJson named).nesting = 1 := by
    intro named
    unfold namedTyToJson
    split <;> rfl
  induction params with
  | nil => rfl
  | cons named params ih =>
    rw [List.map_cons, Json.itemsNesting, ih, one, if_neg (List.cons_ne_nil named params)]
    split <;> rfl

namespace Node

/-! ### Parts -/

/-- The expressions directly in an expression, each with the number of brackets around it
    in the text of the whole. -/
def parts : Node → List (Nat × Node)
  | .literal _ | .constant _ | .parameter _ => []
  | .new _ args => args.map fun arg => (3, arg)
  | .field target _ => [(2, target)]
  | .unary _ operand => [(2, operand)]
  | .binary _ left right => [(2, left), (2, right)]
  | .conditional test yes no => [(2, test), (2, yes), (2, no)]
  | .lambda _ body => [(2, body)]
  | .invoke target args => (2, target) :: args.map fun arg => (3, arg)

/-- The nesting of the text of an expression without that of its parts.  Lists are written
    even if they are empty. -/
def frame : Node → Nat
  | .literal json => json.nesting + 1
  | .constant _ | .parameter _ => 1
  | .field .. | .unary .. | .binary .. | .conditional .. => 2
  | .new .. | .invoke .. => 3
  | .lambda params _ => if params = [] then 3 else 4

/-- The list of arguments has room if it has itself and each argument has. -/
theorem itemsNesting_allToJson_le_iff {args : List Node} {around room : Nat} :
    Json.itemsNesting (allToJson args) + around ≤ room
      ↔ around ≤ room ∧ ∀ arg ∈ args, arg.toJson.nesting + around ≤ room := by
  induction args with
  | nil => simp [allToJson, Json.itemsNesting]
  | cons arg args ih =>
    rw [allToJson, Json.itemsNesting, List.forall_mem_cons, ← Nat.add_max_add_right, Nat.max_le, ih,
      and_left_comm]

/-- **The nesting of an expression** is found part by part. -/
theorem nesting_le_iff {node : Node} {room : Nat} :
    node.toJson.nesting ≤ room
      ↔ node.frame ≤ room ∧ ∀ part ∈ node.parts, part.2.toJson.nesting + part.1 ≤ room := by
  cases node with
  | literal | constant | parameter =>
    simp [toJson, tagged, frame, parts, Json.nesting, Json.membersNesting]
  | field | unary | binary | conditional =>
    simp only [toJson, tagged, frame, parts, Json.nesting, Json.membersNesting,
      List.forall_mem_cons, List.not_mem_nil, false_implies, implies_true, and_true]
    omega
  | new cls args =>
    -- arguments stand inside three brackets: those of the node, of its content and of the list
    have hargs := @itemsNesting_allToJson_le_iff args 3 room
    simp only [toJson, tagged, frame, parts, Json.nesting, Json.membersNesting,
      List.forall_mem_map]
    rw [← hargs]
    omega
  | lambda params body =>
    -- the list of parameters has brackets of its own, and more inside if it is not empty
    simp only [toJson, tagged, lambdaJson, frame, parts, Json.nesting, Json.membersNesting,
      itemsNesting_namedTys, List.forall_mem_singleton]
    split <;> omega
  | invoke target args =>
    have hargs := @itemsNesting_allToJson_le_iff args 3 room
    simp only [toJson, tagged, frame, parts, Json.nesting, Json.membersNesting,
      List.forall_mem_cons, List.forall_mem_map]
    rw [and_left_comm, ← hargs]
    omega

/-- A literal is the expression itself or stands in a part of it. -/
theorem mem_literals {node : Node} {json : Json} (h : json ∈ node.literals) :
    node = .literal json ∨ ∃ part ∈ node.parts, json ∈ part.2.literals := by
  have mem_args : ∀ {args : List Node}, json ∈ allLiterals args →
      ∃ part ∈ args.map fun arg => (3, arg), json ∈ part.2.literals := by
    intro args h
    rw [allLiterals_eq_flatMap] at h
    obtain ⟨arg, harg, h⟩ := List.mem_flatMap.1 h
    exact ⟨(3, arg), List.mem_map_of_mem harg, h⟩
  -- each kind of node passes on the literals of its parts, and only a literal has one of its own
  cases node with
  | literal other =>
    obtain rfl := List.mem_singleton.1 h
    exact .inl rfl
  | constant | parameter => cases h
  | new cls args => exact .inr (mem_args h)
  | field target | unary _ target | lambda _ target => exact .inr ⟨(2, target), by simp [parts], h⟩
  | binary op left right =>
    rcases List.mem_append.1 h with h | h
    · exact .inr ⟨(2, left), by simp [parts], h⟩
    · exact .inr ⟨(2, right), by simp [parts], h⟩
  | conditional test yes no =>
    rcases List.mem_append.1 h with h | h
    · rcases List.mem_append.1 h with h | h
      · exact .inr ⟨(2, test), by simp [parts], h⟩
      · exact .inr ⟨(2, yes), by simp [parts], h⟩
    · exact .inr ⟨(2, no), by simp [parts], h⟩
  | invoke target args =>
    rcases List.mem_append.1 h with h | h
    · exact .inr ⟨(2, target), by simp [parts], h⟩
    · obtain ⟨part, hpart, h⟩ := mem_args h
      exact .inr ⟨part, List.mem_cons_of_mem _ hpart, h⟩

/-! ### Places -/

/-- An expression stands in another one, with so many brackets of its text around it. -/
inductive Holds (inner : Node) : Nat → Node → Prop
  | here : Holds inner 0 inner
  | inside {node : Node} {part : Nat × Node} {around : Nat} :
      part ∈ node.parts → Holds inner around part.2 → Holds inner (around + part.1) node

end Node

/-- The expressions directly in a document, with the brackets around each. -/
def parts (document : Document) : List (Nat × Node) :=
  document.constants.map (fun constant => (3, constant.value)) ++ [(2, document.lambda.body)]

/-- An expression stands in a document, with so many brackets of its text around it. -/
def Holds (inner : Node) (around : Nat) (document : Document) : Prop :=
  ∃ part ∈ document.parts, ∃ between, around = between + part.1 ∧ Node.Holds inner between part.2

end Document

end ExprTree

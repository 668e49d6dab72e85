import ExprTree.Document.Writer
import ExprTree.Proofs.Json.Basic

namespace ExprTree

/-!
# The literals of a document

All that a document leaves to JSON are its literals (`Document.literals`); the
rest of its text is made of names.  So the numbers in the JSON of a document are
those of its literals.

`Node.inductionOn` is induction over an expression, with lists of arguments taken
care of.
-/

namespace Document

/-! ### Induction -/

/-- Induction over an expression. -/
@[elab_as_elim, induction_eliminator]
theorem Node.inductionOn {motive : Node → Prop}
    (literal : ∀ json, motive (.literal json))
    (constant : ∀ name, motive (.constant name))
    (parameter : ∀ name, motive (.parameter name))
    (new : ∀ cls args, (∀ arg ∈ args, motive arg) → motive (.new cls args))
    (field : ∀ target name, motive target → motive (.field target name))
    (unary : ∀ op operand, motive operand → motive (.unary op operand))
    (binary : ∀ op left right, motive left → motive right → motive (.binary op left right))
    (conditional : ∀ test yes no, motive test → motive yes → motive no →
      motive (.conditional test yes no))
    (lambda : ∀ params body, motive body → motive (.lambda params body))
    (invoke : ∀ target args, motive target → (∀ arg ∈ args, motive arg) →
      motive (.invoke target args))
    (node : Node) : motive node :=
  @Node.rec motive (fun nodes => ∀ node ∈ nodes, motive node) literal constant parameter new field
    unary binary conditional lambda invoke nofun
    (fun _ _ first others => List.forall_mem_cons.2 ⟨first, others⟩) node

theorem Node.allToJson_eq_map (nodes : List Node) :
    Node.allToJson nodes = nodes.map Node.toJson := by
  induction nodes with
  | nil => rfl
  | cons node nodes ih => simp [Node.allToJson, ih]

/-! ### Literals -/

mutual

/-- The literals of an expression. -/
def Node.literals : Node → List Json
  | .literal json => [json]
  | .constant _ | .parameter _ => []
  | .new _ args => Node.allLiterals args
  | .field target _ => target.literals
  | .unary _ operand => operand.literals
  | .binary _ left right => left.literals ++ right.literals
  | .conditional test yes no => test.literals ++ yes.literals ++ no.literals
  | .lambda _ body => body.literals
  | .invoke target args => target.literals ++ Node.allLiterals args

/-- The literals of several expressions. -/
def Node.allLiterals : List Node → List Json
  | [] => []
  | node :: rest => node.literals ++ Node.allLiterals rest

end

theorem Node.allLiterals_eq_flatMap (nodes : List Node) :
    Node.allLiterals nodes = nodes.flatMap Node.literals := by
  induction nodes with
  | nil => rfl
  | cons node nodes ih => simp [Node.allLiterals, ih]

theorem Node.mem_allLiterals {nodes : List Node} {node : Node} (hnode : node ∈ nodes) {json : Json}
    (hjson : json ∈ node.literals) : json ∈ Node.allLiterals nodes := by
  rw [Node.allLiterals_eq_flatMap]
  exact List.mem_flatMap.2 ⟨node, hnode, hjson⟩

/-- The literals of a document. -/
def literals (document : Document) : List Json :=
  document.constants.flatMap (fun constant => constant.value.literals)
    ++ document.lambda.body.literals

/-! ### Numbers -/

theorem namedTyToJson_numbers (named : NamedTy) : (namedTyToJson named).numbers = [] := by
  unfold namedTyToJson
  split <;> rfl

/-- There are no numbers in a class: it is made of names. -/
theorem ClassDecl.toJson_numbers (cls : ClassDecl) : cls.toJson.numbers = [] := by
  simp [ClassDecl.toJson, Json.numbers, Json.membersNumbers, Json.itemsNumbers_eq_flatMap,
    List.flatMap_map, namedTyToJson_numbers]

/-- The numbers in a lambda are those of its body. -/
theorem lambdaJson_numbers (params : List NamedTy) (body : Json) :
    (lambdaJson params body).numbers = body.numbers := by
  simp [lambdaJson, Json.numbers, Json.membersNumbers, Json.itemsNumbers_eq_flatMap,
    List.flatMap_map, namedTyToJson_numbers]

/-- The tag around the content of a node holds no number. -/
theorem tagged_numbers (kind : String) (content : Json) :
    (tagged kind content).numbers = content.numbers := by
  simp [tagged, Json.numbers, Json.membersNumbers]

/-- The numbers in the JSON of an expression are those of its literals. -/
theorem Node.toJson_numbers (node : Node) :
    node.toJson.numbers = node.literals.flatMap Json.numbers := by
  have all : ∀ {args : List Node},
      (∀ arg ∈ args, arg.toJson.numbers = arg.literals.flatMap Json.numbers) →
      Json.itemsNumbers (Node.allToJson args) = (Node.allLiterals args).flatMap Json.numbers := by
    intro args ih
    rw [Node.allToJson_eq_map, Node.allLiterals_eq_flatMap, Json.itemsNumbers_eq_flatMap,
      List.flatMap_map, List.flatMap_assoc]
    exact congrArg List.flatten (List.map_congr_left ih)
  induction node with
  | literal json => simp [toJson, tagged_numbers, literals]
  | constant name | parameter name => rfl
  | new cls args ih =>
    simp [toJson, tagged_numbers, Json.numbers, Json.membersNumbers, literals, all ih]
  | field target name ih | unary op operand ih =>
    simp [toJson, tagged_numbers, Json.numbers, Json.membersNumbers, literals, ih]
  | binary op left right ihLeft ihRight =>
    simp [toJson, tagged_numbers, Json.numbers, Json.membersNumbers, literals, ihLeft, ihRight]
  | conditional test yes no ihTest ihYes ihNo =>
    simp [toJson, tagged_numbers, Json.numbers, Json.membersNumbers, literals, ihTest, ihYes, ihNo]
  | lambda params body ih => simp [toJson, tagged_numbers, lambdaJson_numbers, literals, ih]
  | invoke target args ihTarget ihArgs =>
    simp [toJson, tagged_numbers, Json.numbers, Json.membersNumbers, literals, ihTarget, all ihArgs]

/-- The numbers in the JSON of a document are those of its literals. -/
theorem toJson_numbers (document : Document) :
    document.toJson.numbers = document.literals.flatMap Json.numbers := by
  simp [toJson, ClassDecl.toJson_numbers, ConstantDecl.toJson, LambdaDecl.toJson,
    lambdaJson_numbers, Node.toJson_numbers, Json.numbers, Json.membersNumbers,
    Json.itemsNumbers_eq_flatMap, List.flatMap_map, List.flatMap_assoc, literals]

end Document

end ExprTree

import ExprTree.Document.Reader
import ExprTree.Proofs.Document.Basic
import ExprTree.Proofs.Json.Raw

namespace ExprTree

/-!
# Documents survive being written and read

Each part of a document has a reader that gets it back from its JSON, if there is
room for the brackets of that JSON.
-/

namespace Document

open RawJson (ofJson)

/-! ### Lists -/

/-- A list is read back if each item is. -/
theorem mapM_map_eq_some {α : Type} {element? : RawJson → Option α} {write : α → RawJson}
    {list : List α} (h : ∀ a ∈ list, element? (write a) = some a) :
    (list.map write).mapM element? = some list := by
  induction list with
  | nil => rfl
  | cons a list ih =>
    obtain ⟨first, others⟩ := List.forall_mem_cons.1 h
    simp [List.mapM_cons, first, ih others]

/-- A list whose elements are read back is read back. -/
theorem optionalList?_ofJson {α : Type} {element? : Nat → RawJson → Option α} {write : α → Json}
    {list : List α} {room : Nat} (hroom : (Json.array (list.map write)).nesting ≤ room)
    (h : ∀ a ∈ list, ∀ {room : Nat}, (write a).nesting ≤ room →
      element? room (ofJson (write a)) = some a) :
    optionalList? element? room (some (ofJson (.array (list.map write)))) = some list := by
  obtain ⟨room, rfl, inside⟩ := Json.exists_room_of_array hroom
  have read : (list.map fun a => ofJson (write a)).mapM (element? room) = some list :=
    mapM_map_eq_some fun a ha => h a ha (inside _ (List.mem_map_of_mem ha))
  simpa [optionalList?, items?, ofJson, RawJson.itemsOfJson_eq_map, Function.comp_def] using read

/-! ### Records -/

/-- In an object with distinct keys the members of a key are that of its lookup. -/
theorem filter_membersOfJson {members : List (String × Json)} (h : (members.map Prod.fst).Nodup)
    (key : String) :
    (RawJson.membersOfJson members).filter (fun member => member.1 == some key)
      = ((members.lookup key).map fun value => (some key, ofJson value)).toList := by
  induction members with
  | nil => rfl
  | cons member members ih =>
    obtain ⟨other, value⟩ := member
    obtain ⟨fresh, distinct⟩ := List.nodup_cons.1 h
    rw [RawJson.membersOfJson, List.filter_cons, ih distinct, List.lookup_cons]
    by_cases same : key = other
    · -- the key is found here, and its like nowhere behind
      subst same
      have absent : members.lookup key = none :=
        List.lookup_eq_none_iff.2 fun member hmember =>
          bne_iff_ne.2 fun same => fresh (List.mem_map.2 ⟨member, hmember, same.symm⟩)
      simp [absent]
    · -- the key is not here, so it is looked for behind
      have passed : (key == other) = false := beq_false_of_ne same
      have dropped : (some other == some key) = false :=
        beq_false_of_ne fun h => same (Option.some.inj h).symm
      simp [passed, dropped]

/-- A key that occurs once is found, with its value. -/
theorem member?_membersOfJson {members : List (String × Json)}
    (h : (members.map Prod.fst).Nodup) (key : String) :
    member? (RawJson.membersOfJson members) key = some ((members.lookup key).map ofJson) := by
  rw [member?, filter_membersOfJson h]
  cases members.lookup key <;> rfl

/-- A record is read from an object with distinct keys by looking its fields up. -/
theorem record?_ofJson {members : List (String × Json)} (h : (members.map Prod.fst).Nodup)
    (names : List String) :
    record? names (ofJson (.object members))
      = some (names.map fun name => (members.lookup name).map ofJson) := by
  have keys : (RawJson.membersOfJson members).all (fun member => member.1.isSome) := by
    clear h
    induction members with
    | nil => rfl
    | cons member members ih => simpa [RawJson.membersOfJson] using ih
  rw [ofJson, record?, if_pos keys, funext (member?_membersOfJson h)]
  exact List.mapM_pure

theorem string?_ofJson (s : String) : string? (ofJson (.string s)) = some s := rfl

theorem optionalString?_ofJson (s : String) :
    optionalString? (some (ofJson (.string s))) = some (some s) := rfl

theorem operator?_ofJson {α : Type} {ofName? : String → Option α} {name : String} {op : α}
    (h : ofName? name = some op) (room : Nat) :
    operator? ofName? room (ofJson (.string name)) = some op := h

/-! ### Declarations -/

/-- A name with a type is read back: a type that is left out is not written. -/
theorem namedTy?_ofJson (named : NamedTy) {room : Nat}
    (h : (namedTyToJson named).nesting ≤ room) :
    namedTy? room (ofJson (namedTyToJson named)) = some named := by
  obtain ⟨name, ty⟩ := named
  cases ty with
  | none =>
    obtain ⟨room, rfl, -⟩ := Json.exists_room_of_object h
    simp [namedTyToJson, namedTy?, record?_ofJson, List.lookup_cons, string?_ofJson,
      optionalString?]
  | some ty =>
    obtain ⟨room, rfl, -⟩ := Json.exists_room_of_object h
    simp [namedTyToJson, namedTy?, record?_ofJson, List.lookup_cons, string?_ofJson,
      optionalString?_ofJson]

/-- A class is read back. -/
theorem ClassDecl.ofRaw?_ofJson (cls : ClassDecl) {room : Nat} (h : cls.toJson.nesting ≤ room) :
    ClassDecl.ofRaw? room (ofJson cls.toJson) = some cls := by
  obtain ⟨room, rfl, inside⟩ := Json.exists_room_of_object h
  have fields : optionalList? namedTy? room (some (ofJson (.array (cls.fields.map namedTyToJson))))
      = some cls.fields :=
    optionalList?_ofJson (inside ("fields", _) (by simp)) fun named _ _ => namedTy?_ofJson named
  simp [ClassDecl.toJson, ClassDecl.ofRaw?, record?_ofJson, List.lookup_cons, string?_ofJson,
    fields]

/-! ### Reading records

The keys of these records are known, so reading them is computation. -/

section

variable (room : Nat)

/-- How a lambda is read from its JSON, whatever is written for its body. -/
theorem LambdaDecl.ofRaw?_lambdaJson (params : List NamedTy) (body : Json) :
    LambdaDecl.ofRaw? (room + 1) (ofJson (lambdaJson params body))
      = (optionalList? namedTy? room (some (ofJson (.array (params.map namedTyToJson))))).bind
          fun params => (Node.ofRaw? room (ofJson body)).map (LambdaDecl.mk params) := by
  simp only [Option.map_eq_bind]
  rfl

/-- A constant is read from the two members of its object. -/
theorem ConstantDecl.ofRaw?_object (name : String) (value : Json) :
    ConstantDecl.ofRaw? (room + 1) (ofJson (.object [("name", .string name), ("value", value)]))
      = (Node.ofRaw? room (ofJson value)).map (ConstantDecl.mk name) := by
  rw [Option.map_eq_bind]
  rfl

namespace Node

/-- A node for a lambda is read from what it is tagged with. -/
theorem ofRaw?_lambda (content : Json) :
    ofRaw? (room + 1) (ofJson (tagged "lambda" content))
      = (LambdaDecl.ofRaw? room (ofJson content)).map
          fun lambda => .lambda lambda.params lambda.body := by
  rw [Option.map_eq_bind]
  rfl

/-- A constructor call is read from its class and its arguments, two brackets further in. -/
theorem ofRaw?_new (cls : String) (args : Json) :
    ofRaw? (room + 2) (ofJson (tagged "new" (.object [("class", .string cls), ("args", args)])))
      = (listOfRaw? room (some (ofJson args))).map (new cls) := by
  rw [Option.map_eq_bind]
  rfl

/-- A field is read from its object and its name. -/
theorem ofRaw?_field (target : Json) (name : String) :
    ofRaw? (room + 2) (ofJson (tagged "field" (.object [("of", target), ("name", .string name)])))
      = (ofRaw? room (ofJson target)).map fun target => field target name := by
  rw [Option.map_eq_bind]
  rfl

/-- A unary operator is read from its name and its operand. -/
theorem ofRaw?_unary (op : UnaryOp) (operand : Json) :
    ofRaw? (room + 2)
        (ofJson (tagged "unary" (.object [("op", .string op.name), ("operand", operand)])))
      = (ofRaw? room (ofJson operand)).map (unary op) := by
  rw [Option.map_eq_bind]
  show (operator? UnaryOp.ofName? room (ofJson (.string op.name))).bind _ = _
  rw [operator?_ofJson op.ofName?_name]
  rfl

/-- A binary operator is read from its name and its operands, from the left. -/
theorem ofRaw?_binary (op : BinaryOp) (left right : Json) :
    ofRaw? (room + 2) (ofJson (tagged "binary"
        (.object [("op", .string op.name), ("left", left), ("right", right)])))
      = (ofRaw? room (ofJson left)).bind fun left =>
          (ofRaw? room (ofJson right)).map (binary op left) := by
  simp only [Option.map_eq_bind]
  show (operator? BinaryOp.ofName? room (ofJson (.string op.name))).bind _ = _
  rw [operator?_ofJson op.ofName?_name]
  rfl

/-- A conditional is read from its condition and its branches. -/
theorem ofRaw?_if (test yes no : Json) :
    ofRaw? (room + 2)
        (ofJson (tagged "if" (.object [("test", test), ("then", yes), ("else", no)])))
      = (ofRaw? room (ofJson test)).bind fun test => (ofRaw? room (ofJson yes)).bind fun yes =>
          (ofRaw? room (ofJson no)).map (conditional test yes) := by
  simp only [Option.map_eq_bind]
  rfl

/-- An invocation is read from its function and its arguments. -/
theorem ofRaw?_invoke (target args : Json) :
    ofRaw? (room + 2) (ofJson (tagged "invoke" (.object [("target", target), ("args", args)])))
      = (ofRaw? room (ofJson target)).bind fun target =>
          (listOfRaw? room (some (ofJson args))).map (invoke target) := by
  simp only [Option.map_eq_bind]
  rfl

end Node

end

/-! ### Expressions -/

/-- Inside a tag there is one bracket less of room. -/
theorem exists_room_of_tagged {kind : String} {content : Json} {room : Nat}
    (h : (tagged kind content).nesting ≤ room) :
    ∃ inner, room = inner + 1 ∧ content.nesting ≤ inner := by
  obtain ⟨inner, rfl, inside⟩ := Json.exists_room_of_object h
  exact ⟨inner, rfl, inside (kind, content) List.mem_cons_self⟩

/-- Inside a tagged object there are two brackets less of room. -/
theorem exists_room_of_record {kind : String} {members : List (String × Json)} {room : Nat}
    (h : (tagged kind (.object members)).nesting ≤ room) :
    ∃ inner, room = inner + 2 ∧ ∀ member ∈ members, member.2.nesting ≤ inner := by
  obtain ⟨outer, rfl, content⟩ := exists_room_of_tagged h
  obtain ⟨inner, rfl, inside⟩ := Json.exists_room_of_object content
  exact ⟨inner, rfl, inside⟩

/-- An expression that is read from its JSON wherever there is room for it. -/
def Node.IsRead (node : Node) : Prop :=
  ∀ {room : Nat}, node.toJson.nesting ≤ room → Node.ofRaw? room (ofJson node.toJson) = some node

theorem Node.listOfRaw?_eq (room : Nat) (raw : Option RawJson) :
    Node.listOfRaw? room raw = optionalList? Node.ofRaw? room raw := by
  cases room <;> cases raw <;> rfl

/-- Arguments are read back if each of them is. -/
theorem Node.listOfRaw?_ofJson {nodes : List Node} (h : ∀ node ∈ nodes, node.IsRead) {room : Nat}
    (hroom : (Json.array (Node.allToJson nodes)).nesting ≤ room) :
    Node.listOfRaw? room (some (ofJson (.array (Node.allToJson nodes)))) = some nodes := by
  rw [Node.allToJson_eq_map] at hroom ⊢
  rw [Node.listOfRaw?_eq]
  exact optionalList?_ofJson hroom h

/-- A lambda is read back if its body is. -/
theorem LambdaDecl.ofRaw?_of_isRead {params : List NamedTy} {body : Node} (hbody : body.IsRead)
    {room : Nat} (h : (lambdaJson params body.toJson).nesting ≤ room) :
    LambdaDecl.ofRaw? room (ofJson (lambdaJson params body.toJson)) = some ⟨params, body⟩ := by
  obtain ⟨room, rfl, inside⟩ := Json.exists_room_of_object h
  have names : optionalList? namedTy? room (some (ofJson (.array (params.map namedTyToJson))))
      = some params :=
    optionalList?_ofJson (inside ("params", _) (by simp)) fun named _ _ => namedTy?_ofJson named
  have read := hbody (inside ("body", _) (by simp))
  rw [ofRaw?_lambdaJson, names, read]
  rfl

/-- An expression is read from its JSON if its literals are values of a text. -/
theorem Node.isRead {node : Node} (values : ∀ json ∈ node.literals, json.IsValue) :
    node.IsRead := by
  intro room h
  -- a record stands in two brackets, that of its kind and its own
  induction node generalizing room with
  | literal json =>
    obtain ⟨room, rfl, content⟩ := exists_room_of_tagged h
    have read := (values json List.mem_cons_self).toJson?_ofJson content
    simp [toJson, tagged, ofJson, RawJson.membersOfJson, ofRaw?, read]
  | constant name | parameter name =>
    obtain ⟨room, rfl, -⟩ := exists_room_of_tagged h
    rfl
  | new cls args ih =>
    obtain ⟨room, rfl, inside⟩ := exists_room_of_record h
    have all : ∀ arg ∈ args, arg.IsRead := fun arg harg =>
      ih arg harg fun json hjson => values json (Node.mem_allLiterals harg hjson)
    have readArgs := Node.listOfRaw?_ofJson all (inside ("args", _) (by simp))
    rw [toJson, ofRaw?_new, readArgs, Option.map_some]
  | field target name ih =>
    obtain ⟨room, rfl, inside⟩ := exists_room_of_record h
    have readTarget := ih values (inside ("of", _) (by simp))
    rw [toJson, ofRaw?_field, readTarget, Option.map_some]
  | unary op operand ih =>
    obtain ⟨room, rfl, inside⟩ := exists_room_of_record h
    have readOperand := ih values (inside ("operand", _) (by simp))
    rw [toJson, ofRaw?_unary, readOperand, Option.map_some]
  | binary op left right ihLeft ihRight =>
    obtain ⟨room, rfl, inside⟩ := exists_room_of_record h
    obtain ⟨inLeft, inRight⟩ := List.forall_mem_append.1 values
    have readLeft := ihLeft inLeft (inside ("left", _) (by simp))
    have readRight := ihRight inRight (inside ("right", _) (by simp))
    rw [toJson, ofRaw?_binary, readLeft, Option.bind_some, readRight, Option.map_some]
  | conditional test yes no ihTest ihYes ihNo =>
    obtain ⟨room, rfl, inside⟩ := exists_room_of_record h
    obtain ⟨inBoth, inNo⟩ := List.forall_mem_append.1 values
    obtain ⟨inTest, inYes⟩ := List.forall_mem_append.1 inBoth
    have readTest := ihTest inTest (inside ("test", _) (by simp))
    have readYes := ihYes inYes (inside ("then", _) (by simp))
    have readNo := ihNo inNo (inside ("else", _) (by simp))
    rw [toJson, ofRaw?_if, readTest, Option.bind_some, readYes, Option.bind_some, readNo,
      Option.map_some]
  | lambda params body ih =>
    obtain ⟨room, rfl, content⟩ := exists_room_of_tagged h
    rw [toJson, ofRaw?_lambda, LambdaDecl.ofRaw?_of_isRead (ih values) content, Option.map_some]
  | invoke target args ihTarget ihArgs =>
    obtain ⟨room, rfl, inside⟩ := exists_room_of_record h
    obtain ⟨inTarget, inArgs⟩ := List.forall_mem_append.1 values
    have all : ∀ arg ∈ args, arg.IsRead := fun arg harg =>
      ihArgs arg harg fun json hjson => inArgs json (Node.mem_allLiterals harg hjson)
    have readTarget := ihTarget inTarget (inside ("target", _) (by simp))
    have readArgs := Node.listOfRaw?_ofJson all (inside ("args", _) (by simp))
    rw [toJson, ofRaw?_invoke, readTarget, Option.bind_some, readArgs, Option.map_some]

/-! ### Documents -/

/-- A constant is read back if its value is. -/
theorem ConstantDecl.ofRaw?_ofJson {constant : ConstantDecl} (hvalue : constant.value.IsRead)
    {room : Nat} (h : constant.toJson.nesting ≤ room) :
    ConstantDecl.ofRaw? room (ofJson constant.toJson) = some constant := by
  obtain ⟨room, rfl, inside⟩ := Json.exists_room_of_object h
  have read := hvalue (inside ("value", _) (by simp))
  rw [ConstantDecl.toJson, ofRaw?_object, read, Option.map_some]

/-- A document is read back if there is room for it: its three members have one bracket
    around them. -/
theorem ofRaw?_ofJson {document : Document} (values : ∀ json ∈ document.literals, json.IsValue)
    {room : Nat} (h : document.toJson.nesting ≤ room) :
    ofRaw? room (ofJson document.toJson) = some document := by
  obtain ⟨inConstants, inLambda⟩ := List.forall_mem_append.1 values
  obtain ⟨room, rfl, inside⟩ := Json.exists_room_of_object h
  have classes : optionalList? ClassDecl.ofRaw? room
      (some (ofJson (.array (document.classes.map ClassDecl.toJson)))) = some document.classes :=
    optionalList?_ofJson (inside ("classes", _) (by simp)) fun cls _ _ => cls.ofRaw?_ofJson
  have constants : optionalList? ConstantDecl.ofRaw? room
      (some (ofJson (.array (document.constants.map ConstantDecl.toJson))))
      = some document.constants :=
    optionalList?_ofJson (inside ("constants", _) (by simp)) fun constant hconstant _ =>
      ConstantDecl.ofRaw?_ofJson <| Node.isRead fun json hjson =>
        inConstants json (List.mem_flatMap.2 ⟨constant, hconstant, hjson⟩)
  -- the lambda stands in no list
  have lambda : LambdaDecl.ofRaw? room (ofJson document.lambda.toJson) = some document.lambda :=
    LambdaDecl.ofRaw?_of_isRead (Node.isRead inLambda)
      (inside ("lambda", document.lambda.toJson) (by simp))
  simp [toJson, ofRaw?, record?_ofJson, List.lookup_cons, classes, constants, lambda]

/-- The text of a document is read as that document: if at most `jsonRoom` brackets
    stand around one another in it, the literals are JSON values as texts have them,
    and their doubles are read as they were printed. -/
theorem parse?_text {document : Document} (nesting : document.toJson.nesting ≤ jsonRoom)
    (values : ∀ json ∈ document.literals, json.IsValue)
    (reads : ∀ json ∈ document.literals, ∀ x, .double x ∈ json.numbers → ReadsBack x) :
    parse? document.text = some document := by
  have readable : ∀ n ∈ document.toJson.numbers, n.Readable := by
    intro n hn
    rw [toJson_numbers] at hn
    obtain ⟨json, hjson, hn⟩ := List.mem_flatMap.1 hn
    exact (values json hjson).readable (reads json hjson) n hn
  rw [parse?, text, RawJson.parse?_eq_ofJson readable]
  exact ofRaw?_ofJson values nesting

/-- The digits of one half are read back as one half. -/
theorem readsBack_half : ReadsBack 0.5 := by
  have chars : (JsonNumber.double 0.5).chars = ['0', '.', '5'] := by decide +kernel
  have quotient : Float.ofNat 5 / powerOfTen 1 = 0.5 := by decide +kernel
  have value : Numeral.value? ⟨false, ['0'], some ['5'], none⟩ = some (.double 0.5) := by
    show some (JsonNumber.double (divideByPower (Float.ofNat 5) 1)) = _
    rw [divideByPower, if_neg (by decide), quotient]
  have numeral : ∀ c ∈ (JsonNumber.double 0.5).chars, isNumeralChar c := by
    rw [chars]
    simp [isNumeralChar]
  refine readsBack_iff.2 ⟨numeral, ?_⟩
  rw [chars]
  show some (JsonToken.number (Numeral.value? ⟨false, ['0'], some ['5'], none⟩), []) = _
  rw [value]

/-- A document with a class, literals of several kinds and a lambda that halves a number. -/
def halving : Document where
  classes := [⟨"Länge", [⟨"value", some "number"⟩, ⟨"unit", none⟩]⟩]
  constants := [⟨"half", .literal (.number (.double 0.5))⟩,
    ⟨"note", .literal (.object [("least", .number (.integer (-1))), ("most", .array [])])⟩]
  lambda := ⟨[⟨"x", none⟩], .binary .mul (.parameter "x") (.constant "half")⟩

/-- A document with a fraction, an object and a list as literals survives. -/
theorem parse?_text_halving :
    halving.toJson.nesting ≤ jsonRoom ∧ (∀ json ∈ halving.literals, json.IsValue) ∧
      (∀ json ∈ halving.literals, ∀ x, .double x ∈ json.numbers → ReadsBack x) ∧
      parse? halving.text = some halving := by
  have nesting : halving.toJson.nesting ≤ jsonRoom := by decide
  have values : ∀ json ∈ halving.literals, json.IsValue := by
    refine List.forall_mem_cons.2 ⟨.number trivial, List.forall_mem_singleton.2 ?_⟩
    refine .object (by decide) (List.forall_mem_cons.2 ⟨?_, List.forall_mem_singleton.2 ?_⟩)
    · exact .number ⟨by decide, by decide⟩
    · exact .array nofun
  have reads : ∀ json ∈ halving.literals, ∀ x, .double x ∈ json.numbers → ReadsBack x := by
    refine List.forall_mem_cons.2 ⟨fun x hx => ?_, List.forall_mem_singleton.2 fun x hx => ?_⟩
    · cases List.mem_singleton.1 hx
      exact readsBack_half
    · cases List.mem_singleton.1 hx
  exact ⟨nesting, values, reads, parse?_text nesting values reads⟩

end Document

end ExprTree

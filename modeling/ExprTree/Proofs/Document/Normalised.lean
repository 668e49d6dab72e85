import ExprTree.Proofs.Document.Parsed
import ExprTree.Proofs.Number

namespace ExprTree

/-!
# Documents survive being normalised

To normalise a text is to read a document and to write it again.  The text that is written
may have more brackets than the one that was read, since lists are written even where
they were left out; so reading it again could run out of room.

* `Document.toJson_nesting_le` — how far a written document is nested, part by part;
* `Node.exists_of_ofJson` — the converse of reading what was written: a part needs the
  room that is left inside the brackets around it;
* `Document.parse?_text_of_parse?` — a text that was written is read as the document
  that was written, and normalising it changes nothing.  The exception is a document
  that is `Document.Cramped`: there a list that was left out has no room, and the text
  that is written for the document is no document.
-/

/-! ### Equality -/

namespace Json

/-- A value equals itself if its doubles do. -/
theorem beq_self_of_numbers {json : Json}
    (h : ∀ x, .double x ∈ json.numbers → (x == x) = true) : (json == json) = true := by
  show json.beq json = true
  induction json with
  | null => rfl
  | bool b => exact beq_self_eq_true b
  | string s => exact beq_self_eq_true s
  | number n =>
    cases n with
    | integer n => exact beq_self_eq_true n
    -- a double is the only kind of value that may differ from itself
    | double x => exact h x List.mem_cons_self
  | array items ih =>
    rw [Json.beq]
    induction items with
    | nil => rfl
    | cons item items ihItems =>
      obtain ⟨first, others⟩ := List.forall_mem_cons.1 ih
      have hfirst := first fun x hx => h x (List.mem_append_left _ hx)
      have hothers := ihItems others fun x hx => h x (List.mem_append_right _ hx)
      rw [Json.itemsBeq, hfirst, hothers, Bool.and_true]
  | object members ih =>
    rw [Json.beq]
    induction members with
    | nil => rfl
    | cons member members ihMembers =>
      obtain ⟨first, others⟩ := List.forall_mem_cons.1 ih
      have hfirst := first fun x hx => h x (List.mem_append_left _ hx)
      have hothers := ihMembers others fun x hx => h x (List.mem_append_right _ hx)
      rw [Json.membersBeq, beq_self_eq_true, hfirst, hothers, Bool.and_true, Bool.and_true]

end Json

/-- A double that reads back is finite, and so equals itself. -/
theorem ReadsBack.beq_self {x : Float} (h : ReadsBack x) : (x == x) = true := by
  obtain ⟨s, hs⟩ := h.exists_scaled
  have hself : (x == x) = !x.isNaN := Number.beq_self ⟨x⟩
  rw [hself, Scaled.isNaN_eq_false hs, Bool.not_false]

namespace Document

open RawJson (ofJson)

/-- An expression equals itself if its literals do. -/
theorem Node.beq_self_of_literals {node : Node}
    (h : ∀ json ∈ node.literals, (json == json) = true) : (node == node) = true := by
  have all : ∀ {args : List Node},
      (∀ arg ∈ args, (∀ json ∈ arg.literals, (json == json) = true) → arg.beq arg = true) →
      (∀ json ∈ allLiterals args, (json == json) = true) → Node.beqAll args args = true := by
    intro args ih h
    induction args with
    | nil => rfl
    | cons arg args ihArgs =>
      obtain ⟨first, others⟩ := List.forall_mem_cons.1 ih
      obtain ⟨inFirst, inOthers⟩ := List.forall_mem_append.1 h
      rw [Node.beqAll, first inFirst, ihArgs others inOthers, Bool.and_true]
  -- names and operators equal themselves, so only literals are left
  show node.beq node = true
  induction node with
  | literal json => exact h json List.mem_cons_self
  | constant name | parameter name => exact beq_self_eq_true name
  | new cls args ih => rw [Node.beq, beq_self_eq_true, all ih h, Bool.and_true]
  | field target name ih => rw [Node.beq, ih h, beq_self_eq_true, Bool.and_true]
  | unary op operand ih => rw [Node.beq, ih h, beq_self_eq_true, Bool.and_true]
  | binary op left right ihLeft ihRight =>
    obtain ⟨inLeft, inRight⟩ := List.forall_mem_append.1 h
    rw [Node.beq, ihLeft inLeft, ihRight inRight, beq_self_eq_true, Bool.and_true, Bool.and_true]
  | conditional test yes no ihTest ihYes ihNo =>
    obtain ⟨inBoth, inNo⟩ := List.forall_mem_append.1 h
    obtain ⟨inTest, inYes⟩ := List.forall_mem_append.1 inBoth
    rw [Node.beq, ihTest inTest, ihYes inYes, ihNo inNo, Bool.and_true, Bool.and_true]
  | lambda params body ih => rw [Node.beq, ih h, beq_self_eq_true, Bool.and_true]
  | invoke target args ihTarget ihArgs =>
    obtain ⟨inTarget, inArgs⟩ := List.forall_mem_append.1 h
    rw [Node.beq, ihTarget inTarget, all ihArgs inArgs, Bool.and_true]

/-- A document equals itself if its literals do. -/
theorem beq_self_of_literals {document : Document}
    (h : ∀ json ∈ document.literals, (json == json) = true) : (document == document) = true := by
  have all : ∀ {constants : List ConstantDecl},
      (∀ json ∈ constants.flatMap (fun constant => constant.value.literals),
        (json == json) = true) →
      (constants == constants) = true := by
    intro constants h
    induction constants with
    | nil => rfl
    | cons constant constants ih =>
      obtain ⟨inFirst, inOthers⟩ := List.forall_mem_append.1 h
      have hvalue : (constant.value == constant.value) = true := Node.beq_self_of_literals inFirst
      have hfirst : (constant == constant) = true := by
        show (constant.name == constant.name && constant.value == constant.value) = true
        rw [beq_self_eq_true, hvalue, Bool.and_true]
      rw [List.cons_beq_cons, hfirst, ih inOthers, Bool.and_true]
  obtain ⟨classes, constants, lambda⟩ := document
  obtain ⟨inConstants, inLambda⟩ := List.forall_mem_append.1 h
  have hbody : (lambda.body == lambda.body) = true := Node.beq_self_of_literals inLambda
  show (classes == classes && constants == constants
    && (lambda.params == lambda.params && lambda.body == lambda.body)) = true
  rw [beq_self_eq_true, all inConstants, beq_self_eq_true, hbody]
  rfl

/-! ### Room for what is written -/

/-- A list that is written has room if each item that is written has. -/
theorem itemsNesting_map_le {α : Type} {write : α → Json} {list : List α} {room : Nat}
    (h : ∀ a ∈ list, (write a).nesting ≤ room) : Json.itemsNesting (list.map write) ≤ room :=
  Json.itemsNesting_le_iff.2 (List.forall_mem_map.2 h)

/-- A class is nested three deep at most: its own bracket, that of its fields, and those of
    the fields. -/
theorem ClassDecl.toJson_nesting_le (cls : ClassDecl) : cls.toJson.nesting ≤ 3 := by
  have hfields : Json.itemsNesting (cls.fields.map namedTyToJson) ≤ 1 := by
    rw [itemsNesting_namedTys]
    split <;> decide
  simp only [ClassDecl.toJson, Json.nesting, Json.membersNesting]
  omega

/-- **Room for a document** is room for its classes and for its parts. -/
theorem toJson_nesting_le {document : Document} {room : Nat} (hroom : 5 ≤ room)
    (h : ∀ part ∈ document.parts, part.2.toJson.nesting + part.1 ≤ room) :
    document.toJson.nesting ≤ room := by
  obtain ⟨classes, constants, params, body⟩ := document
  -- what is not an expression is nested five deep at most, and each expression has its room
  obtain ⟨inConstants, inLambda⟩ := List.forall_mem_append.1 h
  have hclasses : Json.itemsNesting (classes.map ClassDecl.toJson) ≤ room - 2 :=
    itemsNesting_map_le fun cls _ => Nat.le_trans cls.toJson_nesting_le (by omega)
  have hconstants : Json.itemsNesting (constants.map ConstantDecl.toJson) ≤ room - 2 := by
    refine itemsNesting_map_le fun constant hconstant => ?_
    have hvalue : constant.value.toJson.nesting + 3 ≤ room :=
      inConstants _ (List.mem_map_of_mem hconstant)
    simp only [ConstantDecl.toJson, Json.nesting, Json.membersNesting]
    omega
  have hparams : Json.itemsNesting (params.map namedTyToJson) ≤ 1 := by
    rw [itemsNesting_namedTys]
    split <;> decide
  have hbody : body.toJson.nesting + 2 ≤ room := inLambda _ List.mem_cons_self
  simp only [toJson, LambdaDecl.toJson, lambdaJson, Json.nesting, Json.membersNesting]
  omega

/-! ### Reading what is written -/

/-- The elements of a written list are read in the room that its bracket leaves. -/
theorem exists_of_optionalList?_ofJson {α β : Type} {element? : Nat → RawJson → Option β}
    {write : α → Json} {list : List α} {others : List β} {room : Nat}
    (h : optionalList? element? room (some (ofJson (.array (list.map write)))) = some others) :
    ∃ inner, room = inner + 1 ∧ ∀ a ∈ list, ∃ b, element? inner (ofJson (write a)) = some b := by
  cases room with
  | zero => cases h
  | succ inner =>
    refine ⟨inner, rfl, ?_⟩
    have hread : (list.map fun a => ofJson (write a)).mapM (element? inner) = some others := by
      simpa [optionalList?, items?, ofJson, RawJson.itemsOfJson_eq_map, Function.comp_def] using h
    clear h
    induction list generalizing others with
    | nil => exact List.forall_mem_nil _
    | cons a list ih =>
      rw [List.map_cons, List.mapM_cons] at hread
      obtain ⟨b, hb, hread⟩ := Option.bind_eq_some_iff.1 hread
      obtain ⟨rest, hrest, -⟩ := Option.bind_eq_some_iff.1 hread
      exact List.forall_mem_cons.2 ⟨⟨b, hb⟩, ih hrest⟩

namespace Node

/-- The arguments of a written call are read in the room that their array leaves. -/
theorem exists_of_listOfRaw?_ofJson {args others : List Node} {room : Nat}
    (h : listOfRaw? room (some (ofJson (.array (allToJson args)))) = some others) :
    ∀ part ∈ args.map fun arg => (3, arg), ∃ inner other,
      room + 2 = inner + part.1 ∧ ofRaw? inner (ofJson part.2.toJson) = some other := by
  rw [listOfRaw?_eq, allToJson_eq_map] at h
  obtain ⟨inner, rfl, hargs⟩ := exists_of_optionalList?_ofJson h
  refine List.forall_mem_map.2 fun arg harg => ?_
  obtain ⟨other, hother⟩ := hargs arg harg
  exact ⟨inner, other, rfl, hother⟩

/-- The body of a written lambda is read inside its bracket. -/
theorem exists_of_lambdaJson {params : List NamedTy} {body : Node} {room : Nat}
    {other : LambdaDecl}
    (h : LambdaDecl.ofRaw? room (ofJson (lambdaJson params body.toJson)) = some other) :
    ∃ inner read, room = inner + 1 ∧ ofRaw? inner (ofJson body.toJson) = some read := by
  cases room with
  | zero => cases h
  | succ inner =>
    rw [LambdaDecl.ofRaw?_lambdaJson] at h
    obtain ⟨_, -, h⟩ := Option.bind_eq_some_iff.1 h
    obtain ⟨read, hread, -⟩ := Option.map_eq_some_iff.1 h
    exact ⟨inner, read, rfl, hread⟩

/-- What has parts is written in two brackets, that of its kind and that of a record. -/
theorem exists_room_of_parts {node other : Node} {room : Nat} {part : Nat × Node}
    (hpart : part ∈ node.parts) (h : ofRaw? room (ofJson node.toJson) = some other) :
    ∃ inner, room = inner + 2 := by
  match room with
  | 0 => cases h
  | inner + 2 => exact ⟨inner, rfl⟩
  | 1 =>
    cases node with
    | literal | constant | parameter => cases hpart
    | _ => cases h

/-- **Reading what is written** reads each part in the room that the brackets around it leave. -/
theorem exists_of_ofJson {node other : Node} {room : Nat}
    (h : ofRaw? room (ofJson node.toJson) = some other) :
    ∀ part ∈ node.parts, ∃ inner other,
      room = inner + part.1 ∧ ofRaw? inner (ofJson part.2.toJson) = some other := by
  intro part hpart
  -- a part stands inside two brackets at least, so there was room for these
  obtain ⟨room, rfl⟩ := exists_room_of_parts hpart h
  cases node with
  | literal | constant | parameter => cases hpart
  | lambda params body =>
    rw [toJson, ofRaw?_lambda] at h
    obtain ⟨lambda, hlambda, -⟩ := Option.map_eq_some_iff.1 h
    obtain ⟨inner, read, hroom, hread⟩ := exists_of_lambdaJson hlambda
    obtain rfl := List.mem_singleton.1 hpart
    exact ⟨inner, read, congrArg (· + 1) hroom, hread⟩
  | new cls args =>
    rw [toJson, ofRaw?_new] at h
    obtain ⟨reads, hargs, -⟩ := Option.map_eq_some_iff.1 h
    exact exists_of_listOfRaw?_ofJson hargs part hpart
  | field target name =>
    rw [toJson, ofRaw?_field] at h
    obtain ⟨read, hread, -⟩ := Option.map_eq_some_iff.1 h
    obtain rfl := List.mem_singleton.1 hpart
    exact ⟨room, read, rfl, hread⟩
  | unary op operand =>
    rw [toJson, ofRaw?_unary] at h
    obtain ⟨read, hread, -⟩ := Option.map_eq_some_iff.1 h
    obtain rfl := List.mem_singleton.1 hpart
    exact ⟨room, read, rfl, hread⟩
  | binary op left right =>
    rw [toJson, ofRaw?_binary] at h
    obtain ⟨readLeft, hleft, h⟩ := Option.bind_eq_some_iff.1 h
    obtain ⟨readRight, hright, -⟩ := Option.map_eq_some_iff.1 h
    simp only [parts, List.mem_cons, List.not_mem_nil, or_false] at hpart
    rcases hpart with rfl | rfl
    · exact ⟨room, readLeft, rfl, hleft⟩
    · exact ⟨room, readRight, rfl, hright⟩
  | conditional test yes no =>
    rw [toJson, ofRaw?_if] at h
    obtain ⟨readTest, htest, h⟩ := Option.bind_eq_some_iff.1 h
    obtain ⟨readYes, hyes, h⟩ := Option.bind_eq_some_iff.1 h
    obtain ⟨readNo, hno, -⟩ := Option.map_eq_some_iff.1 h
    simp only [parts, List.mem_cons, List.not_mem_nil, or_false] at hpart
    rcases hpart with rfl | rfl | rfl
    · exact ⟨room, readTest, rfl, htest⟩
    · exact ⟨room, readYes, rfl, hyes⟩
    · exact ⟨room, readNo, rfl, hno⟩
  | invoke target args =>
    rw [toJson, ofRaw?_invoke] at h
    obtain ⟨read, hread, h⟩ := Option.bind_eq_some_iff.1 h
    obtain ⟨reads, hargs, -⟩ := Option.map_eq_some_iff.1 h
    rcases List.mem_cons.1 hpart with rfl | hpart
    · exact ⟨room, read, rfl, hread⟩
    · exact exists_of_listOfRaw?_ofJson hargs part hpart

/-- What an expression holds needs the room that is left inside the brackets around it. -/
theorem Holds.exists_of_ofJson {inner node other : Node} {around room : Nat}
    (hholds : Holds inner around node) (h : ofRaw? room (ofJson node.toJson) = some other) :
    ∃ left other, room = left + around ∧ ofRaw? left (ofJson inner.toJson) = some other := by
  induction hholds generalizing room other with
  | here => exact ⟨room, other, rfl, h⟩
  | inside hpart _ ih =>
    obtain ⟨between, read, rfl, hread⟩ := Node.exists_of_ofJson h _ hpart
    obtain ⟨left, other, rfl, hother⟩ := ih hread
    exact ⟨left, other, Nat.add_assoc .., hother⟩

/-- A constructor call without arguments is not read where there is room for its own two
    brackets only, since its list is written. -/
theorem ofRaw?_new_nil (cls : String) : ofRaw? 2 (ofJson (new cls []).toJson) = none := by
  rw [toJson, ofRaw?_new]
  rfl

end Node

/-- Constants and the body of the lambda need the room that is left for them. -/
theorem exists_of_ofJson {document other : Document} {room : Nat}
    (h : ofRaw? room (ofJson document.toJson) = some other) :
    ∀ part ∈ document.parts, ∃ inner other,
      room = inner + part.1 ∧ Node.ofRaw? inner (ofJson part.2.toJson) = some other := by
  cases room with
  | zero => cases h
  | succ room =>
    simp [ofRaw?, toJson, record?_ofJson, List.lookup_cons] at h
    obtain ⟨_, -, h⟩ := Option.bind_eq_some_iff.1 h
    obtain ⟨constants, hconstants, h⟩ := Option.bind_eq_some_iff.1 h
    obtain ⟨lambda, hlambda, -⟩ := Option.bind_eq_some_iff.1 h
    -- the constants are in a list, whose bracket took one level of the room
    obtain ⟨room, rfl, hall⟩ := exists_of_optionalList?_ofJson hconstants
    intro part hpart
    rcases List.mem_append.1 hpart with hpart | hpart
    · obtain ⟨constant, hconstant, rfl⟩ := List.mem_map.1 hpart
      obtain ⟨read, hread⟩ := hall constant hconstant
      cases room with
      | zero => cases hread
      | succ room =>
        rw [ConstantDecl.toJson, ConstantDecl.ofRaw?_object] at hread
        obtain ⟨value, hvalue, -⟩ := Option.map_eq_some_iff.1 hread
        exact ⟨room, value, rfl, hvalue⟩
    · obtain rfl := List.mem_singleton.1 hpart
      obtain ⟨inner, body, same, hbody⟩ := Node.exists_of_lambdaJson hlambda
      exact ⟨inner, body, congrArg (· + 1) same, hbody⟩

/-! ### Normalising -/

/-- The text of the document that a text is of. -/
def normalise? (text : String) : Option String := (parse? text).map Document.text

/-- Writes the document that a text is of and reads it again: the text that was written,
    and whether the document is the same. -/
def roundtrip? (text : String) : Option (String × Bool) := do
  let document ← parse? text
  let again ← parse? document.text
  return (document.text, again == document)

/-- To normalise a text that is read is to read what is written for the document. -/
theorem roundtrip?_eq {text : String} {document : Document} (h : parse? text = some document) :
    roundtrip? text
      = (parse? document.text).map fun again => (document.text, again == document) := by
  rw [roundtrip?, h, Option.map_eq_bind]
  rfl

/-- A constructor call without arguments stands where there is room for its own two brackets
    only, and not for that of a list. -/
def Cramped (document : Document) : Prop :=
  ∃ cls, document.Holds (.new cls []) (jsonRoom - 2)

/-- What is written of a cramped document is no document. -/
theorem Cramped.ofRaw?_ofJson {document : Document} (h : document.Cramped) :
    ofRaw? jsonRoom (ofJson document.toJson) = none := by
  obtain ⟨cls, part, hpart, between, haround, hholds⟩ := h
  refine Option.eq_none_iff_forall_not_mem.2 fun other hread => ?_
  obtain ⟨inner, outer, hroom, houter⟩ := exists_of_ofJson hread part hpart
  obtain ⟨left, call, rfl, hcall⟩ := hholds.exists_of_ofJson houter
  -- of the brackets of a text only the last two are left for the call
  have hleft : left = 2 := by
    have hjson : jsonRoom = 127 := rfl
    omega
  rw [hleft, Node.ofRaw?_new_nil] at hcall
  cases hcall

/-- The literals of a document that was read are values of a text. -/
theorem isValue_of_ofRaw? {room : Nat} {raw : RawJson} {document : Document}
    (hrange : raw.InRange) (h : ofRaw? room raw = some document) :
    ∀ json ∈ document.literals, json.IsValue := by
  have hparts : ∀ part ∈ document.parts, ∀ json ∈ part.2.literals, json.IsValue := by
    intro part hpart
    obtain ⟨inner, value, -, hvalue, hread⟩ := exists_of_ofRaw? hrange h part hpart
    exact Node.isValue_of_ofRaw? hvalue hread
  obtain ⟨inConstants, inLambda⟩ := List.forall_mem_append.1 hparts
  refine List.forall_mem_append.2 ⟨fun json hjson => ?_, inLambda _ List.mem_cons_self⟩
  obtain ⟨constant, hconstant, hjson⟩ := List.mem_flatMap.1 hjson
  exact inConstants _ (List.mem_map_of_mem hconstant) json hjson

/-- What is written of a document that was read has room, unless the document is cramped. -/
theorem nesting_of_ofRaw? {raw : RawJson} {document : Document} (hrange : raw.InRange)
    (h : ofRaw? jsonRoom raw = some document) :
    document.toJson.nesting ≤ jsonRoom ∨ document.Cramped := by
  by_cases hfit : ∀ part ∈ document.parts, part.2.toJson.nesting + part.1 ≤ jsonRoom
  · exact .inl (toJson_nesting_le (by decide) hfit)
  · simp only [Classical.not_forall] at hfit
    obtain ⟨part, hpart, hdeep⟩ := hfit
    obtain ⟨inner, value, hroom, hvalue, hread⟩ := exists_of_ofRaw? hrange h part hpart
    rcases Node.nesting_of_ofRaw? hvalue hread with hnesting | ⟨cls, around, rfl, hholds⟩
    · exact absurd (hroom ▸ Nat.add_le_add_right hnesting part.1) hdeep
    · exact .inr ⟨cls, part, hpart, around, by omega, hholds⟩

/-- The text of a document is read as it is written, if its literals are values whose doubles
    read back. -/
theorem parse?_text_eq_ofRaw? {document : Document}
    (values : ∀ json ∈ document.literals, json.IsValue)
    (reads : ∀ json ∈ document.literals, ∀ x, .double x ∈ json.numbers → ReadsBack x) :
    parse? document.text = ofRaw? jsonRoom (ofJson document.toJson) := by
  have readable : ∀ n ∈ document.toJson.numbers, n.Readable := by
    intro n hn
    rw [toJson_numbers] at hn
    obtain ⟨json, hjson, hn⟩ := List.mem_flatMap.1 hn
    exact (values json hjson).readable (reads json hjson) n hn
  rw [parse?, text, RawJson.parse?_eq_ofJson readable]
  rfl

/-- **Normalising a document does not lose it.**  Take any text that is read as a document,
    whatever its spelling, and let the doubles in the literals read back.  Unless the document
    is cramped, the text that is written for it is read as an equal document, and normalising
    that text changes nothing.  If it is cramped, that text is not read at all. -/
theorem parse?_text_of_parse? {text : String} {document : Document}
    (h : parse? text = some document)
    (reads : ∀ json ∈ document.literals, ∀ x, .double x ∈ json.numbers → ReadsBack x) :
    (¬ document.Cramped → parse? document.text = some document
        ∧ roundtrip? text = some (document.text, true)
        ∧ (normalise? text).bind normalise? = normalise? text)
      ∧ (document.Cramped → parse? document.text = none ∧ roundtrip? text = none
        ∧ (normalise? text).bind normalise? = none) := by
  obtain ⟨raw, hraw, hdocument⟩ := Option.bind_eq_some_iff.1 h
  have hrange : raw.InRange := RawJson.inRange_of_parse? hraw
  have values : ∀ json ∈ document.literals, json.IsValue := isValue_of_ofRaw? hrange hdocument
  have again : parse? document.text = ofRaw? jsonRoom (ofJson document.toJson) :=
    parse?_text_eq_ofRaw? values reads
  have once : normalise? text = some document.text := by rw [normalise?, h, Option.map_some]
  constructor
  · intro roomy
    -- what was read had room, and so has what is written
    have nesting := (nesting_of_ofRaw? hrange hdocument).resolve_right roomy
    have same : parse? document.text = some document := again.trans (ofRaw?_ofJson values nesting)
    have equal : (document == document) = true := by
      refine beq_self_of_literals fun json hjson => Json.beq_self_of_numbers fun x hx => ?_
      exact (reads json hjson x hx).beq_self
    refine ⟨same, ?_, ?_⟩
    · rw [roundtrip?_eq h, same, Option.map_some, equal]
    · rw [once, Option.bind_some, normalise?, same, Option.map_some]
  · intro cramped
    have lost : parse? document.text = none := again.trans cramped.ofRaw?_ofJson
    refine ⟨lost, ?_, ?_⟩
    · rw [roundtrip?_eq h, lost, Option.map_none]
    · rw [once, Option.bind_some, normalise?, lost, Option.map_none]

/-- The JSON of a document in another spelling: a lambda, a parameter and a conditional are
    arrays, lists that are empty and a type are left out, and there is a member that
    documents do not have. -/
def respelled : Json :=
  .object [("note", .array [.null]),
    ("lambda", .array [.array [.array [.string "x"]],
      tagged "if" (.array [tagged "param" (.string "x"), tagged "new" (.array [.string "Q"]),
        tagged "const" (.number (.double 0.5))])])]

/-- The document that `respelled` is of. -/
def respelledDocument : Document where
  classes := []
  constants := []
  lambda := ⟨[⟨"x", none⟩],
    .conditional (.parameter "x") (.new "Q" []) (.literal (.number (.double 0.5)))⟩

/-- A text that is written in another way than documents are: it is read, and normalised
    once and for all. -/
theorem parse?_text_of_parse?_respelled :
    parse? respelled.text = some respelledDocument
      ∧ (∀ json ∈ respelledDocument.literals, ∀ x, .double x ∈ json.numbers → ReadsBack x)
      ∧ roundtrip? respelled.text = some (respelledDocument.text, true) := by
  have readable : ∀ n ∈ respelled.numbers, n.Readable := by
    refine List.forall_mem_singleton.2 readsBack_half.readable
  have read : parse? respelled.text = some respelledDocument := by
    rw [parse?, RawJson.parse?_eq_ofJson readable]
    rfl
  have values : ∀ json ∈ respelledDocument.literals, json.IsValue :=
    List.forall_mem_singleton.2 (.number trivial)
  have reads : ∀ json ∈ respelledDocument.literals, ∀ x, .double x ∈ json.numbers →
      ReadsBack x := by
    refine List.forall_mem_singleton.2 fun x hx => ?_
    cases List.mem_singleton.1 hx
    exact readsBack_half
  -- a cramped document could not be read again, but this one is
  have roomy : ¬ respelledDocument.Cramped := by
    intro cramped
    have lost := cramped.ofRaw?_ofJson
    rw [ofRaw?_ofJson values (by decide)] at lost
    cases lost
  exact ⟨read, reads, ((parse?_text_of_parse? read reads).1 roomy).2.1⟩

/-! ### A document that is lost -/

/-- An expression that is negated so many times. -/
def Node.negated (node : Node) : Nat → Node
  | 0 => node
  | times + 1 => .unary .not (node.negated times)

/-- The JSON of an expression that is negated so many times. -/
def negatedJson (json : Json) : Nat → Json
  | 0 => json
  | times + 1 =>
    tagged "unary" (.object [("op", .string "not"), ("operand", negatedJson json times)])

/-- There are no numbers in a negation but those of the operand. -/
theorem negatedJson_numbers (json : Json) (times : Nat) :
    (negatedJson json times).numbers = json.numbers := by
  induction times with
  | zero => rfl
  | succ times ih =>
    simp [negatedJson, tagged_numbers, Json.numbers, Json.membersNumbers, ih]

/-- Each negation needs two more levels of brackets. -/
theorem Node.ofRaw?_negatedJson {json : Json} {node : Node} {room : Nat}
    (h : ofRaw? room (ofJson json) = some node) (times : Nat) :
    ofRaw? (room + 2 * times) (ofJson (negatedJson json times)) = some (node.negated times) := by
  induction times with
  | zero => exact h
  | succ times ih =>
    have read := ofRaw?_unary (room + 2 * times) .not (negatedJson json times)
    rwa [ih, Option.map_some] at read

/-- What is negated stands inside two brackets for each negation. -/
theorem Node.holds_negated (node : Node) (times : Nat) :
    Holds node (2 * times) (node.negated times) := by
  induction times with
  | zero => exact .here
  | succ times ih =>
    have operand : (2, node.negated times) ∈ (node.negated (times + 1)).parts := List.mem_cons_self
    exact .inside operand ih

/-- The JSON of a document with one constant, where what can be left out is left out. -/
def constantJson (value : Json) : Json :=
  .object [("constants", .array [.object [("name", .string "c"), ("value", value)]]),
    ("lambda", .object [("body", tagged "const" .null)])]

/-- A document of one constant is read if the value of the constant is, four brackets further in. -/
theorem ofRaw?_constantJson {value : Json} {node : Node} (room : Nat)
    (h : Node.ofRaw? (room + 1) (ofJson value) = some node) :
    ofRaw? (room + 4) (ofJson (constantJson value))
      = some ⟨[], [⟨"c", node⟩], ⟨[], .literal .null⟩⟩ := by
  have constant : ConstantDecl.ofRaw? (room + 2)
      (ofJson (.object [("name", .string "c"), ("value", value)])) = some ⟨"c", node⟩ := by
    rw [ConstantDecl.ofRaw?_object, h, Option.map_some]
  have constants : optionalList? ConstantDecl.ofRaw? (room + 3) (some (ofJson
      (.array [.object [("name", .string "c"), ("value", value)]]))) = some [⟨"c", node⟩] := by
    show [ofJson (.object [("name", .string "c"), ("value", value)])].mapM
      (ConstantDecl.ofRaw? (room + 2)) = _
    simp [constant]
  -- lists that are left out are empty
  have lambda : LambdaDecl.ofRaw? (room + 3) (ofJson (.object [("body", tagged "const" .null)]))
      = some ⟨[], .literal .null⟩ := rfl
  have classes : optionalList? ClassDecl.ofRaw? (room + 3) none = some [] := rfl
  simp [ofRaw?, constantJson, record?_ofJson, List.lookup_cons, classes, constants, lambda]

/-- The JSON of a document with a constructor call inside 125 brackets; its arguments are left
    out. -/
def crowded : Json :=
  constantJson (negatedJson (tagged "new" (.object [("class", .string "Q")])) 61)

/-- The document that `crowded` is of. -/
def crowdedDocument : Document where
  classes := []
  constants := [⟨"c", (Node.new "Q" []).negated 61⟩]
  lambda := ⟨[], .literal .null⟩

/-- The call is read with the last two levels of the room, as it has no list of arguments. -/
theorem ofRaw?_crowded : ofRaw? jsonRoom (ofJson crowded) = some crowdedDocument := by
  have value : Node.ofRaw? 124 (ofJson (negatedJson (tagged "new"
      (.object [("class", .string "Q")])) 61)) = some ((Node.new "Q" []).negated 61) :=
    Node.ofRaw?_negatedJson (show Node.ofRaw? 2 _ = some (.new "Q" []) from rfl) 61
  exact ofRaw?_constantJson 123 value

/-- Written with its list of arguments the call has no room left. -/
theorem cramped_crowdedDocument : crowdedDocument.Cramped :=
  ⟨"Q", (3, (Node.new "Q" []).negated 61), List.mem_cons_self, 2 * 61, rfl,
    Node.holds_negated (Node.new "Q" []) 61⟩

/-- A text that is read as a document without any number, but not after it was normalised. -/
theorem not_roundtrip?_crowded :
    parse? crowded.text = some crowdedDocument ∧ crowdedDocument.literals = [.null]
      ∧ parse? crowdedDocument.text = none ∧ roundtrip? crowded.text = none := by
  have literals : crowdedDocument.literals = [.null] := rfl
  have numbers : crowded.numbers = [] := by
    simp [crowded, constantJson, Json.numbers, Json.membersNumbers, Json.itemsNumbers,
      negatedJson_numbers, tagged_numbers]
  have read : parse? crowded.text = some crowdedDocument := by
    rw [parse?, RawJson.parse?_eq_ofJson (numbers ▸ List.forall_mem_nil _), Option.bind_some,
      ofRaw?_crowded]
  -- the document is written with a list, which is one bracket too many
  have lost : parse? crowdedDocument.text = none := by
    have values : ∀ json ∈ crowdedDocument.literals, json.IsValue :=
      literals ▸ List.forall_mem_singleton.2 .null
    have reads : ∀ json ∈ crowdedDocument.literals, ∀ x, .double x ∈ json.numbers → ReadsBack x :=
      literals ▸ List.forall_mem_singleton.2 fun _ hx => absurd hx List.not_mem_nil
    rw [parse?_text_eq_ofRaw? values reads, cramped_crowdedDocument.ofRaw?_ofJson]
  exact ⟨read, literals, lost, by rw [roundtrip?_eq read, lost, Option.map_none]⟩

end Document

end ExprTree

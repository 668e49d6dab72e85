import ExprTree.Proofs.Document.Nesting
import ExprTree.Proofs.Document.RoundTrip
import ExprTree.Proofs.Json.Parsed

namespace ExprTree

/-!
# How documents are read

What is known of an expression or a document that was read, in whatever way it was
written: its literals are values of a text (`Node.isValue_of_ofRaw?`), and each
expression in it was read in the room that the brackets around it left
(`Node.ReadIn`).  So its own text has room as well, unless a constructor call without
arguments stands where there was room for the two brackets of the call only
(`Node.nesting_of_ofRaw?`).
-/

namespace Document

open RawJson (ofJson)

/-! ### Records and lists -/

/-- Every result of a list was read from an item of it. -/
theorem exists_mem_of_mapM {α β : Type} {element? : α → Option β} {list : List α}
    {results : List β} (h : list.mapM element? = some results) :
    ∀ b ∈ results, ∃ a ∈ list, element? a = some b := by
  induction list generalizing results with
  | nil =>
    cases h
    exact nofun
  | cons a list ih =>
    rw [List.mapM_cons] at h
    obtain ⟨b, hb, h⟩ := Option.bind_eq_some_iff.1 h
    obtain ⟨others, hothers, h⟩ := Option.bind_eq_some_iff.1 h
    cases h
    refine List.forall_mem_cons.2 ⟨⟨a, List.mem_cons_self, hb⟩, fun b hb => ?_⟩
    obtain ⟨a, ha, hb⟩ := ih hothers b hb
    exact ⟨a, List.mem_cons_of_mem _ ha, hb⟩

/-- The fields of a record are parts of what is written. -/
theorem inRange_of_record? {names : List String} {raw value : RawJson}
    {fields : List (Option RawJson)} (hrange : raw.InRange) (h : record? names raw = some fields)
    (hvalue : some value ∈ fields) : value.InRange := by
  cases hrange with
  | null | bool | number | string => cases h
  | @array items parts =>
    rw [record?, Option.ite_none_right_eq_some] at h
    cases h.2
    -- fields that the array does not reach are missing
    rcases List.mem_append.1 hvalue with hvalue | hvalue
    · obtain ⟨item, hitem, same⟩ := List.mem_map.1 hvalue
      cases same
      exact parts value hitem
    · cases List.eq_of_mem_replicate hvalue
  | @object members parts =>
    rw [record?, Option.ite_none_right_eq_some] at h
    obtain ⟨name, -, hmember⟩ := exists_mem_of_mapM h.2 _ hvalue
    unfold member? at hmember
    split at hmember
    · cases hmember
    · rename_i hfilter
      cases hmember
      have hmem := hfilter ▸ List.mem_singleton_self _
      exact parts _ (List.mem_filter.1 hmem).1
    · cases hmember

/-- A list that is not empty is an array, with a bracket around its elements. -/
theorem exists_of_optionalList? {α : Type} {element? : Nat → RawJson → Option α} {room : Nat}
    {raw : Option RawJson} {list : List α} (hrange : ∀ value, raw = some value → value.InRange)
    (h : optionalList? element? room raw = some list) :
    list = [] ∨ ∃ inner, room = inner + 1 ∧
      ∀ a ∈ list, ∃ item : RawJson, item.InRange ∧ element? inner item = some a := by
  cases raw with
  | none =>
    rw [optionalList?] at h
    cases h
    exact .inl rfl
  | some raw =>
    cases room with
    | zero => cases h
    -- the list was written, so it is an array and took a bracket
    | succ inner =>
      obtain ⟨items, hitems, h⟩ := Option.bind_eq_some_iff.1 h
      have hraw := hrange raw rfl
      cases hraw with
      | null | bool | number | string | object => cases hitems
      | array parts =>
        cases hitems
        refine .inr ⟨inner, rfl, fun a ha => ?_⟩
        obtain ⟨item, hitem, ha⟩ := exists_mem_of_mapM h a ha
        exact ⟨item, parts item hitem, ha⟩

/-- There is room around whatever is read as a field or a parameter. -/
theorem pos_of_namedTy? {room : Nat} {raw : RawJson} {named : NamedTy}
    (h : namedTy? room raw = some named) : 0 < room := by
  cases room with
  | zero => cases h
  | succ => exact Nat.succ_pos _

namespace Node

/-- An expression is not read without room for a bracket. -/
theorem pos_of_ofRaw? {room : Nat} {raw : RawJson} {node : Node}
    (h : ofRaw? room raw = some node) : 0 < room := by
  cases room with
  | zero => cases h
  | succ => exact Nat.succ_pos _

/-- An expression that is read where there is some room: its own brackets fit in, unless they
    are those of a constructor call whose list of arguments is left out, and its parts are
    read in the room that is left. -/
structure ReadIn (room : Nat) (node : Node) : Prop where
  frame : node.frame ≤ room ∨ ∃ cls, node = .new cls [] ∧ room = 2
  literal : ∀ json, node = .literal json → json.IsValue
  parts : ∀ part ∈ node.parts, ∃ (inner : Nat) (raw : RawJson),
    room = inner + part.1 ∧ raw.InRange ∧ ofRaw? inner raw = some part.2

/-- The body of a lambda is read inside its bracket; its parameters are objects in an array. -/
theorem exists_of_lambda {room : Nat} {raw : RawJson} {lambda : LambdaDecl} (hrange : raw.InRange)
    (h : LambdaDecl.ofRaw? room raw = some lambda) :
    ∃ inner, room = inner + 1 ∧ (lambda.params = [] ∨ 2 ≤ inner)
      ∧ ∃ body : RawJson, body.InRange ∧ ofRaw? inner body = some lambda.body := by
  cases room with
  | zero => cases h
  | succ inner =>
    obtain ⟨fields, hfields, h⟩ := Option.bind_eq_some_iff.1 h
    have hfield : ∀ {value : RawJson}, some value ∈ fields → value.InRange :=
      fun hvalue => inRange_of_record? hrange hfields hvalue
    split at h
    · rename_i written body
      obtain ⟨params, hparams, h⟩ := Option.bind_eq_some_iff.1 h
      obtain ⟨read, hbody, h⟩ := Option.bind_eq_some_iff.1 h
      cases h
      refine ⟨inner, rfl, ?_, body, hfield (by simp), hbody⟩
      rcases exists_of_optionalList? (fun value hvalue => hfield (by simp [hvalue])) hparams with
        rfl | ⟨left, rfl, hall⟩
      · exact .inl rfl
      · cases params with
        | nil => exact .inl rfl
        -- a parameter that was read is an object, which took a bracket inside that of the list
        | cons named others =>
          obtain ⟨item, -, hnamed⟩ := hall named List.mem_cons_self
          exact .inr (Nat.succ_le_succ (pos_of_namedTy? hnamed))
    · cases h

/-- The arguments of a call are read in the room that their array leaves. -/
theorem exists_of_listOfRaw? {room : Nat} {raw : Option RawJson} {args : List Node}
    (hrange : ∀ value, raw = some value → value.InRange)
    (h : listOfRaw? room raw = some args) :
    args = [] ∨ 0 < room ∧ ∀ part ∈ args.map fun arg => (3, arg), ∃ (inner : Nat) (raw : RawJson),
      room + 2 = inner + part.1 ∧ raw.InRange ∧ ofRaw? inner raw = some part.2 := by
  rw [listOfRaw?_eq] at h
  rcases exists_of_optionalList? hrange h with rfl | ⟨inner, rfl, hargs⟩
  · exact .inl rfl
  · refine .inr ⟨Nat.succ_pos inner, List.forall_mem_map.2 fun arg harg => ?_⟩
    obtain ⟨item, hitem, hread⟩ := hargs arg harg
    exact ⟨inner, item, rfl, hitem, hread⟩

/-- The content of a node is read in one bracket less than the node, and its parts in one
    or two less than that. -/
theorem readIn_of_ofContent? {kind : String} {room : Nat} {raw : RawJson} {node : Node}
    (hrange : raw.InRange) (h : ofContent? kind room raw = some node) :
    node.ReadIn (room + 1) := by
  cases room with
  | zero => cases h
  | succ room =>
    have hfield : ∀ {names : List String} {fields : List (Option RawJson)} {value : RawJson},
        record? names raw = some fields → some value ∈ fields → value.InRange :=
      fun hfields hvalue => inRange_of_record? hrange hfields hvalue
    unfold ofContent? at h
    split at h
    · obtain ⟨fields, hfields, h⟩ := Option.bind_eq_some_iff.1 h
      split at h
      · obtain ⟨cls, -, h⟩ := Option.bind_eq_some_iff.1 h
        obtain ⟨args, hargs, h⟩ := Option.bind_eq_some_iff.1 h
        cases h
        rcases exists_of_listOfRaw? (fun value hvalue => hfield hfields (by simp [hvalue])) hargs
          with rfl | ⟨hroom, hargs⟩
        · -- the brackets of an empty list have room, or there is none behind the others
          refine ⟨?_, by simp, List.forall_mem_nil _⟩
          cases room with
          | zero => exact .inr ⟨cls, rfl, rfl⟩
          | succ => exact .inl (Nat.le_add_left ..)
        · exact ⟨.inl (Nat.succ_le_of_lt (Nat.add_lt_add_right hroom 2)), by simp, hargs⟩
      · cases h
    · obtain ⟨fields, hfields, h⟩ := Option.bind_eq_some_iff.1 h
      split at h
      · obtain ⟨target, htarget, h⟩ := Option.bind_eq_some_iff.1 h
        obtain ⟨name, -, h⟩ := Option.bind_eq_some_iff.1 h
        cases h
        refine ⟨.inl (Nat.le_add_left ..), by simp, List.forall_mem_singleton.2 ?_⟩
        exact ⟨room, _, rfl, hfield hfields (by simp), htarget⟩
      · cases h
    · obtain ⟨fields, hfields, h⟩ := Option.bind_eq_some_iff.1 h
      split at h
      · obtain ⟨op, -, h⟩ := Option.bind_eq_some_iff.1 h
        obtain ⟨operand, hoperand, h⟩ := Option.bind_eq_some_iff.1 h
        cases h
        refine ⟨.inl (Nat.le_add_left ..), by simp, List.forall_mem_singleton.2 ?_⟩
        exact ⟨room, _, rfl, hfield hfields (by simp), hoperand⟩
      · cases h
    · obtain ⟨fields, hfields, h⟩ := Option.bind_eq_some_iff.1 h
      split at h
      · obtain ⟨op, -, h⟩ := Option.bind_eq_some_iff.1 h
        obtain ⟨left, hleft, h⟩ := Option.bind_eq_some_iff.1 h
        obtain ⟨right, hright, h⟩ := Option.bind_eq_some_iff.1 h
        cases h
        refine ⟨.inl (Nat.le_add_left ..), by simp,
          List.forall_mem_cons.2 ⟨?_, List.forall_mem_singleton.2 ?_⟩⟩
        · exact ⟨room, _, rfl, hfield hfields (by simp), hleft⟩
        · exact ⟨room, _, rfl, hfield hfields (by simp), hright⟩
      · cases h
    · obtain ⟨fields, hfields, h⟩ := Option.bind_eq_some_iff.1 h
      split at h
      · obtain ⟨test, htest, h⟩ := Option.bind_eq_some_iff.1 h
        obtain ⟨yes, hyes, h⟩ := Option.bind_eq_some_iff.1 h
        obtain ⟨no, hno, h⟩ := Option.bind_eq_some_iff.1 h
        cases h
        refine ⟨.inl (Nat.le_add_left ..), by simp,
          List.forall_mem_cons.2 ⟨?_, List.forall_mem_cons.2 ⟨?_, List.forall_mem_singleton.2 ?_⟩⟩⟩
        · exact ⟨room, _, rfl, hfield hfields (by simp), htest⟩
        · exact ⟨room, _, rfl, hfield hfields (by simp), hyes⟩
        · exact ⟨room, _, rfl, hfield hfields (by simp), hno⟩
      · cases h
    · obtain ⟨fields, hfields, h⟩ := Option.bind_eq_some_iff.1 h
      split at h
      · obtain ⟨target, htarget, h⟩ := Option.bind_eq_some_iff.1 h
        obtain ⟨args, hargs, h⟩ := Option.bind_eq_some_iff.1 h
        cases h
        have hargs := exists_of_listOfRaw?
          (fun value hvalue => hfield hfields (by simp [hvalue])) hargs
        -- there is room for an empty list, since there is some for the target
        have hroom := pos_of_ofRaw? htarget
        refine ⟨.inl (Nat.succ_le_of_lt (Nat.add_lt_add_right hroom 2)), by simp,
          List.forall_mem_cons.2 ⟨⟨room, _, rfl, hfield hfields (by simp), htarget⟩, ?_⟩⟩
        rcases hargs with rfl | ⟨-, hargs⟩
        · exact List.forall_mem_nil _
        · exact hargs
      · cases h
    · cases h

/-- **How an expression is read.** -/
theorem readIn_of_ofRaw? {room : Nat} {raw : RawJson} {node : Node} (hrange : raw.InRange)
    (h : ofRaw? room raw = some node) : node.ReadIn room := by
  unfold ofRaw? at h
  split at h
  · rename_i inner kind content
    -- a node is an object with one member, whose key says what kind of node it is
    have hcontent : content.InRange := by
      cases hrange with
      | object parts => exact parts _ List.mem_cons_self
    split at h
    · obtain ⟨json, hjson, rfl⟩ := Option.map_eq_some_iff.1 h
      obtain ⟨hvalue, hnesting⟩ := hcontent.fits hjson
      refine ⟨.inl (Nat.succ_le_succ hnesting), fun json h => ?_, List.forall_mem_nil _⟩
      cases h
      exact hvalue
    · obtain ⟨name, -, rfl⟩ := Option.map_eq_some_iff.1 h
      exact ⟨.inl (Nat.le_add_left ..), by simp, List.forall_mem_nil _⟩
    · obtain ⟨name, -, rfl⟩ := Option.map_eq_some_iff.1 h
      exact ⟨.inl (Nat.le_add_left ..), by simp, List.forall_mem_nil _⟩
    · obtain ⟨⟨params, body⟩, hlambda, h⟩ := Option.bind_eq_some_iff.1 h
      cases h
      obtain ⟨room, rfl, hparams, raw, hraw, hbody⟩ := exists_of_lambda hcontent hlambda
      refine ⟨.inl ?_, by simp, List.forall_mem_singleton.2 ⟨room, raw, rfl, hraw, hbody⟩⟩
      have hroom := pos_of_ofRaw? hbody
      have hparams : params = [] ∨ 2 ≤ room := hparams
      rw [frame]
      split
      · omega
      · exact Nat.add_le_add_right (hparams.resolve_left ‹_›) 2
    · exact readIn_of_ofContent? hcontent h
  · cases h

/-- There are brackets around a part. -/
theorem pos_of_mem_parts {node : Node} {part : Nat × Node} (h : part ∈ node.parts) :
    0 < part.1 := by
  have all : ∀ part ∈ node.parts, 0 < part.1 := by cases node <;> simp [Node.parts]
  exact all part h

/-- Induction over an expression that is read: what holds of it if it holds of the parts
    that are read in it. -/
theorem read_induction {motive : Nat → Node → Prop}
    (step : ∀ room node, ReadIn room node →
      (∀ part ∈ node.parts, ∃ inner, room = inner + part.1 ∧ motive inner part.2) →
      motive room node)
    {room : Nat} {raw : RawJson} {node : Node} (hrange : raw.InRange)
    (h : ofRaw? room raw = some node) : motive room node := by
  induction room using Nat.strongRecOn generalizing raw node with
  | ind room ih =>
    have hread := readIn_of_ofRaw? hrange h
    refine step room node hread fun part hpart => ?_
    obtain ⟨inner, raw, rfl, hraw, hpart'⟩ := hread.parts part hpart
    exact ⟨inner, rfl, ih inner (Nat.lt_add_of_pos_right (pos_of_mem_parts hpart)) hraw hpart'⟩

/-- The literals that are read are values. -/
theorem isValue_of_ofRaw? {room : Nat} {raw : RawJson} {node : Node} (hrange : raw.InRange)
    (h : ofRaw? room raw = some node) : ∀ json ∈ node.literals, json.IsValue := by
  refine read_induction (motive := fun _ node => ∀ json ∈ node.literals, json.IsValue)
    (fun room node hread ih json hjson => ?_) hrange h
  rcases mem_literals hjson with rfl | ⟨part, hpart, hjson⟩
  · exact hread.literal json rfl
  · obtain ⟨_, -, hvalues⟩ := ih part hpart
    exact hvalues json hjson

/-- **How deep the text of what is read is nested.**  It has the room that there was, unless
    the last two brackets of that were those of a constructor call without arguments. -/
theorem nesting_of_ofRaw? {room : Nat} {raw : RawJson} {node : Node} (hrange : raw.InRange)
    (h : ofRaw? room raw = some node) :
    node.toJson.nesting ≤ room
      ∨ ∃ cls around, room = around + 2 ∧ Holds (.new cls []) around node := by
  refine read_induction (motive := fun room node => node.toJson.nesting ≤ room
    ∨ ∃ cls around, room = around + 2 ∧ Holds (.new cls []) around node)
    (fun room node hread ih => ?_) hrange h
  rcases hread.frame with hframe | ⟨cls, rfl, rfl⟩
  · by_cases hfit : ∀ part ∈ node.parts, part.2.toJson.nesting + part.1 ≤ room
    · exact .inl (nesting_le_iff.2 ⟨hframe, hfit⟩)
    · -- a part that does not fit holds a call that was cramped, and so does the node
      simp only [Classical.not_forall] at hfit
      obtain ⟨part, hpart, hdeep⟩ := hfit
      obtain ⟨inner, rfl, hnesting | ⟨cls, around, rfl, hholds⟩⟩ := ih part hpart
      · exact absurd (Nat.add_le_add_right hnesting part.1) hdeep
      · exact .inr ⟨cls, around + part.1, Nat.add_right_comm .., .inside hpart hholds⟩
  · exact .inr ⟨cls, 0, rfl, .here⟩

end Node

/-! ### Documents -/

/-- The value of a constant is read inside its bracket. -/
theorem exists_of_constant {room : Nat} {raw : RawJson} {constant : ConstantDecl}
    (hrange : raw.InRange) (h : ConstantDecl.ofRaw? room raw = some constant) :
    ∃ inner, room = inner + 1
      ∧ ∃ value : RawJson, value.InRange ∧ Node.ofRaw? inner value = some constant.value := by
  cases room with
  | zero => cases h
  | succ inner =>
    obtain ⟨fields, hfields, h⟩ := Option.bind_eq_some_iff.1 h
    split at h
    · obtain ⟨name, -, h⟩ := Option.bind_eq_some_iff.1 h
      obtain ⟨value, hvalue, h⟩ := Option.bind_eq_some_iff.1 h
      cases h
      exact ⟨inner, rfl, _, inRange_of_record? hrange hfields (by simp), hvalue⟩
    · cases h

/-- Classes, constants and a lambda are read each in the room that is left for it. -/
theorem exists_of_ofRaw? {room : Nat} {raw : RawJson} {document : Document}
    (hrange : raw.InRange) (h : ofRaw? room raw = some document) :
    ∀ part ∈ document.parts, ∃ (inner : Nat) (raw : RawJson),
      room = inner + part.1 ∧ raw.InRange ∧ Node.ofRaw? inner raw = some part.2 := by
  cases room with
  | zero => cases h
  | succ room =>
    obtain ⟨fields, hfields, h⟩ := Option.bind_eq_some_iff.1 h
    have hfield : ∀ {value : RawJson}, some value ∈ fields → value.InRange :=
      fun hvalue => inRange_of_record? hrange hfields hvalue
    split at h
    · obtain ⟨classes, -, h⟩ := Option.bind_eq_some_iff.1 h
      obtain ⟨constants, hconstants, h⟩ := Option.bind_eq_some_iff.1 h
      obtain ⟨lambda, hlambda, h⟩ := Option.bind_eq_some_iff.1 h
      cases h
      -- the classes hold no expressions
      intro part hpart
      rcases List.mem_append.1 hpart with hpart | hpart
      · obtain ⟨constant, hconstant, rfl⟩ := List.mem_map.1 hpart
        rcases exists_of_optionalList? (fun value hvalue => hfield (by simp [hvalue])) hconstants
          with rfl | ⟨inner, rfl, hall⟩
        · cases hconstant
        · obtain ⟨item, hitem, hread⟩ := hall constant hconstant
          obtain ⟨inner, rfl, raw, hraw, hvalue⟩ := exists_of_constant hitem hread
          exact ⟨inner, raw, rfl, hraw, hvalue⟩
      · obtain rfl := List.mem_singleton.1 hpart
        obtain ⟨inner, rfl, -, body, hbody, hread⟩ :=
          Node.exists_of_lambda (hfield (by simp)) hlambda
        exact ⟨inner, body, rfl, hbody, hread⟩
    · cases h

end Document

end ExprTree

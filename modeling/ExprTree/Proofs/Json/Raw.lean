import ExprTree.Proofs.Json.Text

namespace ExprTree

/-!
# A printed value is read as that value

The tokens of a value lead the reader of tokens to the value as it is written
(`RawJson.ofJson`), whatever brackets are open around it; and what is written has
the value itself, if there is room for its brackets.  With the tokens of the text
this makes `Json.IsValue.parse?_eq_some`.
-/

namespace RawJson

mutual

/-- A value as it is written by the printer. -/
def ofJson : Json → RawJson
  | .null => .null
  | .bool b => .bool b
  | .number n => .number (some n)
  | .string s => .string (some s)
  | .array items => .array (itemsOfJson items)
  | .object members => .object (membersOfJson members)

/-- Items as they are written by the printer. -/
def itemsOfJson : List Json → List RawJson
  | [] => []
  | item :: items => ofJson item :: itemsOfJson items

/-- Members as they are written by the printer. -/
def membersOfJson : List (String × Json) → List (Option String × RawJson)
  | [] => []
  | (key, value) :: members => (some key, ofJson value) :: membersOfJson members

end

theorem itemsOfJson_eq_map (items : List Json) : itemsOfJson items = items.map ofJson := by
  induction items with
  | nil => rfl
  | cons item items ih => simp [itemsOfJson, ih]

/-! ### From tokens -/

/-- Reads tokens one after another. -/
def Progress.steps (progress : Progress) (tokens : List JsonToken) : Option Progress :=
  tokens.foldlM step progress

/-- Steps begin with the first of them. -/
theorem Progress.steps_of_step {progress next : Progress} {token : JsonToken}
    (h : progress.step token = some next) (tokens : List JsonToken) :
    progress.steps (token :: tokens) = next.steps tokens := by
  simp [steps, h]

theorem Progress.steps_append (progress : Progress) (before after : List JsonToken) :
    progress.steps (before ++ after) = (progress.steps before).bind (·.steps after) :=
  List.foldlM_append

/-- The tokens of a value are read as it, inside any brackets. -/
def StepsTo (json : Json) : Prop :=
  ∀ frames, (Progress.atValue frames).steps json.tokens = some (.done (ofJson json) frames)

/-- Items are read up to the bracket that closes them, behind those that are read already. -/
theorem steps_items {items : List Json} (h : ∀ item ∈ items, StepsTo item)
    (found : items ≠ []) (before : List RawJson) (frames : List Frame) :
    (Progress.atValue (.array before :: frames)).steps (Json.itemsTokens items ++ [.closeArray])
      = some (.done (.array (before.reverse ++ itemsOfJson items)) frames) := by
  -- the bracket stays open along the list, and collects its items in reverse
  induction items generalizing before with
  | nil => exact absurd rfl found
  | cons item items ih =>
    obtain ⟨first, others⟩ := List.forall_mem_cons.1 h
    have read := first (.array before :: frames)
    cases items with
    | nil =>
      rw [Json.itemsTokens, Progress.steps_append, read]
      simp [Progress.steps, Progress.step, itemsOfJson]
    | cons next items =>
      have rest := ih others (List.cons_ne_nil next _) (ofJson item :: before)
      show Progress.steps _ ((item.tokens ++ .comma :: Json.itemsTokens (next :: items)) ++ _) = _
      rw [List.append_assoc, Progress.steps_append, read, Option.bind_some, List.cons_append,
        Progress.steps_of_step rfl, rest]
      simp [itemsOfJson]

/-- Members are read up to the bracket that closes them, behind those that are read already. -/
theorem steps_members {members : List (String × Json)} (h : ∀ member ∈ members, StepsTo member.2)
    (found : members ≠ []) (before : List (Option String × RawJson)) (frames : List Frame) :
    (Progress.atKey before frames).steps (Json.membersTokens members ++ [.closeObject])
      = some (.done (.object (before.reverse ++ membersOfJson members)) frames) := by
  induction members generalizing before with
  | nil => exact absurd rfl found
  | cons member members ih =>
    obtain ⟨key, value⟩ := member
    obtain ⟨first, others⟩ := List.forall_mem_cons.1 h
    -- the first value is read with its key kept in the frame around it
    have read := first (.object before (some key) :: frames)
    cases members with
    | nil =>
      show Progress.steps _ (.string (some key) :: .colon :: (value.tokens ++ _)) = _
      rw [Progress.steps_of_step rfl, Progress.steps_of_step rfl, Progress.steps_append, read]
      simp [Progress.steps, Progress.step, membersOfJson]
    | cons next members =>
      have rest := ih others (List.cons_ne_nil next _) ((some key, ofJson value) :: before)
      show Progress.steps _ (.string (some key) :: .colon ::
        ((value.tokens ++ .comma :: Json.membersTokens (next :: members)) ++ _)) = _
      rw [Progress.steps_of_step rfl, Progress.steps_of_step rfl, List.append_assoc,
        Progress.steps_append, read, Option.bind_some, List.cons_append,
        Progress.steps_of_step rfl, rest]
      simp [membersOfJson]

/-- Where an array may also end, items are read as they are behind a comma. -/
theorem steps_atFirstItem (item : Json) (items : List Json) (frames : List Frame) :
    (Progress.atFirstItem frames).steps (Json.itemsTokens (item :: items) ++ [.closeArray])
      = (Progress.atValue (.array [] :: frames)).steps
          (Json.itemsTokens (item :: items) ++ [.closeArray]) := by
  obtain ⟨after, split⟩ : ∃ after, Json.itemsTokens (item :: items) = item.tokens ++ after := by
    cases items with
    | nil => exact ⟨[], (List.append_nil _).symm⟩
    | cons next items => exact ⟨_, rfl⟩
  rw [split, List.append_assoc]
  cases item <;> rfl

/-- Where an object may also end, members are read as they are behind a comma. -/
theorem steps_atFirstKey (member : String × Json) (members : List (String × Json))
    (frames : List Frame) :
    (Progress.atFirstKey frames).steps (Json.membersTokens (member :: members) ++ [.closeObject])
      = (Progress.atKey [] frames).steps
          (Json.membersTokens (member :: members) ++ [.closeObject]) := by
  cases members <;> rfl

/-- A value is read from the tokens that it is written with. -/
theorem stepsTo (json : Json) : StepsTo json := by
  intro frames
  induction json generalizing frames with
  | null | bool | number | string => rfl
  | array items ih =>
    -- an empty array is closed where its first item is looked for
    cases items with
    | nil => rfl
    | cons item items =>
      rw [Json.tokens, Progress.steps_of_step rfl, steps_atFirstItem,
        steps_items ih (List.cons_ne_nil item items)]
      rfl
  | object members ih =>
    cases members with
    | nil => rfl
    | cons member members =>
      rw [Json.tokens, Progress.steps_of_step rfl, steps_atFirstKey,
        steps_members ih (List.cons_ne_nil member members)]
      rfl

/-- The text of a value is read as the value is written. -/
theorem parse?_eq_ofJson {json : Json} (readable : ∀ n ∈ json.numbers, n.Readable) :
    parse? json.text = some (ofJson json) := by
  have scanned : JsonToken.scan (json.charsBefore []) = some json.tokens := by
    rw [Json.scansAhead readable [] closes_nil]
    simp [JsonToken.scan]
  have read : json.tokens.foldlM Progress.step (.atValue []) = some (.done (ofJson json) []) :=
    stepsTo json []
  simp [parse?, Json.text, scanned, ofTokens?, read]

end RawJson

/-- Whether a double reads back is a matter of its numeral alone. -/
theorem readsBack_iff {x : Float} : ReadsBack x ↔ (JsonNumber.double x).Readable := by
  refine ⟨ReadsBack.readable, fun readable => ?_⟩
  have read := RawJson.parse?_eq_ofJson
    (show ∀ n ∈ (Json.number (.double x)).numbers, n.Readable from
      List.forall_mem_singleton.2 readable)
  rw [ReadsBack, Json.parse?, read]
  rfl

/-! ### To the value -/

namespace Json

/-- A member whose key is the greatest goes to the end. -/
theorem insertMember_of_lt {before : List (String × Json)} {key : String}
    (h : ∀ member ∈ before, member.1 < key) (value : Json) :
    insertMember key value before = before ++ [(key, value)] := by
  induction before with
  | nil => rfl
  | cons member before ih =>
    obtain ⟨less, others⟩ := List.forall_mem_cons.1 h
    have notLess : ¬key < member.1 := String.lt_asymm less
    have other : key ≠ member.1 := by
      rintro rfl
      exact String.lt_irrefl _ less
    rw [insertMember, if_neg notLess, if_neg other, ih others, List.cons_append]

end Json

namespace RawJson

/-- Items that are written are read again, if each of them is. -/
theorem itemsToJson?_itemsOfJson {items : List Json} {room : Nat}
    (h : ∀ item ∈ items, (ofJson item).toJson? room = some item) :
    itemsToJson? room (itemsOfJson items) = some items := by
  induction items with
  | nil => rfl
  | cons item items ih =>
    obtain ⟨first, others⟩ := List.forall_mem_cons.1 h
    simp [itemsOfJson, itemsToJson?, first, ih others]

/-- Members that are sorted are put in one behind the other, so they stay in the order
    they are written in. -/
theorem membersToJson?_membersOfJson {members : List (String × Json)} {room : Nat}
    (h : ∀ member ∈ members, (ofJson member.2).toJson? room = some member.2)
    {before : List (String × Json)}
    (sorted : (before ++ members).Pairwise fun a b => a.1 < b.1) :
    membersToJson? room before (membersOfJson members) = some (before ++ members) := by
  induction members generalizing before with
  | nil => simp [membersOfJson, membersToJson?]
  | cons member members ih =>
    obtain ⟨first, others⟩ := List.forall_mem_cons.1 h
    -- members come in order, so each new one belongs behind all others
    have greatest : ∀ other ∈ before, other.1 < member.1 := fun other hother =>
      (List.pairwise_append.1 sorted).2.2 other hother member List.mem_cons_self
    have rest : membersToJson? room (before ++ [member]) (membersOfJson members)
        = some (before ++ [member] ++ members) := ih others (by simpa using sorted)
    simp [membersOfJson, membersToJson?, first, Json.insertMember_of_lt greatest, rest]

end RawJson

namespace Json

/-- What is written for a value has that value, if there is room for its brackets. -/
theorem IsValue.toJson?_ofJson {json : Json} (value : json.IsValue) {room : Nat}
    (h : json.nesting ≤ room) : (RawJson.ofJson json).toJson? room = some json := by
  induction value generalizing room with
  | null | bool | number | string => rfl
  | @array items parts ih =>
    -- an array that fits has room for its bracket, and its items fit into the rest
    obtain ⟨room, rfl, inside⟩ := exists_room_of_array h
    have read := RawJson.itemsToJson?_itemsOfJson fun item hitem =>
      ih item hitem (inside item hitem)
    simp [RawJson.ofJson, RawJson.toJson?, read]
  | @object members sorted parts ih =>
    obtain ⟨room, rfl, inside⟩ := exists_room_of_object h
    have read : RawJson.membersToJson? room [] (RawJson.membersOfJson members) = some members :=
      RawJson.membersToJson?_membersOfJson
        (fun member hmember => ih member hmember (inside member hmember)) sorted
    simp [RawJson.ofJson, RawJson.toJson?, read]

/-- The text of a value is read as that value. -/
theorem IsValue.parse?_eq_some {json : Json} (value : json.IsValue)
    (reads : ∀ x, .double x ∈ json.numbers → ReadsBack x) (h : json.nesting ≤ jsonRoom) :
    parse? json.text = some json := by
  rw [parse?, RawJson.parse?_eq_ofJson (value.readable reads)]
  exact value.toJson?_ofJson h

end Json

end ExprTree

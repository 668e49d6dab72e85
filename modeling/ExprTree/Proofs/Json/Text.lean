import ExprTree.Proofs.Json.Numeral

namespace ExprTree

/-!
# The tokens of a printed value

`Json.tokens` are the tokens that a value is written with, and `Json.scansAhead`
says that scanning its text finds just these.  The text after the value matters
because the value may end with a numeral.
-/

namespace Json

mutual

/-- The tokens that a value is written with. -/
def tokens : Json → List JsonToken
  | null => [.null]
  | bool b => [.bool b]
  | number n => [.number (some n)]
  | string s => [.string (some s)]
  | array items => .openArray :: (itemsTokens items ++ [.closeArray])
  | object members => .openObject :: (membersTokens members ++ [.closeObject])

/-- The tokens of items with commas between them. -/
def itemsTokens : List Json → List JsonToken
  | [] => []
  | [item] => item.tokens
  | item :: items => item.tokens ++ .comma :: itemsTokens items

/-- The tokens of members with commas between them. -/
def membersTokens : List (String × Json) → List JsonToken
  | [] => []
  | [(key, value)] => .string (some key) :: .colon :: value.tokens
  | (key, value) :: members =>
    .string (some key) :: .colon :: (value.tokens ++ .comma :: membersTokens members)

end

/-- Scanning a text that begins with a value gives the tokens of the value first. -/
def ScansAhead (json : Json) : Prop :=
  ∀ rest, Closes rest →
    JsonToken.scan (json.charsBefore rest) = (JsonToken.scan rest).map (json.tokens ++ ·)

/-- The tokens of items are found one item after the other. -/
theorem scan_itemsBefore {items : List Json} (h : ∀ item ∈ items, item.ScansAhead)
    {rest : List Char} (hrest : Closes rest) :
    JsonToken.scan (itemsBefore rest items)
      = (JsonToken.scan rest).map (itemsTokens items ++ ·) := by
  induction items with
  | nil => simp [itemsBefore, itemsTokens]
  | cons item items ih =>
    obtain ⟨first, others⟩ := List.forall_mem_cons.1 h
    cases items with
    | nil => exact first rest hrest
    | cons next items =>
      -- an item may end with a numeral, and the comma behind it closes that
      have comma : Closes (',' :: itemsBefore rest (next :: items)) := closes_cons (by decide)
      show JsonToken.scan (item.charsBefore (',' :: itemsBefore rest (next :: items))) = _
      rw [first _ comma, JsonToken.scan_punctuation rfl, ih others]
      simp [itemsTokens, Function.comp_def]

/-- The tokens of members are found one member after the other. -/
theorem scan_membersBefore {members : List (String × Json)}
    (h : ∀ member ∈ members, member.2.ScansAhead) {rest : List Char} (hrest : Closes rest) :
    JsonToken.scan (membersBefore rest members)
      = (JsonToken.scan rest).map (membersTokens members ++ ·) := by
  induction members with
  | nil => simp [membersBefore, membersTokens]
  | cons member members ih =>
    obtain ⟨key, value⟩ := member
    obtain ⟨first, others⟩ := List.forall_mem_cons.1 h
    cases members with
    | nil =>
      rw [membersBefore, JsonToken.scan_string_append, JsonToken.scan_punctuation rfl,
        first rest hrest]
      simp [membersTokens, Function.comp_def]
    | cons next members =>
      have comma : Closes (',' :: membersBefore rest (next :: members)) :=
        closes_cons (by decide)
      show JsonToken.scan (jsonStringChars key ++
        ':' :: value.charsBefore (',' :: membersBefore rest (next :: members))) = _
      rw [JsonToken.scan_string_append, JsonToken.scan_punctuation rfl, first _ comma,
        JsonToken.scan_punctuation rfl, ih others]
      simp [membersTokens, Function.comp_def]

/-- A value is scanned as the tokens that it is written with. -/
theorem scansAhead {json : Json} (readable : ∀ n ∈ json.numbers, n.Readable) :
    json.ScansAhead := by
  intro rest hrest
  induction json generalizing rest with
  | null =>
    exact JsonToken.scan_word (show word? 'n' = some (.null, ['u', 'l', 'l']) from rfl) rest
  | bool b =>
    cases b with
    | false =>
      exact JsonToken.scan_word
        (show word? 'f' = some (.bool false, ['a', 'l', 's', 'e']) from rfl) rest
    | true =>
      exact JsonToken.scan_word (show word? 't' = some (.bool true, ['r', 'u', 'e']) from rfl) rest
  | number n => exact (readable n (by simp [numbers])).scan_append hrest
  | string s => exact JsonToken.scan_string_append s rest
  | array items ih =>
    have inside : ∀ item ∈ items, item.ScansAhead := fun item hitem =>
      ih item hitem fun n hn => readable n (mem_itemsNumbers_iff.2 ⟨item, hitem, hn⟩)
    -- the last item is closed by the bracket behind it
    have close : Closes (']' :: rest) := closes_cons (by decide)
    rw [charsBefore, JsonToken.scan_punctuation rfl, scan_itemsBefore inside close,
      JsonToken.scan_punctuation rfl]
    simp [tokens, Function.comp_def]
  | object members ih =>
    have inside : ∀ member ∈ members, member.2.ScansAhead := fun member hmember =>
      ih member hmember fun n hn => readable n (mem_membersNumbers_iff.2 ⟨member, hmember, hn⟩)
    have close : Closes ('\x7d' :: rest) := closes_cons (by decide)
    rw [charsBefore, JsonToken.scan_punctuation rfl, scan_membersBefore inside close,
      JsonToken.scan_punctuation rfl]
    simp [tokens, Function.comp_def]

end Json

end ExprTree

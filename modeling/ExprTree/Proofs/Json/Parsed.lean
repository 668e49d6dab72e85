import ExprTree.Proofs.Json.Raw

namespace ExprTree

/-!
# What is read is a value of a text

`Json.IsValue` and the bound on the nesting are not only what a value needs to be
read back.  They hold of everything that is read, from whatever text:

* integers of numerals have 64 bits, and reading carries them along, token by
  token (`RawJson.InRange`);
* members are put into objects in the order of their keys;
* no more brackets are read than there is room for.

So a value whose doubles read back is read back itself exactly if it is such a
value (`Json.parse?_text_iff`).
-/

/-! ### Numerals -/

/-- Digits are put to a number only while it stays within 64 bits. -/
theorem appendDigits_lt {n : Nat} (h : n < wordLimit) (digits : List Char) :
    (appendDigits n digits).1 < wordLimit := by
  induction digits generalizing n with
  | nil => exact h
  | cons c digits ih =>
    rw [appendDigits]
    split
    · exact ih ‹_›
    · exact h

/-- What is kept of a numeral has 64 bits. -/
theorem Numeral.kept_lt (n : Numeral) : n.kept.1 < wordLimit :=
  appendDigits_lt (appendDigits_lt (by decide) n.whole) (n.fraction.getD [])

/-- The value of a numeral is a 64-bit integer, or a double. -/
theorem Numeral.inRange_of_value? {n : Numeral} {value : JsonNumber} (h : n.value? = some value) :
    value.InRange := by
  have bound := n.kept_lt
  unfold value? at h
  split at h
  · rename_i i found
    cases h
    unfold integer? at found
    split at found
    · cases found
    · split at found
      · cases found
        exact ⟨by omega, by omega⟩
      · split at found
        · cases found
        · rename_i least
          -- a magnitude that a signed word cannot hold is read as a double
          cases found
          exact ⟨by omega, by omega⟩
  · obtain ⟨x, -, rfl⟩ := Option.map_eq_some_iff.1 h
    trivial

/-! ### Tokens -/

/-- A token whose number, if it is one, is in range. -/
def JsonToken.InRange : JsonToken → Prop
  | .number (some n) => n.InRange
  | _ => True

theorem JsonToken.inRange_number {value : Option JsonNumber}
    (h : ∀ n, value = some n → n.InRange) : (JsonToken.number value).InRange := by
  cases value with
  | none => trivial
  | some n => exact h n rfl

/-- What is scanned as a number is in range. -/
theorem inRange_of_scanNumber {negative : Bool} {cs rest : List Char} {token : JsonToken}
    (h : scanNumber negative cs = some (token, rest)) : token.InRange := by
  obtain ⟨⟨value, left⟩, hscan, same⟩ := Option.map_eq_some_iff.1 h
  cases same
  obtain ⟨⟨whole, cs⟩, -, htail⟩ := Option.bind_eq_some_iff.1 hscan
  dsimp only at htail
  split at htail
  · cases htail
  · obtain ⟨⟨fraction, cs⟩, -, htail⟩ := Option.bind_eq_some_iff.1 htail
    obtain ⟨⟨exponent, cs⟩, -, hvalue⟩ := Option.bind_eq_some_iff.1 htail
    cases hvalue
    exact JsonToken.inRange_number fun n => Numeral.inRange_of_value?

/-- Punctuation holds no numbers. -/
theorem inRange_of_punctuation? {c : Char} {token : JsonToken} (h : punctuation? c = some token) :
    token.InRange := by
  unfold punctuation? at h
  repeat' split at h
  all_goals cases h <;> trivial

/-- Words hold no numbers. -/
theorem inRange_of_word? {c : Char} {token : JsonToken} {word : List Char}
    (h : word? c = some (token, word)) : token.InRange := by
  unfold word? at h
  repeat' split at h
  all_goals cases h <;> trivial

/-- Any token that is scanned is in range. -/
theorem inRange_of_scanToken {c : Char} {cs rest : List Char} {token : JsonToken}
    (h : scanToken c cs = some (token, rest)) : token.InRange := by
  unfold scanToken at h
  split at h
  · rename_i hpunctuation
    cases h
    exact inRange_of_punctuation? hpunctuation
  · rename_i hword
    obtain ⟨left, -, same⟩ := Option.map_eq_some_iff.1 h
    cases same
    exact inRange_of_word? hword
  · split at h
    · obtain ⟨⟨parts, left⟩, -, same⟩ := Option.map_eq_some_iff.1 h
      cases same
      trivial
    · split at h <;> exact inRange_of_scanNumber h

/-- All tokens of a text are in range. -/
theorem JsonToken.inRange_of_scan {cs : List Char} {tokens : List JsonToken}
    (h : scan cs = some tokens) : ∀ token ∈ tokens, token.InRange := by
  induction cs using scan.induct generalizing tokens with
  | case1 =>
    rw [scan] at h
    cases h
    exact List.forall_mem_nil _
  | case2 c rest blank ih =>
    rw [scan, if_pos blank] at h
    exact ih h
  | case3 c rest visible none =>
    rw [scan_cons (eq_false_of_ne_true visible), none] at h
    cases h
  | case4 c rest visible token left scanned ih =>
    rw [scan_cons (eq_false_of_ne_true visible), scanned] at h
    obtain ⟨others, hothers, rfl⟩ := Option.map_eq_some_iff.1 h
    exact List.forall_mem_cons.2 ⟨inRange_of_scanToken scanned, ih hothers⟩

/-! ### Reading tokens -/

namespace RawJson

/-- What is written, with all its numbers in range. -/
inductive InRange : RawJson → Prop
  | null : InRange null
  | bool (b : Bool) : InRange (bool b)
  | number {value : Option JsonNumber} (range : ∀ n, value = some n → n.InRange) :
      InRange (number value)
  | string (value : Option String) : InRange (string value)
  | array {items : List RawJson} (parts : ∀ item ∈ items, InRange item) : InRange (array items)
  | object {members : List (Option String × RawJson)}
      (parts : ∀ member ∈ members, InRange member.2) : InRange (object members)

/-- What stands in an open bracket, with all its numbers in range. -/
def Frame.InRange : Frame → Prop
  | array before => ∀ item ∈ before, item.InRange
  | object before _ => ∀ member ∈ before, member.2.InRange

theorem inRange_cons {key : Option String} {value : RawJson}
    {before : List (Option String × RawJson)} (hvalue : value.InRange)
    (hbefore : ∀ member ∈ before, member.2.InRange) :
    ∀ member ∈ (key, value) :: before, member.2.InRange :=
  List.forall_mem_cons.2 ⟨hvalue, hbefore⟩

namespace Progress

/-- What was read, with all its numbers in range. -/
def InRange : Progress → Prop
  | atValue frames | atFirstItem frames | atFirstKey frames => ∀ frame ∈ frames, frame.InRange
  | atKey before frames | atColon before _ frames =>
    (∀ member ∈ before, member.2.InRange) ∧ ∀ frame ∈ frames, frame.InRange
  | done value frames => value.InRange ∧ ∀ frame ∈ frames, frame.InRange

/-- A value is begun with a token in range. -/
theorem InRange.start {frames : List Frame} {token : JsonToken} {next : Progress}
    (hframes : ∀ frame ∈ frames, frame.InRange) (htoken : token.InRange)
    (h : Progress.start frames token = some next) : next.InRange := by
  cases token with
  | null | bool | string =>
    cases h
    exact ⟨by constructor, hframes⟩
  | number value =>
    cases h
    refine ⟨.number fun n found => ?_, hframes⟩
    rw [found] at htoken
    exact htoken
  | openArray | openObject =>
    cases h
    exact hframes
  | closeArray | closeObject | colon | comma => cases h

/-- One token in range keeps all that was read so far in range. -/
theorem InRange.step {progress next : Progress} {token : JsonToken} (hrange : progress.InRange)
    (htoken : token.InRange) (h : progress.step token = some next) : next.InRange := by
  unfold Progress.step at h
  split at h
  · exact InRange.start hrange htoken h
  · cases h
    exact ⟨.array (List.forall_mem_nil _), hrange⟩
  · have hempty : (Frame.array []).InRange := List.forall_mem_nil _
    exact InRange.start (List.forall_mem_cons.2 ⟨hempty, hrange⟩) htoken h
  · cases h
    exact ⟨.object (List.forall_mem_nil _), hrange⟩
  · cases h
    exact ⟨List.forall_mem_nil _, hrange⟩
  · cases h
    exact hrange
  · cases h
    exact List.forall_mem_cons.2 hrange
  · -- behind a value, the innermost bracket takes it up and goes on or is closed
    cases h
    obtain ⟨hvalue, hframes⟩ := hrange
    obtain ⟨hbefore, hframes⟩ := List.forall_mem_cons.1 hframes
    exact List.forall_mem_cons.2 ⟨List.forall_mem_cons.2 ⟨hvalue, hbefore⟩, hframes⟩
  · cases h
    obtain ⟨hvalue, hframes⟩ := hrange
    obtain ⟨hbefore, hframes⟩ := List.forall_mem_cons.1 hframes
    -- the items were put in front of one another, and are turned around as the bracket is closed
    refine ⟨.array fun item hitem => ?_, hframes⟩
    exact List.forall_mem_cons.2 ⟨hvalue, hbefore⟩ item (List.mem_reverse.1 hitem)
  · cases h
    obtain ⟨hvalue, hframes⟩ := hrange
    obtain ⟨hbefore, hframes⟩ := List.forall_mem_cons.1 hframes
    exact ⟨inRange_cons hvalue hbefore, hframes⟩
  · cases h
    obtain ⟨hvalue, hframes⟩ := hrange
    obtain ⟨hbefore, hframes⟩ := List.forall_mem_cons.1 hframes
    refine ⟨.object fun member hmember => ?_, hframes⟩
    exact inRange_cons hvalue hbefore member (List.mem_reverse.1 hmember)
  · cases h

/-- Any number of tokens in range keep it so. -/
theorem InRange.steps {progress next : Progress} {tokens : List JsonToken}
    (hrange : progress.InRange) (htokens : ∀ token ∈ tokens, token.InRange)
    (h : progress.steps tokens = some next) : next.InRange := by
  induction tokens generalizing progress with
  | nil =>
    cases h
    exact hrange
  | cons token tokens ih =>
    obtain ⟨htoken, hothers⟩ := List.forall_mem_cons.1 htokens
    obtain ⟨middle, hstep, hsteps⟩ := Option.bind_eq_some_iff.1 h
    exact ih (hrange.step htoken hstep) hothers hsteps

end Progress

/-- All numbers that are read are in range. -/
theorem inRange_of_parse? {text : String} {raw : RawJson} (h : parse? text = some raw) :
    raw.InRange := by
  obtain ⟨tokens, hscan, hread⟩ := Option.bind_eq_some_iff.1 h
  unfold ofTokens? at hread
  split at hread
  · rename_i hsteps
    cases hread
    have start : (Progress.atValue []).InRange := List.forall_mem_nil _
    exact (start.steps (JsonToken.inRange_of_scan hscan) hsteps).1
  · cases hread

end RawJson

/-! ### Making values -/

namespace Json

/-- Members of an object with a member put in are that one and the ones before. -/
theorem mem_insertMember {key : String} {value : Json} {before : List (String × Json)}
    {member : String × Json} (h : member ∈ insertMember key value before) :
    member = (key, value) ∨ member ∈ before := by
  induction before with
  | nil => exact .inl (List.mem_singleton.1 h)
  | cons other before ih =>
    rw [insertMember] at h
    split at h
    · exact List.mem_cons.1 h
    · split at h
      · exact (List.mem_cons.1 h).imp_right (List.mem_cons_of_mem other)
      · obtain rfl | h := List.mem_cons.1 h
        · exact .inr List.mem_cons_self
        · exact (ih h).imp_right (List.mem_cons_of_mem other)

/-- Members stay sorted when one is put among them. -/
theorem pairwise_insertMember {before : List (String × Json)}
    (sorted : before.Pairwise fun a b => a.1 < b.1) (key : String) (value : Json) :
    (insertMember key value before).Pairwise fun a b => a.1 < b.1 := by
  induction before with
  | nil => exact List.pairwise_singleton _ _
  | cons other before ih =>
    obtain ⟨least, sorted⟩ := List.pairwise_cons.1 sorted
    rw [insertMember]
    split
    · rename_i less
      refine List.pairwise_cons.2 ⟨?_, List.pairwise_cons.2 ⟨least, sorted⟩⟩
      exact List.forall_mem_cons.2 ⟨less, fun member hmember =>
        String.lt_trans less (least member hmember)⟩
    · -- a member with the same key is replaced, and one with a greater key goes further back
      split
      · rename_i same
        exact List.pairwise_cons.2 ⟨same ▸ least, sorted⟩
      · rename_i notLess different
        have greater : other.1 < key := by
          have order : key < other.1 ∨ key = other.1 ∨ other.1 < key :=
            Std.Trichotomous.rel_or_eq_or_rel_swap
          exact (order.resolve_left notLess).resolve_left different
        refine List.pairwise_cons.2 ⟨fun member hmember => ?_, ih sorted⟩
        obtain rfl | hmember := mem_insertMember hmember
        · exact greater
        · exact least member hmember

theorem nesting_array_le {items : List Json} {room : Nat}
    (h : ∀ item ∈ items, item.nesting ≤ room) : (array items).nesting ≤ room + 1 :=
  Nat.succ_le_succ (itemsNesting_le_iff.2 h)

theorem nesting_object_le {members : List (String × Json)} {room : Nat}
    (h : ∀ member ∈ members, member.2.nesting ≤ room) : (object members).nesting ≤ room + 1 :=
  Nat.succ_le_succ (membersNesting_le_iff.2 h)

/-- A value of a text that has room for it. -/
def Fits (room : Nat) (json : Json) : Prop := json.IsValue ∧ json.nesting ≤ room

end Json

namespace RawJson

open Json (Fits)

/-- Items that are read fit if what each of them is read from does. -/
theorem fits_of_itemsToJson? {items : List RawJson} {room : Nat} {values : List Json}
    (h : ∀ item ∈ items, ∀ {json}, item.toJson? room = some json → json.Fits room)
    (hitems : itemsToJson? room items = some values) : ∀ value ∈ values, value.Fits room := by
  induction items generalizing values with
  | nil =>
    cases hitems
    exact List.forall_mem_nil _
  | cons item items ih =>
    obtain ⟨hfirst, hothers⟩ := List.forall_mem_cons.1 h
    obtain ⟨first, hitem, hrest⟩ := Option.bind_eq_some_iff.1 hitems
    obtain ⟨others, hread, same⟩ := Option.bind_eq_some_iff.1 hrest
    cases same
    exact List.forall_mem_cons.2 ⟨hfirst hitem, ih hothers hread⟩

/-- Members that are read are sorted by key, and their values fit. -/
theorem fits_of_membersToJson? {members : List (Option String × RawJson)} {room : Nat}
    {before values : List (String × Json)}
    (h : ∀ member ∈ members, ∀ {json}, member.2.toJson? room = some json → json.Fits room)
    (sorted : before.Pairwise fun a b => a.1 < b.1)
    (hbefore : ∀ member ∈ before, member.2.Fits room)
    (hmembers : membersToJson? room before members = some values) :
    (values.Pairwise fun a b => a.1 < b.1) ∧ ∀ member ∈ values, member.2.Fits room := by
  induction members generalizing before with
  | nil =>
    cases hmembers
    exact ⟨sorted, hbefore⟩
  | cons member members ih =>
    obtain ⟨hfirst, hothers⟩ := List.forall_mem_cons.1 h
    obtain ⟨key, hkey, hmembers⟩ := Option.bind_eq_some_iff.1 hmembers
    obtain ⟨value, hvalue, hmembers⟩ := Option.bind_eq_some_iff.1 hmembers
    have hinserted : ∀ other ∈ Json.insertMember key value before, other.2.Fits room := by
      intro other hother
      obtain rfl | hother := Json.mem_insertMember hother
      · exact hfirst hvalue
      · exact hbefore other hother
    exact ih hothers (Json.pairwise_insertMember sorted key value) hinserted hmembers

/-- A value is made of what is written only if it fits the room. -/
theorem InRange.fits {raw : RawJson} (hrange : raw.InRange) {room : Nat} {json : Json}
    (h : raw.toJson? room = some json) : json.Fits room := by
  induction hrange generalizing room json with
  | null =>
    cases h
    exact ⟨.null, Nat.zero_le room⟩
  | bool b =>
    cases h
    exact ⟨.bool b, Nat.zero_le room⟩
  | number range =>
    obtain ⟨n, found, rfl⟩ := Option.map_eq_some_iff.1 h
    exact ⟨.number (range n found), Nat.zero_le room⟩
  | string value =>
    obtain ⟨s, -, rfl⟩ := Option.map_eq_some_iff.1 h
    exact ⟨.string s, Nat.zero_le room⟩
  | array parts ih =>
    -- a bracket without room is an error, and within it there is room for one less
    cases room with
    | zero => cases h
    | succ inner =>
      obtain ⟨values, hvalues, rfl⟩ := Option.map_eq_some_iff.1 h
      have inside := fits_of_itemsToJson? (fun item hitem _ h => ih item hitem h) hvalues
      exact ⟨.array fun value hvalue => (inside value hvalue).1,
        Json.nesting_array_le fun value hvalue => (inside value hvalue).2⟩
  | object parts ih =>
    cases room with
    | zero => cases h
    | succ inner =>
      obtain ⟨values, hvalues, rfl⟩ := Option.map_eq_some_iff.1 h
      obtain ⟨sorted, inside⟩ := fits_of_membersToJson?
        (fun member hmember _ h => ih member hmember h) List.Pairwise.nil (List.forall_mem_nil _)
        hvalues
      exact ⟨.object sorted fun member hmember => (inside member hmember).1,
        Json.nesting_object_le fun member hmember => (inside member hmember).2⟩

end RawJson

namespace Json

/-- What is read of a text is a value of a text, and is nested as far as texts are. -/
theorem fits_of_parse? {text : String} {json : Json} (h : parse? text = some json) :
    json.Fits jsonRoom := by
  obtain ⟨raw, hraw, hvalue⟩ := Option.bind_eq_some_iff.1 h
  exact (RawJson.inRange_of_parse? hraw).fits hvalue

/-- A value whose doubles read back is read back exactly if it is a value of a text
    and nested as far as texts are. -/
theorem parse?_text_iff {json : Json} (reads : ∀ x, .double x ∈ json.numbers → ReadsBack x) :
    parse? json.text = some json ↔ json.IsValue ∧ json.nesting ≤ jsonRoom :=
  ⟨fits_of_parse?, fun ⟨value, nesting⟩ => value.parse?_eq_some reads nesting⟩

end Json

end ExprTree

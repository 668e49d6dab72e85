import ExprTree.Json.Numeral

namespace ExprTree

/-!
# JSON tokens

`JsonToken.scan` cuts a text into the tokens of JSON, blanks left out.  It
accepts every text that the grammar of tokens allows.  Two kinds of token are
well formed and yet have no value: a number beyond the range of doubles, and a
string with half a surrogate pair.
-/

/-- A token.  `none` stands for the value of a number or string that has none. -/
inductive JsonToken where
  | openArray
  | closeArray
  | openObject
  | closeObject
  | colon
  | comma
  | null
  | bool (b : Bool)
  | number (value : Option JsonNumber)
  | string (value : Option String)

/-- The characters between tokens. -/
def isJsonBlank (c : Char) : Bool :=
  c == ' ' || c == '\t' || c == '\n' || c == '\r'

/-! ### Numbers -/

/-- The digits in front of a text, at least one, and the text after them. -/
def scanDigits (cs : List Char) : Option (List Char × List Char) :=
  match cs.takeWhile Char.isDigit with
  | [] => none
  | digits => some (digits, cs.dropWhile Char.isDigit)

/-- The digits after a point, if there is one. -/
def scanFraction : List Char → Option (Option (List Char) × List Char)
  | '.' :: cs => (scanDigits cs).map fun (digits, rest) => (some digits, rest)
  | cs => some (none, cs)

/-- Whether a text begins with a minus sign, and the text after its sign. -/
def splitSign : List Char → Bool × List Char
  | '-' :: cs => (true, cs)
  | '+' :: cs => (false, cs)
  | cs => (false, cs)

/-- The exponent of a number, if there is one. -/
def scanExponent : List Char → Option (Option Int × List Char)
  | c :: cs =>
    if c = 'e' ∨ c = 'E' then
      (scanDigits (splitSign cs).2).map fun (digits, rest) =>
        let exponent : Int := digitsValue digits
        (some (if (splitSign cs).1 then -exponent else exponent), rest)
    else some (none, c :: cs)
  | [] => some (none, [])

/-- A number behind its sign.  A leading zero stands alone. -/
def scanUnsigned (negative : Bool) (cs : List Char) :
    Option (Option JsonNumber × List Char) := do
  let (whole, cs) ← scanDigits cs
  if whole.head? = some '0' ∧ 1 < whole.length then none
  else
    let (fraction, cs) ← scanFraction cs
    let (exponent, cs) ← scanExponent cs
    return (Numeral.value? ⟨negative, whole, fraction, exponent⟩, cs)

/-! ### Strings -/

/-- The value of a hexadecimal digit. -/
def hexValue? (c : Char) : Option Nat :=
  if '0' ≤ c ∧ c ≤ '9' then some (c.toNat - '0'.toNat)
  else if 'a' ≤ c ∧ c ≤ 'f' then some (c.toNat - 'a'.toNat + 10)
  else if 'A' ≤ c ∧ c ≤ 'F' then some (c.toNat - 'A'.toNat + 10)
  else none

/-- Four hexadecimal digits. -/
def hexUnit? (a b c d : Char) : Option Nat := do
  let a ← hexValue? a
  let b ← hexValue? b
  let c ← hexValue? c
  let d ← hexValue? d
  return ((a * 16 + b) * 16 + c) * 16 + d

/-- A piece of a string: a character, or half a surrogate pair. -/
inductive StringPart where
  | char (c : Char)
  | high (unit : Nat)
  | low (unit : Nat)

/-- The piece that a unit of UTF-16 stands for. -/
def StringPart.ofUnit (unit : Nat) : StringPart :=
  if unit < 0xD800 ∨ 0xE000 ≤ unit then .char (Char.ofNat unit)
  else if unit < 0xDC00 then .high unit
  else .low unit

/-- The character of a surrogate pair. -/
def surrogatePair (high low : Nat) : Char :=
  Char.ofNat (0x10000 + (high - 0xD800) * 0x400 + (low - 0xDC00))

/-- The character of an escape other than one by code. -/
def escapedChar? (c : Char) : Option Char :=
  if c = '"' then some '"'
  else if c = '\\' then some '\\'
  else if c = '/' then some '/'
  else if c = 'b' then some '\x08'
  else if c = 'f' then some '\x0c'
  else if c = 'n' then some '\n'
  else if c = 'r' then some '\r'
  else if c = 't' then some '\t'
  else none

/-- Puts a piece in front of those found after it. -/
def consPart (part : StringPart) (scanned : Option (List StringPart × List Char)) :
    Option (List StringPart × List Char) :=
  scanned.map fun (parts, rest) => (part :: parts, rest)

/-- The pieces of a string up to its closing quote, and the text after that.
    Controls must be escaped. -/
def scanParts : List Char → Option (List StringPart × List Char)
  | [] => none
  | '"' :: rest => some ([], rest)
  | '\\' :: 'u' :: a :: b :: c :: d :: rest =>
    match hexUnit? a b c d with
    | some unit => consPart (.ofUnit unit) (scanParts rest)
    | none => none
  | '\\' :: c :: rest =>
    match escapedChar? c with
    | some escaped => consPart (.char escaped) (scanParts rest)
    | none => none
  | c :: rest => if c < ' ' then none else consPart (.char c) (scanParts rest)

/-- The characters of a string, if every half of a pair has its other half. -/
def joinParts? : List StringPart → Option (List Char)
  | [] => some []
  | .char c :: rest => (joinParts? rest).map (c :: ·)
  | .high high :: .low low :: rest => (joinParts? rest).map (surrogatePair high low :: ·)
  | _ :: _ => none

/-! ### Tokens -/

/-- The text after a word. -/
def afterWord? : List Char → List Char → Option (List Char)
  | [], rest => some rest
  | w :: word, c :: rest => if w = c then afterWord? word rest else none
  | _ :: _, [] => none

/-- The string behind its opening quote, and the text after it. -/
def scanString (cs : List Char) : Option (JsonToken × List Char) :=
  (scanParts cs).map fun (parts, rest) => (.string ((joinParts? parts).map String.ofList), rest)

/-- The number behind its sign, and the text after it. -/
def scanNumber (negative : Bool) (cs : List Char) : Option (JsonToken × List Char) :=
  (scanUnsigned negative cs).map fun (value, rest) => (.number value, rest)

/-- The token `token` if a text begins with `word`, and the text after it. -/
def scanWord (token : JsonToken) (word cs : List Char) : Option (JsonToken × List Char) :=
  (afterWord? word cs).map (token, ·)

/-- The tokens of one character. -/
def punctuation? (c : Char) : Option JsonToken :=
  if c = '[' then some .openArray
  else if c = ']' then some .closeArray
  else if c = '\x7b' then some .openObject
  else if c = '\x7d' then some .closeObject
  else if c = ':' then some .colon
  else if c = ',' then some .comma
  else none

/-- The tokens that are words, with what follows their first character. -/
def word? (c : Char) : Option (JsonToken × List Char) :=
  if c = 'n' then some (.null, ['u', 'l', 'l'])
  else if c = 't' then some (.bool true, ['r', 'u', 'e'])
  else if c = 'f' then some (.bool false, ['a', 'l', 's', 'e'])
  else none

/-- The token that begins with `c`, and the text after it. -/
def scanToken (c : Char) (rest : List Char) : Option (JsonToken × List Char) :=
  match punctuation? c, word? c with
  | some token, _ => some (token, rest)
  | none, some (token, word) => scanWord token word rest
  | none, none =>
    if c = '"' then scanString rest
    else if c = '-' then scanNumber true rest
    else scanNumber false (c :: rest)

/-! ### Every token takes something -/

theorem length_lt_of_scanDigits {cs digits rest : List Char}
    (h : scanDigits cs = some (digits, rest)) : rest.length < cs.length := by
  unfold scanDigits at h
  split at h
  · cases h
  · rename_i found
    cases h
    have split : cs.takeWhile Char.isDigit ++ cs.dropWhile Char.isDigit = cs :=
      List.takeWhile_append_dropWhile
    have whole := congrArg List.length split
    have := List.length_pos_iff.2 found
    rw [List.length_append] at whole
    omega

theorem length_le_of_scanFraction {cs rest : List Char} {fraction : Option (List Char)}
    (h : scanFraction cs = some (fraction, rest)) : rest.length ≤ cs.length := by
  unfold scanFraction at h
  split at h
  · obtain ⟨⟨digits, rest'⟩, scanned, same⟩ := Option.map_eq_some_iff.1 h
    cases same
    have := length_lt_of_scanDigits scanned
    grind
  · cases h
    exact Nat.le_refl _

theorem length_splitSign_le (cs : List Char) : (splitSign cs).2.length ≤ cs.length := by
  unfold splitSign
  split <;> simp

theorem length_le_of_scanExponent {cs rest : List Char} {exponent : Option Int}
    (h : scanExponent cs = some (exponent, rest)) : rest.length ≤ cs.length := by
  unfold scanExponent at h
  split at h
  · rename_i c cs
    split at h
    · obtain ⟨⟨digits, rest'⟩, scanned, same⟩ := Option.map_eq_some_iff.1 h
      cases same
      have shorter := length_lt_of_scanDigits scanned
      have sign := length_splitSign_le cs
      grind
    · cases h
      exact Nat.le_refl _
  · cases h
    exact Nat.le_refl _

theorem length_lt_of_scanUnsigned {negative : Bool} {cs rest : List Char}
    {value : Option JsonNumber} (h : scanUnsigned negative cs = some (value, rest)) :
    rest.length < cs.length := by
  unfold scanUnsigned at h
  simp only [Option.bind_eq_bind, Option.bind_eq_some_iff, Prod.exists] at h
  obtain ⟨whole, cs₁, digits, h⟩ := h
  split at h
  · cases h
  · simp only [Option.bind_eq_some_iff, Prod.exists] at h
    obtain ⟨fraction, cs₂, decimals, exponent, cs₃, power, h⟩ := h
    cases h
    have := length_lt_of_scanDigits digits
    have := length_le_of_scanFraction decimals
    have := length_le_of_scanExponent power
    omega

theorem exists_of_consPart {part : StringPart} {scanned : Option (List StringPart × List Char)}
    {parts : List StringPart} {rest : List Char} (h : consPart part scanned = some (parts, rest)) :
    ∃ others, scanned = some (others, rest) := by
  obtain ⟨⟨others, rest'⟩, found, same⟩ := Option.map_eq_some_iff.1 h
  cases same
  exact ⟨others, found⟩

theorem length_lt_of_scanParts {cs rest : List Char} {parts : List StringPart}
    (h : scanParts cs = some (parts, rest)) : rest.length < cs.length := by
  fun_induction scanParts cs generalizing parts <;>
    grind [exists_of_consPart]

theorem length_le_of_afterWord? {word cs rest : List Char}
    (h : afterWord? word cs = some rest) : rest.length ≤ cs.length := by
  fun_induction afterWord? word cs <;> grind

theorem length_lt_of_scanString {cs rest : List Char} {token : JsonToken}
    (h : scanString cs = some (token, rest)) : rest.length < cs.length := by
  obtain ⟨⟨parts, rest'⟩, scanned, same⟩ := Option.map_eq_some_iff.1 h
  cases same
  exact length_lt_of_scanParts scanned

theorem length_lt_of_scanNumber {negative : Bool} {cs rest : List Char} {token : JsonToken}
    (h : scanNumber negative cs = some (token, rest)) : rest.length < cs.length := by
  obtain ⟨⟨value, rest'⟩, scanned, same⟩ := Option.map_eq_some_iff.1 h
  cases same
  exact length_lt_of_scanUnsigned scanned

theorem length_le_of_scanWord {word cs rest : List Char} {found token : JsonToken}
    (h : scanWord found word cs = some (token, rest)) : rest.length ≤ cs.length := by
  obtain ⟨rest', scanned, same⟩ := Option.map_eq_some_iff.1 h
  cases same
  exact length_le_of_afterWord? scanned

theorem length_le_of_scanToken {c : Char} {cs rest : List Char} {token : JsonToken}
    (h : scanToken c cs = some (token, rest)) : rest.length ≤ cs.length := by
  unfold scanToken at h
  repeat' split at h
  all_goals
    grind [→ length_lt_of_scanString, → length_lt_of_scanNumber, → length_le_of_scanWord]

namespace JsonToken

/-- The tokens of a text. -/
def scan : List Char → Option (List JsonToken)
  | [] => some []
  | c :: rest =>
    if isJsonBlank c then scan rest
    else match _scanned : scanToken c rest with
      | none => none
      | some (token, rest') => (scan rest').map (token :: ·)
termination_by cs => cs.length
decreasing_by
  · simp
  · exact Nat.lt_succ_of_le (length_le_of_scanToken _scanned)

end JsonToken

end ExprTree

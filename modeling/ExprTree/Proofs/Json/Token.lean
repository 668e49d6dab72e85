import ExprTree.Proofs.Json.Basic

namespace ExprTree

/-!
# Scanning brackets, words and strings

These tokens end on their own, so whatever text stands after one of them is
scanned as it would be alone.  Numerals are another matter.
-/

namespace JsonToken

/-! ### Brackets and words -/

/-- A visible character begins a token, and the rest is scanned behind it. -/
theorem scan_cons {c : Char} (h : isJsonBlank c = false) (cs : List Char) :
    scan (c :: cs) = (scanToken c cs).bind fun (token, left) => (scan left).map (token :: ·) := by
  rw [scan]
  simp only [h, Bool.false_eq_true, if_false]
  split <;> simp [*]

/-- Punctuation is a token whatever follows it. -/
theorem scan_punctuation {c : Char} {token : JsonToken} (h : punctuation? c = some token)
    (rest : List Char) : scan (c :: rest) = (scan rest).map (token :: ·) := by
  have visible : isJsonBlank c = false := by
    unfold punctuation? at h
    repeat' split at h
    all_goals first | (subst_vars; decide) | cases h
  rw [scan_cons visible]
  simp [scanToken, h]

theorem afterWord?_append (word rest : List Char) : afterWord? word (word ++ rest) = some rest := by
  induction word with
  | nil => simp [afterWord?]
  | cons c word ih => simp [afterWord?, ih]

/-- A word is a token whatever follows it. -/
theorem scan_word {c : Char} {token : JsonToken} {word : List Char}
    (h : word? c = some (token, word)) (rest : List Char) :
    scan (c :: (word ++ rest)) = (scan rest).map (token :: ·) := by
  have other : isJsonBlank c = false ∧ punctuation? c = none := by
    unfold word? at h
    repeat' split at h
    all_goals first | (subst_vars; decide) | cases h
  rw [scan_cons other.1]
  simp [scanToken, other.2, h, scanWord, afterWord?_append]

end JsonToken

/-! ### Strings -/

/-- The digits that a control character is escaped with are read as its code. -/
theorem hexUnit?_of_lt {n : Nat} (h : n < 32) :
    hexUnit? '0' '0' (Nat.digitChar (n / 16)) (Nat.digitChar (n % 16)) = some n := by
  have all : ∀ n < 32,
      hexUnit? '0' '0' (Nat.digitChar (n / 16)) (Nat.digitChar (n % 16)) = some n := by decide
  exact all n h

/-- A character is scanned from what is written for it. -/
theorem scanParts_escapeJsonChar (c : Char) (rest : List Char) :
    scanParts (escapeJsonChar c ++ rest) = consPart (.char c) (scanParts rest) := by
  unfold escapeJsonChar
  -- The characters with a short escape come first, one by one.
  iterate 7
    split
    · subst_vars
      simp [scanParts, escapedChar?]
  split
  · rename_i control
    have small : c.toNat < 32 := control
    have unit : StringPart.ofUnit c.toNat = .char c := by
      rw [StringPart.ofUnit, if_pos (Or.inl (by omega)), Char.ofNat_toNat]
    simp [scanParts, hexUnit?_of_lt small, unit]
  · rename_i backslash _ _ _ _ _ plain
    simp [scanParts, backslash, plain]

/-- Characters that are escaped are read as themselves, up to the closing quote. -/
theorem scanParts_escaped (cs rest : List Char) :
    scanParts (cs.flatMap escapeJsonChar ++ '"' :: rest) = some (cs.map .char, rest) := by
  induction cs with
  | nil => simp [scanParts]
  | cons c cs ih =>
    rw [List.flatMap_cons, List.append_assoc, scanParts_escapeJsonChar, ih]
    rfl

theorem joinParts?_map_char (cs : List Char) : joinParts? (cs.map .char) = some cs := by
  induction cs with
  | nil => rfl
  | cons c cs ih => simp [joinParts?, ih]

/-- A printed string is scanned as that string, whatever follows it. -/
theorem JsonToken.scan_string_append (s : String) (rest : List Char) :
    scan (jsonStringChars s ++ rest) = (scan rest).map (.string (some s) :: ·) := by
  have body : scanToken '"' (s.toList.flatMap escapeJsonChar ++ ('"' :: rest))
      = some (.string (some s), rest) := by
    show scanString _ = _
    simp [scanString, scanParts_escaped, joinParts?_map_char]
  rw [jsonStringChars, List.cons_append, List.append_assoc, List.singleton_append,
    scan_cons (by decide), body]
  rfl

end ExprTree

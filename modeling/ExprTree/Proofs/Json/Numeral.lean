import ExprTree.Proofs.Json.Token

namespace ExprTree

/-!
# Numerals are read as the numbers they are printed for

A numeral has no end of its own: it goes on as long as the text does.  So what is
read of a numeral depends on the text after it, unless that text `Closes` it, as
a comma, a bracket or the end does.  `Extends` says of a scanner that this is the
only way in which it looks ahead; the scanners of the parts of a numeral have the
property, and it composes.

* `JsonNumber.readable_integer` — an integer of 64 bits is read as itself;
* `ReadsBack.readable` — a double that reads back from a text of its own reads
  back from its numeral;
* `JsonNumber.Readable.scan_append` — what is read of a numeral on its own is read
  in front of any text that closes it.
-/

/-! ### Scanners and what follows -/

/-- Whether a numeral in front of a text ends there. -/
def Closes (rest : List Char) : Prop :=
  ∀ c ∈ rest.head?, c.isDigit = false ∧ c ≠ '.' ∧ c ≠ 'e' ∧ c ≠ 'E'

theorem closes_nil : Closes [] := by
  simp [Closes]

/-- A character that no numeral goes on with closes it. -/
theorem closes_cons {c : Char} {rest : List Char}
    (h : c.isDigit = false ∧ c ≠ '.' ∧ c ≠ 'e' ∧ c ≠ 'E') : Closes (c :: rest) := by
  simpa [Closes] using h

/-- A scanner leaves the end of a text, and a text that closes what it has scanned
    is just left as well. -/
structure Extends {α : Type} (scan : List Char → Option (α × List Char)) : Prop where
  suffix : ∀ {cs a left}, scan cs = some (a, left) → left <:+ cs
  append : ∀ {cs a left rest}, scan cs = some (a, left) → Closes rest →
    scan (cs ++ rest) = some (a, left ++ rest)

namespace Extends

variable {α β : Type} {scan : List Char → Option (α × List Char)}

/-- What a scanner makes of the text it took does not matter to where it stops. -/
theorem map (h : Extends scan) (f : α → β) :
    Extends fun cs => (scan cs).map fun (a, left) => (f a, left) where
  suffix hscan := by
    obtain ⟨⟨a, left⟩, hscan, same⟩ := Option.map_eq_some_iff.1 hscan
    cases same
    exact h.suffix hscan
  append hscan hrest := by
    obtain ⟨⟨a, left⟩, hscan, same⟩ := Option.map_eq_some_iff.1 hscan
    cases same
    simp [h.append hscan hrest]

/-- One scanner after another looks ahead no further than the second one does. -/
theorem bind {next : α → List Char → Option (β × List Char)} (h : Extends scan)
    (hnext : ∀ a, Extends (next a)) :
    Extends fun cs => (scan cs).bind fun (a, left) => next a left where
  suffix hscan := by
    obtain ⟨⟨a, left⟩, hfirst, hsecond⟩ := Option.bind_eq_some_iff.1 hscan
    exact ((hnext a).suffix hsecond).trans (h.suffix hfirst)
  append hscan hrest := by
    obtain ⟨⟨a, left⟩, hfirst, hsecond⟩ := Option.bind_eq_some_iff.1 hscan
    simp [h.append hfirst hrest, (hnext a).append hsecond hrest]

/-- A scanner that takes nothing does not look ahead at all. -/
theorem pure (a : α) : Extends fun cs => some (a, cs) where
  suffix hscan := by cases hscan; exact List.suffix_refl _
  append hscan _ := by cases hscan; rfl

end Extends

/-! ### The parts of a numeral -/

/-- Digits are scanned up to the first character that is none. -/
theorem scanDigits_eq_some_iff {cs digits left : List Char} :
    scanDigits cs = some (digits, left) ↔
      cs = digits ++ left ∧ digits ≠ [] ∧ (∀ c ∈ digits, c.isDigit) ∧
        ∀ c ∈ left.head?, c.isDigit = false := by
  constructor
  · intro h
    unfold scanDigits at h
    split at h
    · cases h
    · rename_i found
      cases h
      refine ⟨List.takeWhile_append_dropWhile.symm, found, ?_, fun c hc => ?_⟩
      · exact List.all_eq_true.1 List.all_takeWhile
      · have first := List.head?_dropWhile_not Char.isDigit cs
        rw [Option.mem_def.1 hc] at first
        exact first
  · rintro ⟨rfl, found, hdigits, hleft⟩
    -- both halves of the scan stop between `digits` and `left`
    have taken : (digits ++ left).takeWhile Char.isDigit = digits := by
      rw [List.takeWhile_append_of_pos hdigits]
      cases left with
      | nil => simp
      | cons c left => simp [hleft c rfl]
    have dropped : (digits ++ left).dropWhile Char.isDigit = left := by
      rw [List.dropWhile_append_of_pos hdigits]
      cases left with
      | nil => rfl
      | cons c left => simp [hleft c rfl]
    simp only [scanDigits, taken, dropped]

/-- Digits are taken as long as there are any, and what closes a numeral is not a digit. -/
theorem extends_scanDigits : Extends scanDigits where
  suffix hscan := by
    obtain ⟨rfl, -⟩ := scanDigits_eq_some_iff.1 hscan
    exact List.suffix_append _ _
  append {cs digits left rest} hscan hrest := by
    obtain ⟨rfl, found, hdigits, hleft⟩ := scanDigits_eq_some_iff.1 hscan
    refine scanDigits_eq_some_iff.2 ⟨List.append_assoc _ _ _, found, hdigits, ?_⟩
    cases left with
    | nil => exact fun c hc => (hrest c hc).1
    | cons c left => exact hleft

/-- A fraction begins with a point and goes on with digits. -/
theorem extends_scanFraction : Extends scanFraction where
  suffix hscan := by
    unfold scanFraction at hscan
    split at hscan
    · exact ((extends_scanDigits.map some).suffix hscan).trans (List.suffix_cons _ _)
    · cases hscan
      exact List.suffix_refl _
  append {cs fraction left rest} hscan hrest := by
    cases cs with
    | nil =>
      -- no fraction was found in nothing, so there must be none in `rest` either
      cases hscan
      cases rest with
      | nil => rfl
      | cons c rest =>
        have other := (hrest c rfl).2.1
        simp [scanFraction, other]
    | cons c cs =>
      -- text that begins with another character has no fraction, and that character is
      -- all that is looked at
      by_cases point : c = '.'
      · subst point
        exact (extends_scanDigits.map some).append hscan hrest
      · simp only [scanFraction.eq_def, List.cons_append] at hscan ⊢
        split at hscan
        · rename_i same
          exact absurd (List.cons.inj same).1 point
        · cases hscan
          simp [point]

/-- There is text behind which a sign is looked for, so the text after it is not looked at. -/
theorem splitSign_append {cs : List Char} (h : cs ≠ []) (rest : List Char) :
    splitSign (cs ++ rest) = ((splitSign cs).1, (splitSign cs).2 ++ rest) := by
  cases cs with
  | nil => exact absurd rfl h
  | cons c cs =>
    by_cases minus : c = '-'
    · subst minus; rfl
    · by_cases plus : c = '+'
      · subst plus; rfl
      · simp [splitSign, minus, plus]

/-- A sign is taken off the front. -/
theorem splitSign_suffix (cs : List Char) : (splitSign cs).2 <:+ cs := by
  unfold splitSign
  split
  · exact List.suffix_cons _ _
  · exact List.suffix_cons _ _
  · exact List.suffix_refl _

/-- An exponent begins with its mark, a sign may follow, and then there are digits. -/
theorem extends_scanExponent : Extends scanExponent where
  suffix {cs exponent left} hscan := by
    cases cs with
    | nil =>
      cases hscan
      exact List.suffix_refl _
    | cons c cs =>
      simp only [scanExponent] at hscan
      split at hscan
      · obtain ⟨⟨digits, left⟩, hdigits, same⟩ := Option.map_eq_some_iff.1 hscan
        cases same
        exact ((extends_scanDigits.suffix hdigits).trans (splitSign_suffix cs)).trans
          (List.suffix_cons _ _)
      · cases hscan
        exact List.suffix_refl _
  append {cs exponent left rest} hscan hrest := by
    cases cs with
    | nil =>
      cases hscan
      cases rest with
      | nil => rfl
      | cons c rest =>
        have other := (hrest c rfl).2.2
        simp [scanExponent, other]
    | cons c cs =>
      simp only [scanExponent, List.cons_append] at hscan ⊢
      split
      · rw [if_pos ‹_›] at hscan
        obtain ⟨⟨digits, left⟩, hdigits, same⟩ := Option.map_eq_some_iff.1 hscan
        cases same
        -- digits were found behind the sign, so the sign does not come from `rest`
        have more : cs ≠ [] := by
          rintro rfl
          simp [splitSign, scanDigits] at hdigits
        rw [splitSign_append more]
        simp [extends_scanDigits.append hdigits hrest]
      · rw [if_neg ‹_›] at hscan
        cases hscan
        rfl

/-- The parts behind the whole digits, and the value of all parts. -/
def scanTail (negative : Bool) (whole cs : List Char) :
    Option (Option JsonNumber × List Char) :=
  if whole.head? = some '0' ∧ 1 < whole.length then none
  else (scanFraction cs).bind fun (fraction, cs) => (scanExponent cs).bind fun (exponent, cs) =>
    some (Numeral.value? ⟨negative, whole, fraction, exponent⟩, cs)

/-- The parts behind the whole digits look ahead no further than each of them does. -/
theorem extends_scanTail (negative : Bool) (whole : List Char) :
    Extends (scanTail negative whole) := by
  unfold scanTail
  split
  · exact ⟨nofun, nofun⟩
  · exact extends_scanFraction.bind fun fraction => extends_scanExponent.bind fun exponent =>
      Extends.pure (Numeral.value? ⟨negative, whole, fraction, exponent⟩)

theorem extends_scanUnsigned (negative : Bool) : Extends (scanUnsigned negative) :=
  extends_scanDigits.bind (extends_scanTail negative)

theorem extends_scanNumber (negative : Bool) : Extends (scanNumber negative) :=
  (extends_scanUnsigned negative).map JsonToken.number

/-! ### The numeral of an integer -/

/-- Further digits only make a number greater. -/
theorem le_ofDigitChars (digits : List Char) (n : Nat) : n ≤ Nat.ofDigitChars 10 digits n := by
  induction digits generalizing n with
  | nil => exact Nat.le_refl n
  | cons c digits ih =>
    have rest := ih (10 * n + (c.toNat - '0'.toNat))
    rw [Nat.ofDigitChars_cons]
    omega

/-- Digits of which none is dropped because the natural that they make has 64 bits. -/
theorem appendDigits_of_lt {digits : List Char} {n : Nat}
    (h : Nat.ofDigitChars 10 digits n < wordLimit) :
    appendDigits n digits = (Nat.ofDigitChars 10 digits n, []) := by
  induction digits generalizing n with
  | nil => rfl
  | cons c digits ih =>
    rw [Nat.ofDigitChars_cons] at h ⊢
    have first : 10 * n + digitValue c < wordLimit := Nat.lt_of_le_of_lt (le_ofDigitChars _ _) h
    rw [appendDigits, if_pos first]
    exact ih h

/-- All the digits of a 64-bit number are kept. -/
theorem kept_toDigits {n : Nat} (h : n < wordLimit) (negative : Bool) :
    Numeral.kept ⟨negative, Nat.toDigits 10 n, none, none⟩ = (n, 0) := by
  have value : Nat.ofDigitChars 10 (Nat.toDigits 10 n) 0 = n := Nat.ofDigitChars_ten_toDigits
  have whole : appendDigits 0 (Nat.toDigits 10 n) = (n, []) := by
    rw [appendDigits_of_lt (value.symm ▸ h), value]
  simp [Numeral.kept, whole, appendDigits]

/-- Only zero is written with a leading zero. -/
theorem head?_toDigits_ne {n : Nat} (h : 0 < n) : (Nat.toDigits 10 n).head? ≠ some '0' := by
  induction n using Nat.strongRecOn with
  | ind n ih =>
    rw [Nat.toDigits_eq_if (by decide)]
    split
    · simpa [Nat.digitChar_eq_zero] using Nat.ne_of_gt h
    · obtain ⟨c, digits, same⟩ := List.exists_cons_of_ne_nil
        (Nat.toDigits_ne_nil : Nat.toDigits 10 (n / 10) ≠ [])
      have leading := ih (n / 10) (by omega) (by omega)
      rw [same] at leading ⊢
      exact leading

/-- The digits of a number are taken to the last one. -/
theorem scanDigits_toDigits (n : Nat) :
    scanDigits (Nat.toDigits 10 n) = some (Nat.toDigits 10 n, []) :=
  scanDigits_eq_some_iff.2 ⟨(List.append_nil _).symm, Nat.toDigits_ne_nil,
    fun _ hc => Nat.isDigit_of_mem_toDigits (by decide) (by decide) hc, nofun⟩

/-- A numeral of digits alone has no fraction and no exponent. -/
theorem scanNumber_toDigits (negative : Bool) (n : Nat) :
    scanNumber negative (Nat.toDigits 10 n)
      = some (.number (Numeral.value? ⟨negative, Nat.toDigits 10 n, none, none⟩), []) := by
  -- no zero stands in front of further digits, for digits behind a leading zero would be refused
  have single : ¬((Nat.toDigits 10 n).head? = some '0' ∧ 1 < (Nat.toDigits 10 n).length) := by
    rintro ⟨leading, long⟩
    obtain rfl | positive := Nat.eq_zero_or_pos n
    · exact absurd long (by decide)
    · exact head?_toDigits_ne positive leading
  simp [scanNumber, scanUnsigned, scanDigits_toDigits, single, scanFraction, scanExponent]

/-- The number that a text begins with, behind the minus sign if there is one. -/
def scanNumeral : List Char → Option (JsonToken × List Char)
  | '-' :: cs => scanNumber true cs
  | cs => scanNumber false cs

/-- Without a minus sign in front a numeral is not negative. -/
theorem scanNumeral_of_ne {cs : List Char} (h : cs.head? ≠ some '-') :
    scanNumeral cs = scanNumber false cs := by
  unfold scanNumeral
  split
  · exact absurd rfl h
  · rfl

theorem JsonNumber.chars_ofNat (n : Nat) : (integer (.ofNat n)).chars = Nat.toDigits 10 n :=
  Nat.toList_repr

theorem JsonNumber.chars_negSucc (n : Nat) :
    (integer (.negSucc n)).chars = '-' :: Nat.toDigits 10 (n + 1) := by
  simp [JsonNumber.chars, toString, Int.repr]

/-- The numeral of a 64-bit integer is read as that integer, to its last character. -/
theorem scanNumeral_integer {n : Int} (range : (JsonNumber.integer n).InRange) :
    scanNumeral (JsonNumber.integer n).chars = some (.number (some (.integer n)), []) := by
  obtain ⟨least, greatest⟩ := range
  cases n with
  | ofNat n =>
    have bound : n < wordLimit := Int.ofNat_lt.1 greatest
    have value : Numeral.value? ⟨false, Nat.toDigits 10 n, none, none⟩ = some (.integer n) := by
      simp [Numeral.value?, Numeral.integer?, Numeral.isWhole, kept_toDigits bound]
    have unsigned : (Nat.toDigits 10 n).head? ≠ some '-' := fun minus =>
      absurd (Nat.isDigit_of_mem_toDigits (by decide) (by decide) (List.mem_of_mem_head? minus))
        (by decide)
    rw [JsonNumber.chars_ofNat, scanNumeral_of_ne unsigned, scanNumber_toDigits, value]
    rfl
  | negSucc n =>
    have magnitude : n + 1 ≤ Nat.pow 2 63 := by omega
    have bound : n + 1 < wordLimit := Nat.lt_of_le_of_lt magnitude (by decide)
    have value : Numeral.value? ⟨true, Nat.toDigits 10 (n + 1), none, none⟩
        = some (.integer (.negSucc n)) := by
      -- the least integer is one further from zero than the greatest signed one
      have within : ¬(n + 1 = 0 ∨ Nat.pow 2 63 < n + 1) := by
        rintro (h | h)
        · cases h
        · exact Nat.not_lt_of_le magnitude h
      simp only [Numeral.value?, Numeral.integer?, Numeral.isWhole, kept_toDigits bound, within]
      rfl
    rw [JsonNumber.chars_negSucc]
    show scanNumber true (Nat.toDigits 10 (n + 1)) = _
    rw [scanNumber_toDigits, value]

/-! ### The characters of numerals -/

/-- The characters that printed numerals consist of. -/
def isNumeralChar (c : Char) : Bool :=
  c.isDigit || c == '-' || c == '+' || c == '.' || c == 'e'

/-- A character of numerals is none that does not occur in them. -/
theorem ne_of_isNumeralChar {c d : Char} (hc : isNumeralChar c) (hd : isNumeralChar d = false) :
    c ≠ d := by
  rintro rfl
  exact absurd hc (by simp [hd])

/-- A numeral holds no blanks. -/
theorem isJsonBlank_of_isNumeralChar {c : Char} (h : isNumeralChar c) : isJsonBlank c = false := by
  simp [isJsonBlank, ne_of_isNumeralChar h (show isNumeralChar ' ' = false by decide),
    ne_of_isNumeralChar h (show isNumeralChar '\t' = false by decide),
    ne_of_isNumeralChar h (show isNumeralChar '\n' = false by decide),
    ne_of_isNumeralChar h (show isNumeralChar '\r' = false by decide)]

/-- A numeral holds no punctuation. -/
theorem punctuation?_of_isNumeralChar {c : Char} (h : isNumeralChar c) : punctuation? c = none := by
  unfold punctuation?
  repeat rw [if_neg (ne_of_isNumeralChar h (by decide))]

/-- No word begins with a character of a numeral. -/
theorem word?_of_isNumeralChar {c : Char} (h : isNumeralChar c) : word? c = none := by
  unfold word?
  repeat rw [if_neg (ne_of_isNumeralChar h (by decide))]

/-- What begins like a numeral is scanned as one. -/
theorem scanToken_of_isNumeralChar {c : Char} (h : isNumeralChar c) (cs : List Char) :
    scanToken c cs = scanNumeral (c :: cs) := by
  have quote : c ≠ '"' := ne_of_isNumeralChar h (by decide)
  simp only [scanToken, punctuation?_of_isNumeralChar h, word?_of_isNumeralChar h, quote, if_false]
  split
  · subst_vars; rfl
  · exact (scanNumeral_of_ne (by simpa)).symm

/-- The digits of a whole number are characters of numerals. -/
theorem isNumeralChar_wholeDigits (n : Nat) : ∀ c ∈ wholeDigits n, isNumeralChar c := by
  intro c hc
  have digit : c.isDigit := Nat.isDigit_of_mem_toDigits (by decide) (by decide) hc
  simp [isNumeralChar, digit]

/-- Zeros are characters of numerals. -/
theorem isNumeralChar_zeros (count : Nat) : ∀ c ∈ zeros count, isNumeralChar c := by
  intro c hc
  rw [List.eq_of_mem_replicate hc]
  decide

/-- Digits around a point are written with characters of numerals. -/
theorem isNumeralChar_positionalDigits {digits : List Char} (h : ∀ c ∈ digits, isNumeralChar c)
    (exponent : Int) : ∀ c ∈ positionalDigits digits exponent, isNumeralChar c := by
  have point : isNumeralChar '.' := by decide
  have zero : isNumeralChar '0' := by decide
  unfold positionalDigits
  split
  · simpa [or_imp, forall_and, point, zero] using ⟨h, isNumeralChar_zeros _⟩
  · dsimp only
    split
    · simpa [or_imp, forall_and, point] using
        ⟨fun c hc => h c (List.mem_of_mem_take hc), fun c hc => h c (List.mem_of_mem_drop hc)⟩
    · simpa [or_imp, forall_and, point, zero] using ⟨isNumeralChar_zeros _, h⟩

/-- Digits in front of an exponent are written with characters of numerals. -/
theorem isNumeralChar_exponentDigits {digits : List Char} (h : ∀ c ∈ digits, isNumeralChar c)
    (place : Int) : ∀ c ∈ exponentDigits digits place, isNumeralChar c := by
  have marks : isNumeralChar 'e' ∧ isNumeralChar '.' := by decide
  have sign : isNumeralChar (if place < 0 then '-' else '+') := by split <;> decide
  have power := isNumeralChar_wholeDigits place.natAbs
  unfold exponentDigits
  split <;> simp_all [or_imp, forall_and]

/-- An integer is written with characters of numerals only. -/
theorem isNumeralChar_integer (n : Int) :
    ∀ c ∈ (JsonNumber.integer n).chars, isNumeralChar c := by
  cases n with
  | ofNat n =>
    rw [JsonNumber.chars_ofNat]
    exact isNumeralChar_wholeDigits n
  | negSucc n =>
    rw [JsonNumber.chars_negSucc]
    exact List.forall_mem_cons.2 ⟨by decide, isNumeralChar_wholeDigits (n + 1)⟩

/-- A double is written with characters of numerals only. -/
theorem isNumeralChar_scaled (s : Scaled) : ∀ c ∈ s.chars, isNumeralChar c := by
  -- the sign aside, a double is the zero numeral or its shortest digits in one of two forms
  have magnitude : ∀ c ∈ if s.significand = 0 then ['0', '.', '0'] else s.shortest.chars,
      isNumeralChar c := by
    split
    · simp [isNumeralChar]
    · unfold Decimal.chars
      dsimp only
      split
      · exact isNumeralChar_positionalDigits (isNumeralChar_wholeDigits _) _
      · exact isNumeralChar_exponentDigits (isNumeralChar_wholeDigits _) _
  unfold Scaled.chars
  dsimp only
  split
  · exact List.forall_mem_cons.2 ⟨by decide, magnitude⟩
  · exact magnitude

/-! ### Scanning numerals -/

/-- Text that holds numeral characters only begins with a numeral. -/
theorem JsonToken.scan_numeral {cs : List Char} (h : ∀ c ∈ cs, isNumeralChar c) (found : cs ≠ []) :
    scan cs = (scanNumeral cs).bind fun (token, left) => (scan left).map (token :: ·) := by
  obtain ⟨c, cs, rfl⟩ := List.exists_cons_of_ne_nil found
  have first : isNumeralChar c := h c List.mem_cons_self
  rw [scan_cons (isJsonBlank_of_isNumeralChar first), scanToken_of_isNumeralChar first]

/-- The characters of a numeral that is scanned up to blanks leave none of it. -/
theorem JsonToken.eq_nil_of_scan {cs : List Char} (h : ∀ c ∈ cs, isNumeralChar c)
    (hscan : scan cs = some []) : cs = [] := by
  by_cases found : cs = []
  · exact found
  · rw [scan_numeral h found] at hscan
    obtain ⟨_, -, hmap⟩ := Option.bind_eq_some_iff.1 hscan
    simp at hmap

/-- What is scanned of a numeral is a number. -/
theorem exists_number_of_scanNumeral {cs left : List Char} {token : JsonToken}
    (h : scanNumeral cs = some (token, left)) : ∃ value, token = .number value := by
  unfold scanNumeral at h
  split at h <;>
  · obtain ⟨⟨value, left⟩, -, same⟩ := Option.map_eq_some_iff.1 h
    cases same
    exact ⟨value, rfl⟩

/-- A whole numeral, with its sign, looks ahead only at whether the text goes on with it. -/
theorem extends_scanNumeral : Extends scanNumeral where
  suffix {cs token left} h := by
    unfold scanNumeral at h
    split at h
    · exact ((extends_scanNumber true).suffix h).trans (List.suffix_cons _ _)
    · exact (extends_scanNumber false).suffix h
  append {cs token left rest} h hrest := by
    cases cs with
    | nil => cases h
    | cons c cs =>
      by_cases minus : c = '-'
      · subst minus
        exact (extends_scanNumber true).append h hrest
      · rw [scanNumeral_of_ne (by simpa)] at h ⊢
        exact (extends_scanNumber false).append h hrest

/-- A text that begins with a number has nothing behind it. -/
theorem RawJson.eq_nil_of_ofTokens? {value : Option JsonNumber} {tokens : List JsonToken}
    {raw : RawJson} (h : ofTokens? (.number value :: tokens) = some raw) :
    tokens = [] ∧ raw = .number value := by
  cases tokens with
  | nil =>
    cases h
    exact ⟨rfl, rfl⟩
  | cons token tokens => cases token <;> simp [ofTokens?, Progress.step, Progress.start] at h

/-- What is printed for a double that is not finite is read as something else. -/
theorem ReadsBack.exists_scaled {x : Float} (h : ReadsBack x) :
    ∃ s, Scaled.ofFloat? x = some s := by
  cases hs : Scaled.ofFloat? x with
  | some s => exact ⟨s, rfl⟩
  | none =>
    have text : (Json.number (.double x)).text = "null" := by
      simp [Json.text, Json.charsBefore, JsonNumber.chars, hs]
    have tokens : JsonToken.scan "null".toList = some [.null] := by
      have word := JsonToken.scan_word (show word? 'n' = some (.null, ['u', 'l', 'l']) from rfl) []
      rwa [JsonToken.scan] at word
    rw [ReadsBack, text, Json.parse?, RawJson.parse?, tokens] at h
    cases h

/-- A number that is printed as a numeral of its own value. -/
structure JsonNumber.Readable (n : JsonNumber) : Prop where
  numeral : ∀ c ∈ n.chars, isNumeralChar c
  scanned : scanNumeral n.chars = some (.number (some n), [])

/-- An integer of 64 bits is read as itself. -/
theorem JsonNumber.readable_integer {n : Int} (range : (integer n).InRange) :
    (integer n).Readable :=
  ⟨isNumeralChar_integer n, scanNumeral_integer range⟩

/-- A double that reads back from a text of its own reads back from its numeral. -/
theorem ReadsBack.readable {x : Float} (h : ReadsBack x) : (JsonNumber.double x).Readable := by
  obtain ⟨raw, hraw, hvalue⟩ := Option.bind_eq_some_iff.1 h
  obtain ⟨tokens, hscan, hraw⟩ := Option.bind_eq_some_iff.1 hraw
  rw [show (Json.number (.double x)).text.toList = (JsonNumber.double x).chars by
    simp [Json.text, Json.charsBefore]] at hscan
  obtain ⟨s, hs⟩ := h.exists_scaled
  have numeral : ∀ c ∈ (JsonNumber.double x).chars, isNumeralChar c := by
    simpa only [JsonNumber.chars, hs] using isNumeralChar_scaled s
  have found : (JsonNumber.double x).chars ≠ [] := by
    intro empty
    rw [empty, JsonToken.scan] at hscan
    cases hscan
    cases hraw
  rw [JsonToken.scan_numeral numeral found] at hscan
  obtain ⟨⟨token, left⟩, hnumeral, hmap⟩ := Option.bind_eq_some_iff.1 hscan
  obtain ⟨others, hothers, rfl⟩ := Option.map_eq_some_iff.1 hmap
  obtain ⟨value, rfl⟩ := exists_number_of_scanNumeral hnumeral
  obtain ⟨rfl, rfl⟩ := RawJson.eq_nil_of_ofTokens? hraw
  -- No token is left behind the numeral, and numerals have no blanks.
  have whole : left = [] := JsonToken.eq_nil_of_scan
    (fun c hc => numeral c ((extends_scanNumeral.suffix hnumeral).mem hc)) hothers
  have same : value = some (.double x) := by
    simpa [RawJson.toJson?] using hvalue
  exact ⟨numeral, by rw [hnumeral, whole, same]⟩

/-- The numbers of a value are readable, its doubles if they read back. -/
theorem Json.IsValue.readable {json : Json} (value : json.IsValue)
    (reads : ∀ x, .double x ∈ json.numbers → ReadsBack x) : ∀ n ∈ json.numbers, n.Readable := by
  intro n hn
  induction value with
  | null | bool | string => cases hn
  | number range =>
    obtain rfl := List.mem_singleton.1 hn
    -- an integer is read back by its range, and a double by what is assumed of it
    cases n with
    | integer n => exact JsonNumber.readable_integer range
    | double x => exact (reads x hn).readable
  | @array items parts ih =>
    obtain ⟨item, hitem, hn⟩ := Json.mem_itemsNumbers_iff.1 hn
    exact ih item hitem (fun x hx => reads x (Json.mem_itemsNumbers_iff.2 ⟨item, hitem, hx⟩)) hn
  | @object members sorted parts ih =>
    obtain ⟨member, hmember, hn⟩ := Json.mem_membersNumbers_iff.1 hn
    exact ih member hmember
      (fun x hx => reads x (Json.mem_membersNumbers_iff.2 ⟨member, hmember, hx⟩)) hn

/-- A readable number is scanned as itself in front of a text that closes it. -/
theorem JsonNumber.Readable.scan_append {n : JsonNumber} (h : n.Readable) {rest : List Char}
    (hrest : Closes rest) :
    JsonToken.scan (n.chars ++ rest) = (JsonToken.scan rest).map (.number (some n) :: ·) := by
  obtain ⟨numeral, scanned⟩ := h
  cases hchars : n.chars with
  | nil =>
    rw [hchars] at scanned
    cases scanned
  | cons c cs =>
    rw [hchars] at numeral scanned
    have first : isNumeralChar c := numeral c List.mem_cons_self
    have taken := extends_scanNumeral.append scanned hrest
    rw [List.cons_append, JsonToken.scan_cons (isJsonBlank_of_isNumeralChar first),
      scanToken_of_isNumeralChar first, ← List.cons_append, taken]
    rfl

end ExprTree

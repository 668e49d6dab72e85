import ExprTree.Json.Basic
import ExprTree.Number.Shortest

namespace ExprTree

/-!
# Compact JSON

`Json.text` writes a value without any blanks:

* strings with the short escapes for quotes, backslashes and the usual controls,
  and `\u00xx` for the other ones; everything else as it is;
* doubles by the fewest digits that read back, always with a point or an
  exponent.
-/

/-! ### Numbers -/

/-- Where the notation with an exponent begins: a double whose leading digit is
    at a place outside these bounds is written with one. -/
def positionalPlaces : Int × Int := (-5, 15)

/-- Zeros in a row. -/
def zeros (count : Nat) : List Char := List.replicate count '0'

/-- A decimal with a point: a zero stands for an empty part on either side. -/
def positionalDigits (digits : List Char) (exponent : Int) : List Char :=
  if 0 ≤ exponent then digits ++ zeros exponent.toNat ++ ['.', '0']
  else
    let places := (-exponent).toNat
    if places < digits.length then
      digits.take (digits.length - places) ++ '.' :: digits.drop (digits.length - places)
    else '0' :: '.' :: (zeros (places - digits.length) ++ digits)

/-- A decimal with one digit before the point and the place of that digit as a
    signed exponent; a point that nothing would follow is left out. -/
def exponentDigits (digits : List Char) (place : Int) : List Char :=
  let significand := match digits with
    | first :: second :: rest => first :: '.' :: second :: rest
    | short => short
  let sign := if place < 0 then '-' else '+'
  significand ++ 'e' :: sign :: wholeDigits place.natAbs

/-- A decimal in the notation that its size asks for. -/
def Decimal.chars (d : Decimal) : List Char :=
  let digits := wholeDigits d.digits
  let place := d.exponent + digits.length - 1
  if positionalPlaces.1 ≤ place ∧ place ≤ positionalPlaces.2 then
    positionalDigits digits d.exponent
  else exponentDigits digits place

/-- A finite double. -/
def Scaled.chars (s : Scaled) : List Char :=
  let magnitude := if s.significand = 0 then ['0', '.', '0'] else s.shortest.chars
  if s.negative then '-' :: magnitude else magnitude

/-- A number; a double that is not finite has no number in JSON. -/
def JsonNumber.chars : JsonNumber → List Char
  | integer n => (toString n).toList
  | double x =>
    match Scaled.ofFloat? x with
    | some s => s.chars
    | none => ['n', 'u', 'l', 'l']

/-! ### Strings -/

/-- A character inside a string. -/
def escapeJsonChar (c : Char) : List Char :=
  if c = '"' then ['\\', '"']
  else if c = '\\' then ['\\', '\\']
  else if c = '\x08' then ['\\', 'b']
  else if c = '\x0c' then ['\\', 'f']
  else if c = '\n' then ['\\', 'n']
  else if c = '\r' then ['\\', 'r']
  else if c = '\t' then ['\\', 't']
  else if c < ' ' then
    ['\\', 'u', '0', '0', Nat.digitChar (c.toNat / 16), Nat.digitChar (c.toNat % 16)]
  else [c]

/-- A string between its quotes. -/
def jsonStringChars (s : String) : List Char :=
  '"' :: (s.toList.flatMap escapeJsonChar ++ ['"'])

/-! ### Values -/

namespace Json

mutual

/-- A value without blanks, in front of the text `rest`. -/
def charsBefore (rest : List Char) : Json → List Char
  | null => 'n' :: 'u' :: 'l' :: 'l' :: rest
  | bool true => 't' :: 'r' :: 'u' :: 'e' :: rest
  | bool false => 'f' :: 'a' :: 'l' :: 's' :: 'e' :: rest
  | number n => n.chars ++ rest
  | string s => jsonStringChars s ++ rest
  | array items => '[' :: itemsBefore (']' :: rest) items
  | object members => '\x7b' :: membersBefore ('\x7d' :: rest) members

/-- Items with commas between them, in front of `rest`. -/
def itemsBefore (rest : List Char) : List Json → List Char
  | [] => rest
  | [item] => item.charsBefore rest
  | item :: items => item.charsBefore (',' :: itemsBefore rest items)

/-- Members with commas between them, in front of `rest`. -/
def membersBefore (rest : List Char) : List (String × Json) → List Char
  | [] => rest
  | [(key, value)] => jsonStringChars key ++ ':' :: value.charsBefore rest
  | (key, value) :: members =>
    jsonStringChars key ++ ':' :: value.charsBefore (',' :: membersBefore rest members)

end

/-- A value as a text without blanks. -/
def text (json : Json) : String := String.ofList (json.charsBefore [])

end Json

end ExprTree

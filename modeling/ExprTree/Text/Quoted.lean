import ExprTree.Text.Printable

namespace ExprTree

/-!
# Quoted text

`Text.quote` writes a string between double quotes so that every character can
be read: quotes, backslashes and the usual controls have escapes of their own,
and a character without a glyph, one that is drawn as nothing, or one that
would merge with its neighbour, is written by its code point.
-/

namespace Text

/-- A character by its code point, in lower-case hexadecimal between braces. -/
def codePointEscape (c : Char) : List Char :=
  '\\' :: 'u' :: '\x7b' :: (Nat.toDigits 16 c.toNat ++ ['\x7d'])

/-- How a character is written between double quotes. -/
def quoteChar (c : Char) : List Char :=
  if c = '\x00' then ['\\', '0']
  else if c = '\t' then ['\\', 't']
  else if c = '\r' then ['\\', 'r']
  else if c = '\n' then ['\\', 'n']
  else if c = '"' then ['\\', '"']
  else if c = '\\' then ['\\', '\\']
  else if ' ' ≤ c ∧ c ≤ '~' then [c]
  else if isCombining c || isUnprintable c || isIgnorable c then codePointEscape c
  else [c]

/-- A string between double quotes. -/
def quote (s : String) : String :=
  String.ofList ('"' :: (s.toList.flatMap quoteChar ++ ['"']))

end Text

end ExprTree

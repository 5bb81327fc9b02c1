import Schemata.Text.Invisible

/-!
# Schemata — Text — Escaped

A text between quotes with every character visible: the quote, the backslash and the usual controls
are escaped by a letter, other invisible characters by their number.
-/

namespace Schemata

/-- The number of an escaped character: its code point in hexadecimal between braces. -/
def numberEscape (c : Char) : List Char :=
  ['\\', 'u', '\x7b'] ++ Nat.toDigits 16 c.toNat ++ ['\x7d']

/-- A character as it stands in an escaped text. -/
def escapedChar (c : Char) : List Char :=
  if c = '\x00' then ['\\', '0']
  else if c = '\t' then ['\\', 't']
  else if c = '\r' then ['\\', 'r']
  else if c = '\n' then ['\\', 'n']
  else if c = '\\' then ['\\', '\\']
  else if c = '"' then ['\\', '"']
  else if isInvisible c then numberEscape c
  else [c]

/-- An escaped text between quotes. -/
def escaped (text : String) : String :=
  String.ofList ('"' :: text.toList.flatMap escapedChar ++ ['"'])

end Schemata

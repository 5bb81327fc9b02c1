import Schemata.Json.Basic

/-!
# Schemata — Json — Token

The tokens of JSON text and the scanner that finds them, one character at a time. A run of letters,
digits and signs is one word, whatever it stands for. A string is decoded while it is scanned: its
escapes are taken as 16-bit units, of which a high surrogate and the low one behind it make one
character and any other surrogate leaves the string without a value. White space is space, tab, line
feed and carriage return, and control characters are refused inside strings.
-/

namespace Schemata

/-- A token of JSON text. A text token without a value has half of a surrogate pair in it. -/
inductive Token where
  | openBrace
  | closeBrace
  | openBracket
  | closeBracket
  | colon
  | comma
  | text (value : Option String)
  | word (chars : List Char)
deriving Repr

/-- A string while it is decoded: its characters, last first, and a high surrogate that waits for
the low one. -/
structure Decoding where
  chars : Option (List Char)
  high : Option Nat
deriving Repr

namespace Decoding

/-- Nothing decoded yet. -/
def empty : Decoding := ⟨some [], none⟩

/-- One more character; a waiting surrogate then stays alone. -/
def push (d : Decoding) (c : Char) : Decoding :=
  match d.high with
  | none   => ⟨d.chars.map (c :: ·), none⟩
  | some _ => ⟨none, none⟩

/-- One more 16-bit unit. -/
def pushUnit (d : Decoding) (unit : Nat) : Decoding :=
  match d.high with
  | none =>
    if 0xD800 ≤ unit ∧ unit < 0xDC00 then ⟨d.chars, some unit⟩
    else if 0xDC00 ≤ unit ∧ unit < 0xE000 then ⟨none, none⟩
    else ⟨d.chars.map (Char.ofNat unit :: ·), none⟩
  | some high =>
    if 0xDC00 ≤ unit ∧ unit < 0xE000 then
      ⟨d.chars.map (Char.ofNat (0x10000 + (high - 0xD800) * 0x400 + (unit - 0xDC00)) :: ·), none⟩
    else ⟨none, none⟩

/-- The string, if no surrogate was left alone. -/
def finish (d : Decoding) : Option String :=
  match d.high with
  | none   => d.chars.map fun cs => String.ofList cs.reverse
  | some _ => none

end Decoding

/-- Where the scanner stands. -/
inductive ScanMode where
  | between
  /-- In a run of letters, digits and signs, last first. -/
  | word (run : List Char)
  | text (d : Decoding)
  /-- Behind the backslash of an escape. -/
  | escape (d : Decoding)
  /-- In the four digits of a unit: how many are read, and their value. -/
  | unit (d : Decoding) (count value : Nat)
deriving Repr

/-- The scanner: the tokens found, last first, and where it stands. -/
structure Scanner where
  found : List Token
  mode : ScanMode
deriving Repr

namespace Scanner

/-- Characters of words: letters, digits, signs and the point. -/
def isWordChar (c : Char) : Bool := c.isAlphanum || c = '+' || c = '-' || c = '.'

/-- The character that a one-letter escape stands for. -/
def escapedChar? : Char → Option Char
  | '"'  => some '"'
  | '\\' => some '\\'
  | '/'  => some '/'
  | 'b'  => some '\x08'
  | 'f'  => some '\x0c'
  | 'n'  => some '\n'
  | 'r'  => some '\r'
  | 't'  => some '\t'
  | _    => none

/-- The value of a hexadecimal digit of either case. -/
def hexValue? (c : Char) : Option Nat :=
  if c.isDigit then some (c.toNat - '0'.toNat)
  else if 'a' ≤ c ∧ c ≤ 'f' then some (c.toNat - 'a'.toNat + 10)
  else if 'A' ≤ c ∧ c ≤ 'F' then some (c.toNat - 'A'.toNat + 10)
  else none

/-- The step on a character outside of words and strings. -/
def begin? (found : List Token) (c : Char) : Option Scanner :=
  if c = ' ' ∨ c = '\t' ∨ c = '\n' ∨ c = '\r' then some ⟨found, .between⟩
  else if c = '{' then some ⟨.openBrace :: found, .between⟩
  else if c = '}' then some ⟨.closeBrace :: found, .between⟩
  else if c = '[' then some ⟨.openBracket :: found, .between⟩
  else if c = ']' then some ⟨.closeBracket :: found, .between⟩
  else if c = ':' then some ⟨.colon :: found, .between⟩
  else if c = ',' then some ⟨.comma :: found, .between⟩
  else if c = '"' then some ⟨found, .text .empty⟩
  else if isWordChar c then some ⟨found, .word [c]⟩
  else none

/-- The step on one character. -/
def step (s : Scanner) (c : Char) : Option Scanner :=
  match s.mode with
  | .between => begin? s.found c
  | .word run =>
    if isWordChar c then some ⟨s.found, .word (c :: run)⟩
    else begin? (.word run.reverse :: s.found) c
  | .text d =>
    if c = '"' then some ⟨.text d.finish :: s.found, .between⟩
    else if c = '\\' then some ⟨s.found, .escape d⟩
    else if c < ' ' then none
    else some ⟨s.found, .text (d.push c)⟩
  | .escape d =>
    if c = 'u' then some ⟨s.found, .unit d 0 0⟩
    else (escapedChar? c).map fun e => ⟨s.found, .text (d.push e)⟩
  | .unit d count value =>
    (hexValue? c).map fun v =>
      -- the fourth digit completes a unit
      if count = 3 then ⟨s.found, .text (d.pushUnit (16 * value + v))⟩
      else ⟨s.found, .unit d (count + 1) (16 * value + v)⟩

/-- The tokens, if the text may end here. -/
def finish (s : Scanner) : Option (List Token) :=
  match s.mode with
  | .between  => some s.found.reverse
  | .word run => some (Token.word run.reverse :: s.found).reverse
  | _         => none

end Scanner

/-- The tokens of a text. -/
def Token.scan? (text : List Char) : Option (List Token) :=
  (text.foldlM Scanner.step ⟨[], .between⟩).bind Scanner.finish

end Schemata

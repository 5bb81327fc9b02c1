import Schemata.Json.Basic

/-!
# Schemata — Json — Printer

JSON text of a tree: compact, or with each member on a line of its own and two spaces of indentation
a level. Only quotes, backslashes and control characters are escaped; the keys stand in the order of
the tree. The compact text is written from its end on, each part in front of what follows;
`render_eq` says that this is the text that `chars` puts together.
-/

namespace Schemata

/-- The hexadecimal digit of a number below sixteen. -/
def hexDigit (n : Nat) : Char := Nat.digitChar n

/-- A character as it stands inside a JSON string. -/
def quotedChar (c : Char) : List Char :=
  if c = '"' then ['\\', '"']
  else if c = '\\' then ['\\', '\\']
  else if c = '\x08' then ['\\', 'b']
  else if c = '\x0c' then ['\\', 'f']
  else if c = '\n' then ['\\', 'n']
  else if c = '\r' then ['\\', 'r']
  else if c = '\t' then ['\\', 't']
  else if c < ' ' then ['\\', 'u', '0', '0', hexDigit (c.toNat / 16), hexDigit (c.toNat % 16)]
  else [c]

/-- A string as JSON text. -/
def quoted (s : String) : List Char := '"' :: s.toList.flatMap quotedChar ++ ['"']

namespace Json

mutual
/-- The compact text. -/
def chars : Json → List Char
  | .null           => ['n', 'u', 'l', 'l']
  | .bool true      => ['t', 'r', 'u', 'e']
  | .bool false     => ['f', 'a', 'l', 's', 'e']
  | .number n       => n.text
  | .string s       => quoted s
  | .array items    => '[' :: [','].intercalate (itemsChars items) ++ [']']
  | .object members => '{' :: [','].intercalate (membersChars members) ++ ['}']
  | .unreadable     => ['n', 'u', 'l', 'l']
/-- The compact text of each item. -/
def itemsChars : List Json → List (List Char)
  | []        => []
  | j :: rest => j.chars :: itemsChars rest
/-- The compact text of each member. -/
def membersChars : List (String × Json) → List (List Char)
  | []             => []
  | (k, j) :: rest => (quoted k ++ ':' :: j.chars) :: membersChars rest
end

mutual
/-- The compact text in front of another text, which is not copied. -/
def charsThen : Json → List Char → List Char
  | .array items, rest    => '[' :: itemsThen items (']' :: rest)
  | .object members, rest => '{' :: membersThen members ('}' :: rest)
  | .null, rest           => 'n' :: 'u' :: 'l' :: 'l' :: rest
  | .bool b, rest         => (Json.bool b).chars ++ rest
  | .number n, rest       => n.text ++ rest
  | .string s, rest       => quoted s ++ rest
  | .unreadable, rest     => 'n' :: 'u' :: 'l' :: 'l' :: rest
/-- The compact text of items, with commas between them, in front of another text. -/
def itemsThen : List Json → List Char → List Char
  | [], rest             => rest
  | [j], rest            => j.charsThen rest
  | j :: k :: more, rest => j.charsThen (',' :: itemsThen (k :: more) rest)
/-- The compact text of members, with commas between them, in front of another text. -/
def membersThen : List (String × Json) → List Char → List Char
  | [], rest                  => rest
  | [(key, j)], rest          => quoted key ++ ':' :: j.charsThen rest
  | (key, j) :: m :: more, rest =>
    quoted key ++ ':' :: j.charsThen (',' :: membersThen (m :: more) rest)
end

mutual
/-- A tree is written as its compact text. -/
theorem charsThen_eq : ∀ (j : Json) (rest : List Char), j.charsThen rest = j.chars ++ rest
  | .array items, rest    => by simp [charsThen, chars, itemsThen_eq items]
  | .object members, rest => by simp [charsThen, chars, membersThen_eq members]
  | .null, _              => by simp [charsThen, chars]
  | .bool _, _            => by simp [charsThen]
  | .number _, _          => by simp [charsThen, chars]
  | .string _, _          => by simp [charsThen, chars]
  | .unreadable, _        => by simp [charsThen, chars]
/-- Items are written as their compact texts with commas between them. -/
theorem itemsThen_eq : ∀ (items : List Json) (rest : List Char),
    itemsThen items rest = [','].intercalate (itemsChars items) ++ rest
  | [], _             => by simp [itemsThen, itemsChars]
  | [j], _            => by simp [itemsThen, itemsChars, charsThen_eq j]
  | j :: k :: more, _ => by
    simp [itemsThen, itemsChars, charsThen_eq j, itemsThen_eq (k :: more),
      List.intercalate_cons_cons]
/-- Members are written as their compact texts with commas between them. -/
theorem membersThen_eq : ∀ (members : List (String × Json)) (rest : List Char),
    membersThen members rest = [','].intercalate (membersChars members) ++ rest
  | [], _                  => by simp [membersThen, membersChars]
  | [(_, j)], _            => by simp [membersThen, membersChars, charsThen_eq j]
  | (_, j) :: m :: more, _ => by
    simp [membersThen, membersChars, charsThen_eq j, membersThen_eq (m :: more),
      List.intercalate_cons_cons]
end

/-- A line break and the indentation of a level. -/
def lineBreak (level : Nat) : List Char := '\n' :: List.replicate (2 * level) ' '

/-- The lines between two brackets, nothing if there are none. -/
def block (level : Nat) (lines : List (List Char)) : List Char :=
  if lines.isEmpty then [] else
    lineBreak (level + 1) ++ (',' :: lineBreak (level + 1)).intercalate lines ++ lineBreak level

mutual
/-- The text with line breaks, at a level of indentation. -/
def prettyChars (level : Nat) : Json → List Char
  | .array items    => '[' :: block level (itemsPretty (level + 1) items) ++ [']']
  | .object members => '{' :: block level (membersPretty (level + 1) members) ++ ['}']
  | .null           => ['n', 'u', 'l', 'l']
  | .bool b         => (Json.bool b).chars
  | .number n       => n.text
  | .string s       => quoted s
  | .unreadable     => ['n', 'u', 'l', 'l']
/-- The text of each item with line breaks. -/
def itemsPretty (level : Nat) : List Json → List (List Char)
  | []        => []
  | j :: rest => prettyChars level j :: itemsPretty level rest
/-- The text of each member with line breaks. -/
def membersPretty (level : Nat) : List (String × Json) → List (List Char)
  | []             => []
  | (k, j) :: rest => (quoted k ++ ':' :: ' ' :: prettyChars level j) :: membersPretty level rest
end

/-- The compact text. -/
def render (j : Json) : String := String.ofList (j.charsThen [])

/-- What is rendered is the compact text. -/
theorem render_eq (j : Json) : j.render = String.ofList j.chars := by simp [render, charsThen_eq]

/-- The text with line breaks. -/
def renderPretty (j : Json) : String := String.ofList (prettyChars 0 j)

end Json

end Schemata

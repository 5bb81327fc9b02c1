import Schemata.Json.Token

/-!
# Schemata — Json — Parser

From tokens to the tree, by a machine with a stack: each token either opens a container, closes the
one on top or completes a value. Nothing may follow the value. How the literals of floats are read
is a parameter, since a float may be read as one beside it: `parse?` reads them as documents are
read.
-/

namespace Schemata

/-- A container whose end has not been read, its contents last first. -/
inductive Frame where
  | items (before : List Json)
  | members (before : List (Option String × Json)) (key : Option String)
deriving Repr

/-- What the parser waits for. -/
inductive Awaiting where
  | value
  /-- A value or the end of an array that is still empty. -/
  | firstItem
  /-- A key of the object with these members, or its end if it may be empty. -/
  | key (before : List (Option String × Json)) (first : Bool)
  | colon (before : List (Option String × Json)) (key : Option String)
  /-- A comma or an end behind this value. -/
  | next (value : Json)
deriving Repr

/-- The parser: what it waits for, and the containers around it, innermost first. -/
structure Parser where
  awaiting : Awaiting
  stack : List Frame
deriving Repr

namespace Parser

/-- The value that a word stands for. -/
def wordValue? (float : Literal → Option Binary64) (word : List Char) : Option Json :=
  if word = ['n', 'u', 'l', 'l'] then some .null
  else if word = ['t', 'r', 'u', 'e'] then some (.bool true)
  else if word = ['f', 'a', 'l', 's', 'e'] then some (.bool false)
  else match Number.ofLiteralBy? float word with
    | none          => none
    | some none     => some .unreadable
    | some (some n) => some (.number n)

/-- The value of a text token. -/
def textValue : Option String → Json
  | some s => .string s
  | none   => .unreadable

/-- The object with the given members, unreadable if a key is. -/
def objectValue (members : List (Option String × Json)) : Json :=
  match members.mapM fun m => m.1.map (·, m.2) with
  | some ms => .object ms
  | none    => .unreadable

section

variable (float : Literal → Option Binary64)

/-- The first token of a value. -/
def beginValue? (stack : List Frame) : Token → Option Parser
  | .word cs     => (wordValue? float cs).map fun j => ⟨.next j, stack⟩
  | .text s      => some ⟨.next (textValue s), stack⟩
  | .openBracket => some ⟨.firstItem, stack⟩
  | .openBrace   => some ⟨.key [] true, stack⟩
  | _            => none

/-- The step on one token. -/
def step (p : Parser) (t : Token) : Option Parser :=
  match p.awaiting with
  | .value => beginValue? float p.stack t
  | .firstItem =>
    match t with
    | .closeBracket => some ⟨.next (.array []), p.stack⟩
    | t             => beginValue? float (.items [] :: p.stack) t
  | .key before first =>
    -- an object may be empty, but there is no comma at its end
    match t with
    | .text k     => some ⟨.colon before k, p.stack⟩
    | .closeBrace => if first then some ⟨.next (.object []), p.stack⟩ else none
    | _           => none
  | .colon before k =>
    match t with
    | .colon => some ⟨.value, .members before k :: p.stack⟩
    | _      => none
  | .next j =>
    match p.stack, t with
    | .items before :: rest, .comma        => some ⟨.value, .items (j :: before) :: rest⟩
    | .items before :: rest, .closeBracket => some ⟨.next (.array (j :: before).reverse), rest⟩
    | .members before k :: rest, .comma    => some ⟨.key ((k, j) :: before) false, rest⟩
    | .members before k :: rest, .closeBrace =>
      some ⟨.next (objectValue ((k, j) :: before).reverse), rest⟩
    | _, _ => none

end

/-- The value, if the tokens may end here. -/
def finish (p : Parser) : Option Json :=
  match p.awaiting, p.stack with
  | .next j, [] => some j
  | _, _        => none

end Parser

namespace Json

/-- The tree of a list of tokens. -/
def ofTokens? (float : Literal → Option Binary64) (tokens : List Token) : Option Json :=
  (tokens.foldlM (Parser.step float) ⟨.value, []⟩).bind Parser.finish

/-- The tree of a text. -/
def ofChars? (float : Literal → Option Binary64) (text : List Char) : Option Json :=
  (Token.scan? text).bind (ofTokens? float)

/-- The tree of a text. -/
def parse? (text : String) : Option Json := ofChars? Literal.float? text.toList

end Json

end Schemata

/-!
# Schemata — Text — Terminal

Texts for a terminal, and what is left of one when it goes somewhere else: the characters that show,
without the control sequences between them. A sequence is read by its kind, which its first
characters tell, up to the character that ends it. Blanks inside of some sequences show as well, and
so does what follows them, up to the next character that does not show; there the sequence goes on.
-/

namespace Schemata

namespace Terminal

/-- The part of a control sequence that is being read; on the ground there is none. -/
inductive State where
  | ground
  | escape
  | intermediate
  | parameters
  | command
  | header
  | body
deriving DecidableEq, Repr

/-- The blanks besides the space. -/
def isBlank (c : Char) : Bool := c ∈ ['\t', '\n', '\x0c', '\r']

/-- Whether a character shows on the ground. -/
def shows (c : Char) : Bool := isBlank c || (' ' ≤ c && c ≠ '\x7f')

/-- Whether a character is among those that end what is longer than one character. -/
def isFinal (c : Char) : Bool := '@' ≤ c && c ≤ '~'

/-- Whether a character is encoded with a byte that ends the body of a sequence. -/
def hasTerminator (c : Char) : Bool :=
  ' ' ≤ c && (String.utf8EncodeChar c).contains 0x9C

namespace State

/-- Whether a character shows where it stands. -/
def showsAt (s : State) (c : Char) : Bool :=
  match s with
  | .ground                               => shows c
  | .escape | .intermediate | .parameters => isBlank c
  | .command | .header | .body            => false

/-- The state after the character that follows on an escape. -/
def afterEscape (c : Char) : State :=
  if ' ' ≤ c ∧ c ≤ '/' then .intermediate
  else if c = '[' then .parameters
  else if c = ']' then .command
  else if c = 'P' then .header
  else if c ∈ ['X', '^', '_'] then .body
  else if '0' ≤ c ∧ c ≤ '~' then .ground
  else .escape

/-- The state after a character that does not show. -/
def next (s : State) (c : Char) : State :=
  if c = '\x1b' then .escape
  else if c = '\x18' ∨ c = '\x1a' then .ground
  else match s with
    | .ground       => .ground
    | .escape       => afterEscape c
    | .intermediate => if '0' ≤ c ∧ c ≤ '~' then .ground else .intermediate
    | .parameters   => if isFinal c then .ground else .parameters
    | .command      => if c = '\x07' then .ground else .command
    | .header       => if isFinal c then .body else .header
    | .body         => if hasTerminator c then .ground else .body

end State

/-- The characters of a text that show, from a state on; `after` says that the one before shows. -/
def shown (after : Bool) (s : State) : List Char → List Char
  | []        => []
  | c :: rest =>
    if (after && shows c) || s.showsAt c then
      c :: shown true (if c ≤ '\x7f' then s else .ground) rest
    else shown false (s.next c) rest

end Terminal

/-- A text that is bold on a terminal. -/
def bold (text : String) : String := "\x1b[1m" ++ text ++ "\x1b[0m"

/-- A text that is bold and underlined on a terminal. -/
def underlined (text : String) : String := "\x1b[1m\x1b[4m" ++ text ++ "\x1b[0m"

/-- A text without the control sequences of a terminal. -/
def uncontrolled (text : String) : String :=
  String.ofList (Terminal.shown false .ground text.toList)

end Schemata

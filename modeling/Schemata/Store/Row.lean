import Schemata.Document
import Schemata.Instant

/-!
# Schemata — Store — Row

What a store keeps of a model: the text of its document, the action and the level for looking up, a
revision and two times, all but the revision as texts. A row is checked when it is read, column by
column; the first column that cannot be read tells why. A column that should keep a text may keep a
value of another type.
-/

namespace Schemata

/-- A value as a column keeps it. -/
inductive Cell where
  | text (text : String)
  /-- A number or bytes, of which nothing is read. -/
  | other
deriving DecidableEq, Repr

/-- The number of a revision. It counts up to the end of 64-bit integers; what comes after is no
integer. -/
inductive Revision where
  | count (n : Int64)
  | inexact
deriving DecidableEq, Repr

/-- A row of a store. -/
structure Row where
  document : Cell
  action : String
  level : String
  revision : Revision
  createdAt : Cell
  updatedAt : Cell
deriving DecidableEq, Repr

/-- A model as it is read from a store. -/
structure StoredModel where
  name : String
  document : Document
  action : ValidationAction
  level : ValidationLevel
  revision : Int64
  createdAt : Instant
  updatedAt : Instant
deriving Repr

/-- Why a store does not answer. The position of a column is its place among the columns that were
asked for. -/
inductive StoreFault where
  | unreadable (position : Nat)
  | mistyped (position : Nat)
  | locked
  | readOnly
  | noTable
  | notAStore
  | notAFile
  | noDirectory
deriving DecidableEq, Repr

/-- The wording of a fault. -/
def StoreFault.message : StoreFault → String
  | .unreadable position => "column " ++ toString position ++ " cannot be read"
  | .mistyped position   => "column " ++ toString position ++ " is of another type"
  | .locked              => "the store is locked by another writer"
  | .readOnly            => "the store was opened for reading only"
  | .noTable             => "the store has no table"
  | .notAStore           => "the file is not a store"
  | .notAFile            => "the store cannot be opened"
  | .noDirectory         => "the directory of the store cannot be made"

namespace Cell

/-- The blanks that may surround a number. -/
def isBlank (c : Char) : Bool := c ∈ [' ', '\t', '\n', '\x0b', '\x0c', '\r']

/-- A text without a sign in front. -/
def unsigned : List Char → List Char
  | '+' :: rest => rest
  | '-' :: rest => rest
  | whole       => whole

/-- Whether a text is an exponent with its mark, or nothing. -/
def isExponent : List Char → Bool
  | []           => true
  | mark :: rest =>
    let digits := unsigned rest
    (mark = 'e' || mark = 'E') && digits ≠ [] && digits.all Char.isDigit

/-- A text without the blanks around it. -/
def trimmed (text : List Char) : List Char :=
  ((text.dropWhile isBlank).reverse.dropWhile isBlank).reverse

/-- Whether a text reads as a number: digits with a sign, a point and an exponent, all but one digit
optional. -/
def isNumeral (text : List Char) : Bool :=
  let text := unsigned (trimmed text)
  let whole := text.takeWhile Char.isDigit
  match text.dropWhile Char.isDigit with
  | '.' :: rest =>
    (whole ++ rest.takeWhile Char.isDigit) ≠ [] && isExponent (rest.dropWhile Char.isDigit)
  | rest => whole ≠ [] && isExponent rest

/-- A text as the document column keeps it: a text that reads as a number is kept as that number and
no longer as text. -/
def ofText (text : String) : Cell := if isNumeral text.toList then .other else .text text

end Cell

namespace Revision

/-- The revision after. -/
def next : Revision → Revision
  | .count n => if n < Int64.maxValue then .count (n + 1) else .inexact
  | .inexact => .inexact

end Revision

namespace Row

/-- The row of a document that is stored for the first time. -/
def first (d : Document) (now : String) : Row where
  document := .ofText d.text
  action := d.action.name
  level := d.level.name
  revision := .count 1
  createdAt := .text now
  updatedAt := .text now

/-- The row with another document. -/
def revise (r : Row) (d : Document) (now : String) : Row where
  document := .ofText d.text
  action := d.action.name
  level := d.level.name
  revision := r.revision.next
  createdAt := r.createdAt
  updatedAt := .text now

/-- The value that a column holds, or the fault that it holds none. -/
def column {α : Type} (position : Nat) (value : Option α) : Except StoreFault α :=
  match value with
  | some a => .ok a
  | none   => .error (.unreadable position)

/-- The value that the text of a column is read as, or the fault that there is no such value or no
text. -/
def parsed {α : Type} (position : Nat) (parse : String → Option α) : Cell → Except StoreFault α
  | .text text => column position (parse text)
  | .other     => .error (.mistyped position)

/-- Reads a row. -/
def read (name : String) (r : Row) : Except StoreFault StoredModel := do
  let document ← parsed 1 Document.ofText? r.document
  let action ← column 2 (ValidationAction.ofName? r.action)
  let level ← column 3 (ValidationLevel.ofName? r.level)
  let revision ← match r.revision with
    | .count n => Except.ok n
    | .inexact => .error (.mistyped 4)
  let createdAt ← parsed 5 Instant.ofText? r.createdAt
  let updatedAt ← parsed 6 Instant.ofText? r.updatedAt
  return { name, document, action, level, revision, createdAt, updatedAt }

end Row

end Schemata

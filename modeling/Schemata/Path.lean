import Schemata.FileTree.Name

/-!
# Schemata — Path

Paths as text and as the list of their pieces between slashes. Two paths compare piece by piece: a
piece `.` counts for nothing, `..` comes before every name, and names compare by their bytes. So a
directory's files come before a file whose name extends the directory's.
-/

namespace Schemata

/-- A text cut at each occurrence of a separator; there is one piece more than there are
separators. -/
def piecesAt (separator : Char) : List Char → List (List Char)
  | []        => [[]]
  | c :: rest =>
    if c = separator then [] :: piecesAt separator rest
    else match piecesAt separator rest with
      | []             => [[c]]
      | piece :: later => (c :: piece) :: later

namespace Path

/-- The piece that stays in a directory. -/
def current : String := "."

/-- The piece that leads to the directory above. -/
def parent : String := ".."

/-- The pieces of a path. -/
def pieces (path : String) : List String := (piecesAt '/' path.toList).map String.ofList

/-- The path of pieces. -/
def ofPieces (pieces : List String) : String := "/".intercalate pieces

/-- Whether a path starts at the root of all paths. -/
def isAbsolute (path : String) : Bool := path.toList.head? = some '/'

/-- The pieces that lead somewhere: empty ones and `.` do not. -/
def moves (path : String) : List String := (pieces path).filter fun s => s ≠ "" ∧ s ≠ current

/-- Pieces without those at their end that lead nowhere. -/
def trimmed (pieces : List String) : List String :=
  (pieces.reverse.dropWhile fun s => s = "" ∨ s = current).reverse

/-- The pieces of the directory that holds what a path leads to. -/
def directory (path : String) : List String := trimmed (trimmed (pieces path)).dropLast

/-- The names one moves to from a path of names; none above the start. -/
def move? (names : List String) (piece : String) : Option (List String) :=
  if piece ≠ parent then some (names ++ [piece])
  else if names.isEmpty then none
  else some names.dropLast

/-- Whether a piece comes before another or is the same. -/
def pieceLe (a b : String) : Bool :=
  a = parent || (b ≠ parent && FileName.bytes a ≤ FileName.bytes b)

/-- Whether a list of pieces comes before another or is the same. -/
def piecesLe : List String → List String → Bool
  | [], _                => true
  | _ :: _, []           => false
  | a :: as, b :: bs => if a = b then piecesLe as bs else pieceLe a b

/-- Whether a path of pieces comes before another or leads the same way. -/
def le (p q : List String) : Bool := piecesLe (p.filter (· ≠ current)) (q.filter (· ≠ current))

end Path

end Schemata

import Schemata.FileTree.Disk
import Schemata.Glob.Parser

/-!
# Schemata — Glob — Search

The files that a pattern selects, from the root of all paths if it starts with a slash, else from
the working directory. A component without wildcards is followed like a piece
of a path, so `.` and `..` are allowed there; one with wildcards is tried on every entry of the
directory, and on `.` and `..` too if it starts with a literal dot. A place can be reached in more
than one way and is then found as often. A search comes upon places in a fixed order, and fails at
the first directory that it listed and cannot list in turn because the path to it is too long. A
name that is no text is matched by `**` only.
-/

namespace Schemata

namespace Glob

variable {α : Type}

/-- What a search comes upon: a place, or a directory that cannot be listed. -/
inductive Finding (α : Type) where
  | found (place : Place α)
  | unlisted (place : Place α)
deriving Repr

namespace Finding

/-- What a search that goes on from a finding comes upon. -/
def andThen (search : Place α → List (Finding α)) : Finding α → List (Finding α)
  | .found p    => search p
  | .unlisted p => [.unlisted p]

/-- The place of a finding, if it is found. -/
def place? : Finding α → Option (Place α)
  | .found p    => some p
  | .unlisted _ => none

/-- The directory that cannot be listed, if a finding is one. -/
def obstacle? : Finding α → Option (Place α)
  | .found _    => none
  | .unlisted p => some p

end Finding

/-- What a search comes upon that lists a directory. A place that was not listed itself is not known
to be one where the path to it is too long. -/
def lookIn (p : Place α) (inside : List (Finding α)) : List (Finding α) :=
  if p.tree.isFile then []
  else if p.isWithinReach then inside
  else if p.listed then [.unlisted p]
  else []

/-- The place a literal component leads to. The working directory has no name that an empty
component could end. -/
def next? (p : Place α) (piece : String) : Option (Place α) :=
  if piece = "" ∧ p.isHere then none else (p.step piece).toOption

/-- The directory itself and the one above, where tokens that start with a dot match their names.
From the working directory their paths start with its own. -/
def dotted (tokens : List Token) (p : Place α) : List (Place α) :=
  let front := if p.path = [] ∧ !p.route.isAbsolute then [Path.current] else Place.unslashed p.path
  if tokens.head? = some (.literal '.') then
    (if Token.matchesName tokens Path.parent then
      [{ p.up with path := front ++ [Path.parent] }] else []) ++
    (if Token.matchesName tokens Path.current then
      [{ p with path := front ++ [Path.current], listed := false }] else [])
  else []

/-- What one name leads to from a place. -/
def named (tokens : List Token) (p : Place α) : List (Finding α) :=
  match Token.text? tokens with
  | some piece => (next? p piece).toList.map .found
  | none       =>
    lookIn p ((dotted tokens p ++
      p.children.filter fun q => Token.matchesName tokens q.name).map .found)

/-- What any number of directories lead to from a place, where `here` is what each place
below adds. -/
def anywhere (here : Place α → List (Finding α)) (p : Place α) : List (Finding α) :=
  lookIn p (p.below.flatMap fun q => here q ++ if q.isWithinReach then [] else lookIn q [])

/-- What components lead to from a place. -/
def findings : Glob → Place α → List (Finding α)
  | [], p                        => [.found p]
  | .name tokens :: rest, p      => (named tokens p).flatMap (Finding.andThen (findings rest))
  | [.directories], p            =>
    anywhere (fun q => if q.tree.isDirectory then [.found q] else []) p
  | .directories :: .directories :: rest, p => findings (.directories :: rest) p
  | .directories :: .name tokens :: rest, p =>
    anywhere (fun q => if Token.matchesName tokens q.name then findings rest q else []) p

/-- The files among the places, in the order of their paths. What is behind too long a path is not
found. -/
def filesOf (places : List (Place α)) : List (Place α) :=
  let files := places.filter fun p => p.tree.isFile && p.isWithinReach
  files.mergeSort fun p q => Path.le p.path q.path

/-- What a pattern leads to. -/
def search (pattern : String) (disk : Disk α) : Except FaultAt (List (Finding α)) :=
  (parse pattern).map fun glob => findings glob (disk.start (Path.isAbsolute pattern))

/-- The paths of the files among findings. A pattern that ends in a slash selects
directories only. -/
def filePaths (pattern : String) (found : List (Finding α)) : List FilePath :=
  if pattern.toList.getLast? = some '/' then []
  else (filesOf (found.filterMap Finding.place?)).map Place.filePath

end Glob

end Schemata

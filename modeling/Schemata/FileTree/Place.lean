import Schemata.FilePath
import Schemata.FileTree.Basic

/-!
# Schemata — FileTree — Place

A place in a file tree: what is there, the directories above it, and the pieces of the path that led
to it. Places are reached step by step, so that the directory above is at hand; above the root there
is nothing but the root.
-/

namespace Schemata

/-- The least number of bytes that a path cannot have, where no other is set. -/
def longestPath : Nat := 4096

/-- Where paths start, at the root of all paths or in the working directory, and the least number of
bytes that they cannot have. -/
structure Route where
  isAbsolute : Bool := false
  limit : Nat := longestPath
deriving DecidableEq, Repr

/-- A place in a file tree, with the directories above it from the nearest on, the route and the
pieces of the path that led to it, and whether the last step was to list a directory. -/
structure Place (α : Type) where
  tree : FileTree α
  above : List (FileTree α) := []
  route : Route := {}
  path : List String := []
  listed : Bool := false
deriving Repr

namespace Place

variable {α : Type}

/-- The last piece of the path: the name under which the place was reached. -/
def name (p : Place α) : String := p.path.getLastD ""

/-- The path that led to a place. -/
def filePath (p : Place α) : FilePath := .ofNames p.route.isAbsolute p.path

/-- Whether the path is short enough to be followed. -/
def isWithinReach (p : Place α) : Bool := p.filePath.size < p.route.limit

/-- A path without a slash at its end. -/
def unslashed (path : List String) : List String :=
  if path.getLast? = some "" then path.dropLast else path

/-- Whether a place is the working directory by a path that stays there. -/
def isHere (p : Place α) : Bool := !p.route.isAbsolute && p.path.all (· = Path.current)

/-- The path that others go on from: a slash at its end is there only as long as nothing follows,
and from the working directory paths go on without its own. -/
def stem (p : Place α) : List String := if p.isHere then [] else unslashed p.path

/-- The path with one piece more. An empty piece is a slash at the end. -/
def joined (p : Place α) (piece : String) : List String :=
  if piece = "" ∧ p.path = [] then [] else p.stem ++ [piece]

/-- The place that leads on from this one: the same place, by a path with the piece `.` but for the
working directory. -/
def again (p : Place α) : Place α :=
  if p.isHere then { p with path := [] }
  else { p with path := p.joined Path.current, listed := false }

/-- The directory above; above the root there is the root. -/
def up (p : Place α) : Place α :=
  let path := p.joined Path.parent
  match p.above with
  | []         => { p with path, listed := false }
  | t :: above => { p with tree := t, above, path, listed := false }

/-- The places of the entries of a directory. -/
def children (p : Place α) : List (Place α) :=
  match p.tree with
  | .file _            => []
  | .directory entries =>
    entries.map fun e => ⟨e.2, p.tree :: p.above, p.route, p.stem ++ [e.1], true⟩

/-- The place one piece of a path leads to. An empty piece stays, as `.` does, but adds a slash. -/
def step (p : Place α) (piece : String) : Except FileError (Place α) :=
  match p.tree with
  | .file _ => .error .notDirectory
  | .directory entries =>
    if piece = "" then .ok { p with path := p.joined piece, listed := false }
    else if piece = Path.current then .ok p.again
    else if piece = Path.parent then .ok p.up
    else if FileName.size piece > longestName then .error .nameTooLong
    else match FileTree.entryOf entries piece with
      | none   => .error .notFound
      | some t => .ok ⟨t, p.tree :: p.above, p.route, p.joined piece, false⟩

mutual
/-- The places below a tree, each directory before what it holds. -/
def placesBelow (above : List (FileTree α)) (route : Route) (path : List String) :
    FileTree α → List (Place α)
  | .file _            => []
  | .directory entries => entriesBelow (.directory entries :: above) route path entries
/-- The places of entries and what they hold. -/
def entriesBelow (above : List (FileTree α)) (route : Route) (path : List String) :
    List (String × FileTree α) → List (Place α)
  | []                => []
  | (name, t) :: rest =>
    ⟨t, above, route, path ++ [name], true⟩ :: placesBelow above route (path ++ [name]) t ++
      entriesBelow above route path rest
end

/-- The places below a place. -/
def below (p : Place α) : List (Place α) := placesBelow p.above p.route p.stem p.tree

end Place

end Schemata

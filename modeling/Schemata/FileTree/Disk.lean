import Schemata.FileTree.Place

/-!
# Schemata — FileTree — Disk

All the files that paths lead to: those in the working directory, and those around it up to the root
of all paths. A path that starts with a slash starts at the root, any other in the working
directory. Calls that follow a path fail if it is too long for them.
-/

namespace Schemata

/-- What is around a directory: its name in the directory that holds it, and the other entries
there. -/
structure Surrounding (α : Type) where
  name : String
  others : List (String × FileTree α) := []
deriving Repr

/-- The files in the working directory, what is around it from the nearest directory on, and the
least number of bytes that a path cannot have. -/
structure Disk (α : Type) where
  files : FileTree α := .empty
  around : List (Surrounding α) := []
  limit : Nat := longestPath
deriving Repr

namespace Surrounding

variable {α : Type}

/-- The directory that holds a directory. -/
def around (s : Surrounding α) (t : FileTree α) : FileTree α := .directory ((s.name, t) :: s.others)

/-- The directories above a tree, from the nearest on. -/
def above (t : FileTree α) : List (Surrounding α) → List (FileTree α)
  | []        => []
  | s :: rest => s.around t :: above (s.around t) rest

end Surrounding

namespace Disk

variable {α : Type}

/-- The tree of all files, from the root on. -/
def root (d : Disk α) : FileTree α := d.around.foldl (fun t s => s.around t) d.files

/-- The place where a path starts. -/
def start (d : Disk α) (isAbsolute : Bool) : Place α :=
  let route := { isAbsolute, limit := d.limit }
  if isAbsolute then { tree := d.root, route }
  else { tree := d.files, above := Surrounding.above d.files d.around, route }

@[simp] theorem route_start (d : Disk α) (isAbsolute : Bool) :
    (d.start isAbsolute).route = { isAbsolute, limit := d.limit } := by
  cases isAbsolute <;> rfl

@[simp] theorem path_start (d : Disk α) (isAbsolute : Bool) : (d.start isAbsolute).path = [] := by
  cases isAbsolute <;> rfl

/-- The place a path leads to. -/
def follow (d : Disk α) (path : FilePath) : Except FileError (Place α) :=
  if path.bytes.contains 0 then .error .nulInName
  else if path.bytes = [] then .error .notFound
  else if d.limit ≤ path.size then .error .nameTooLong
  else path.names.foldlM Place.step (d.start path.isAbsolute)

/-- The content of the file a path leads to. -/
def content (d : Disk α) (path : FilePath) : Except FileError α := do
  match (← d.follow path).tree with
  | .file content => .ok content
  | .directory _  => .error .isDirectory

end Disk

end Schemata

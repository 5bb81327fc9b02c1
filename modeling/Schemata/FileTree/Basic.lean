import Schemata.Path

/-!
# Schemata — FileTree — Basic

A tree of directories and files with contents of some type. A path leads from the top of the tree
through one directory after another; what lies outside the tree is an empty directory. Following a
path fails for the reasons an operating system gives, in its words.
-/

namespace Schemata

/-- A file with its content, or a directory with its entries by name. -/
inductive FileTree (α : Type) where
  | file (content : α)
  | directory (entries : List (String × FileTree α))
deriving Repr, Inhabited

/-- Why a file cannot be reached or read. -/
inductive FileError where
  | notFound
  | isDirectory
  | notDirectory
  | nameTooLong
  | nulInName
  | notText
deriving DecidableEq, Repr

/-- The wording of an error. -/
def FileError.message : FileError → String
  | .notFound     => "No such file or directory (os error 2)"
  | .isDirectory  => "Is a directory (os error 21)"
  | .notDirectory => "Not a directory (os error 20)"
  | .nameTooLong  => "File name too long (os error 36)"
  | .nulInName    => "file name contained an unexpected NUL byte"
  | .notText      => "stream did not contain valid UTF-8"

namespace FileTree

variable {α : Type}

/-- The tree that holds nothing. -/
def empty : FileTree α := .directory []

/-- Whether a tree is a directory. -/
def isDirectory : FileTree α → Bool
  | .file _      => false
  | .directory _ => true

/-- Whether a tree is a file. -/
def isFile (t : FileTree α) : Bool := !t.isDirectory

/-- The entry of a name. -/
def entryOf (entries : List (String × FileTree α)) (name : String) : Option (FileTree α) :=
  (entries.find? (·.1 = name)).map Prod.snd

/-- What is at the end of a path of names. -/
def get? (t : FileTree α) : List String → Option (FileTree α)
  | [] => some t
  | name :: rest =>
    match t with
    | .file _            => none
    | .directory entries => (entryOf entries name).bind (get? · rest)

/-- Entries with one put in its place by name, in place of one of the same name. -/
def putEntry (name : String) (t : FileTree α) :
    List (String × FileTree α) → List (String × FileTree α)
  | [] => [(name, t)]
  | e :: rest =>
    if name = e.1 then (name, t) :: rest
    else if name < e.1 then (name, t) :: e :: rest
    else e :: putEntry name t rest

/-- The tree with another at the end of a path of names; directories that are missing are made.
Nothing is put below a file. -/
def put? (t : FileTree α) : List String → FileTree α → Option (FileTree α)
  | [], new => some new
  | name :: rest, new =>
    match t with
    | .file _ => none
    | .directory entries =>
      (put? ((entryOf entries name).getD empty) rest new).map fun sub =>
        .directory (putEntry name sub entries)

/-- The tree without what is at the end of a path of names. -/
def delete (t : FileTree α) : List String → FileTree α
  | [] => t
  | name :: rest =>
    match t with
    | .file content => .file content
    | .directory entries =>
      if rest.isEmpty then .directory (entries.filter (·.1 ≠ name))
      else match entryOf entries name with
        | none     => t
        | some sub => .directory (putEntry name (sub.delete rest) entries)

end FileTree

end Schemata

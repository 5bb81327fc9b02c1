import Schemata.Path
import Schemata.Text.Lossy

/-!
# Schemata — FilePath

Paths to files as an operating system takes them: bytes, with a slash between two names, and one at
the start if the path starts at the root of all paths.
-/

namespace Schemata

/-- A path to a file. -/
structure FilePath where
  bytes : List UInt8
deriving DecidableEq, Repr, Inhabited

namespace FilePath

/-- The path that a text is. -/
def ofText (text : String) : FilePath := ⟨text.toUTF8.toList⟩

instance : Coe String FilePath := ⟨ofText⟩

/-- The path along names, from the root of all paths or from where one is. -/
def ofNames (isAbsolute : Bool) (names : List String) : FilePath :=
  ⟨(if isAbsolute then [slash] else []) ++ [slash].intercalate (names.map FileName.bytes)⟩

/-- Whether a path starts at the root of all paths. -/
def isAbsolute (p : FilePath) : Bool := p.bytes.head? = some slash

/-- The names that a path leads through. -/
def names (p : FilePath) : List String := FileName.namesOf p.bytes

/-- The number of bytes in a path. -/
def size (p : FilePath) : Nat := p.bytes.length

/-- A path as it is shown. -/
def text (p : FilePath) : String := lossy p.bytes

end FilePath

end Schemata

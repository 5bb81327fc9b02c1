import Schemata.FileTree.Name
import Schemata.Path
import Schemata.Store.Opening

/-!
# Schemata — Store — Location

Where a path says that a store is. A path that starts with `file:` states it: escapes in it stand
for bytes, parameters after a question mark say how the store is opened, and what comes after a
number sign counts for nothing. Any other path is taken as it is. The store at the empty path and at
`:memory:` is in no file.
-/

namespace Schemata

/-- Where a store is, and how it is opened there. -/
structure Location where
  path : List UInt8
  access : Option Access := some .making
  shared : Bool := false
  system : FileSystem := .standard
  fixed : Bool := false
  lockless : Bool := false
  model : Option (List UInt8) := none
deriving DecidableEq, Repr

namespace Location

open Scanner (hexValue?)

/-- The bytes of a text in which a percent sign and two hexadecimal digits stand for a byte. The
byte zero ends the text. -/
def bytes : List Char → List UInt8
  | [] => []
  | '%' :: a :: b :: rest =>
    match hexValue? a, hexValue? b with
    | some high, some low =>
      if high = 0 ∧ low = 0 then [] else UInt8.ofNat (16 * high + low) :: bytes rest
    | _, _ => String.utf8EncodeChar '%' ++ bytes (a :: b :: rest)
  | c :: rest => String.utf8EncodeChar c ++ bytes rest

/-- A text cut at the first occurrence of a character, which belongs to neither part. -/
def cutAt (c : Char) (text : List Char) : List Char × List Char :=
  (text.takeWhile (· ≠ c), (text.dropWhile (· ≠ c)).drop 1)

/-- A parameter of a name. -/
def parameter? (text : List Char) : Option (List UInt8 × List UInt8) :=
  let (name, value) := cutAt '=' text
  if bytes name = [] then none else some (bytes name, bytes value)

/-- What comes after the host of a path; there is no other than this one. -/
def afterHost? : List Char → Option (List Char)
  | '/' :: '/' :: rest =>
    if rest.takeWhile (· ≠ '/') ∈ [[], "localhost".toList] then some (rest.dropWhile (· ≠ '/'))
    else none
  | path => some path

/-- The location that is stated after `file:`. -/
def ofStatement? (text : List Char) : Option Location := do
  let (path, parameters) := cutAt '?' (cutAt '#' (← afterHost? text)).1
  let o ← ((piecesAt '&' parameters).filterMap parameter?).foldlM Opening.take? {}
  return {
    path := bytes path
    access := o.access
    shared := o.shared
    system := ← o.system
    fixed := o.fixed.getD false
    lockless := o.lockless.getD false
    model := o.model }

/-- The location that a path is for; none if it states one that there is not. -/
def ofPath? (path : String) : Option Location :=
  match path.toList with
  | 'f' :: 'i' :: 'l' :: 'e' :: ':' :: text => ofStatement? text
  | _ => some { path := path.toUTF8.toList }

/-- Whether what is at a location is only read. -/
def isReading (l : Location) : Bool := l.access = some .reading

/-- Whether the store is in no file and in no file system either. -/
def isLoose (l : Location) : Bool :=
  l.access.isNone || l.path = [] || l.path = ":memory:".toUTF8.toList

/-- The names that the path leads through. -/
def names (l : Location) : List String := FileName.namesOf l.path

/-- Whether the path starts at the root of all paths. -/
def isAbsolute (l : Location) : Bool := l.path.head? = some slash

/-- Whether a file in memory can be reached under its name by all who open it: its name starts with
a slash of either kind and goes on. -/
def isCommon (l : Location) : Bool :=
  l.path.head? ∈ [some slash, some '\\'.toUInt8] && 1 < l.path.length

end Location

end Schemata

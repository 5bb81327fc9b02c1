import Schemata.Catalog
import Schemata.Glob.Search
import Schemata.Text.Escaped
import Schemata.Workspace.Basic

/-!
# Schemata — Loader

Declaration files on their way to models. Each file declares one model and the objects it needs; the
files a pattern selects are declared in the order of their paths, so that a file can refer to what
earlier files declare.
-/

namespace Schemata

/-- Why declaration files do not load. -/
inductive LoadError where
  | invalidPattern (pattern : String) (fault : Glob.FaultAt)
  | unreadable (path : FilePath) (cause : FileError)
  | malformed (path : FilePath)
  | missingModel (path : FilePath)
  | invalid (path : FilePath) (cause : DeclarationError)
deriving DecidableEq, Repr

/-- The wording of an error. -/
def LoadError.message : LoadError → String
  | .invalidPattern pattern fault =>
    "invalid model pattern " ++ escaped pattern ++ ": " ++ fault.message
  | .unreadable path cause => "failed to read " ++ path.text ++ ": " ++ cause.message
  | .malformed path        => "malformed declaration file " ++ path.text
  | .missingModel path     => path.text ++ " does not declare a model"
  | .invalid path cause    => "invalid declaration in " ++ path.text ++ ": " ++ cause.message

namespace Disk

/-- The text of the file a path leads to. -/
def readText (d : Disk Content) (path : FilePath) : Except FileError String := do
  (← d.content path).text

end Disk

/-- The paths of the files a pattern selects. -/
def selectFiles (disk : Disk Content) (pattern : String) : Except LoadError (List FilePath) := do
  let found ← (Glob.search pattern disk).mapError (.invalidPattern pattern)
  match found.findSome? Glob.Finding.obstacle? with
  | some p => throw (.unreadable p.filePath .nameTooLong)
  | none   => return Glob.filePaths pattern found

namespace Catalog

/-- The objects and the model a file declares. -/
def readFile (disk : Disk Content) (path : FilePath) :
    Except LoadError (List Declaration.Object × Declaration.Model) := do
  let text ← (disk.readText path).mapError (.unreadable path)
  match Json.decode? Declaration.File.read? text with
  | none                  => throw (.malformed path)
  | some ⟨_, none⟩        => throw (.missingModel path)
  | some ⟨objects, some m⟩ => return (objects, m)

/-- Declares what a file declares. -/
def loadFile (c : Catalog) (disk : Disk Content) (path : FilePath) :
    Except LoadError Model × Catalog :=
  match readFile disk path with
  | .error e         => (.error e, c)
  | .ok (objects, m) =>
    match c.declareObjects objects with
    | (.error e, c) => (.error (.invalid path e), c)
    | (.ok (), c) =>
      let (result, c) := c.declareModel m
      (result.mapError (.invalid path), c)

/-- Declares what files declare, in order, up to the first that fails. -/
def loadFiles (c : Catalog) (disk : Disk Content) :
    List FilePath → Except LoadError (List Model) × Catalog
  | []           => (.ok [], c)
  | path :: rest =>
    match c.loadFile disk path with
    | (.error e, c) => (.error e, c)
    | (.ok m, c) =>
      let (result, c) := c.loadFiles disk rest
      (result.map (m :: ·), c)

end Catalog

/-- The models that the files a pattern selects declare. -/
def loadPattern (disk : Disk Content) (pattern : String) : Except LoadError (List Model) := do
  (({} : Catalog).loadFiles disk (← selectFiles disk pattern)).1

end Schemata

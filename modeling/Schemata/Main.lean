import Schemata.Command.Program
import Std.Time.DateTime.Timestamp

/-!
# Schemata — Main

The program at work: the working directory is read into a workspace, the program runs on it, and
what it prints and the stores it changed are written. What else there is beside the working
directory or above it is not read; a store outside of it, or in the data directory where none is
given, is the workspace's own.
-/

namespace Schemata

/-- Adds the files of a directory to a tree, below a path of names. What cannot be read is
left out. -/
partial def readTree (t : FileTree Content) (path : List String) : IO (FileTree Content) := do
  let mut t := t
  let directory := (← IO.currentDir) / Path.ofPieces path
  for e in ← (directory.readDir <|> pure #[]) do
    let names := path ++ [e.fileName]
    if ← e.path.isDir then
      t ← readTree ((t.put? names .empty).getD t) names
    else
      let content ← (some <$> IO.FS.readBinFile e.path) <|> pure none
      t := (content.bind fun bytes => t.put? names (.file (.ofBytes bytes))).getD t
  return t

/-- What is around the working directory: the directories that hold it, and nothing else in them. -/
def readAround : IO (List (Surrounding Content)) := do
  let directory ← IO.currentDir
  return (Path.moves directory.toString).reverse.map fun name => { name }

/-- The variables of the environment that the program reads. -/
def readVariables : IO Variables := do
  let names := [Flag.store, Flag.retries, Flag.delay].filterMap Flag.envName?
  let values ← names.mapM fun name => return (name, ← IO.getEnv name)
  return fun name => (values.lookup name).join

/-- The path of the store where none is given. -/
def dataPath : IO String := do
  let base ← match ← IO.getEnv "XDG_DATA_HOME" with
    | some base => pure base
    | none      => return ((← IO.getEnv "HOME").getD "") ++ "/.local/share/docmodel/docmodel.db"
  return base ++ "/docmodel/docmodel.db"

/-- Reads the store at a path outside the working directory; one that does not exist is new. -/
def readOwn (path : String) : IO Volume := do
  let text ← (some <$> IO.FS.readFile path) <|> pure none
  return (text.bind Volume.ofText?).getD {}

/-- Writes a store to a path, in directories that are made if they are missing. -/
def writeStore (path text : String) : IO Unit := do
  let directory := Path.ofPieces (Path.pieces path).dropLast
  if directory ≠ "" then IO.FS.createDirAll directory
  IO.FS.writeFile path text

end Schemata

open Schemata in
/-- Runs the program. -/
def main (args : List String) : IO UInt32 := do
  let env ← readVariables
  let path := (outsidePath? env args).getD (← dataPath)
  let before : Workspace :=
    { files := ← readTree .empty [], around := ← readAround, own := ← readOwn path }
  let now ← Std.Time.Timestamp.now
  let exit := runProgram env args (.ofSeconds now.val.second.val now.val.nano.val.toNat) before
  for (names, text) in exit.workspace.storeTexts do
    if (names, text) ∉ before.storeTexts then writeStore (Path.ofPieces names) text
  if exit.workspace.own.text ≠ before.own.text then writeStore path exit.workspace.own.text
  IO.print exit.output
  IO.eprint exit.complaint
  return exit.code.toUInt32

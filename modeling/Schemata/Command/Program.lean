import Schemata.Command.Help
import Schemata.Store.Codec

/-!
# Schemata — Command — Program

The program as a function: from its arguments, its environment, the time and the workspace to an
exit code, what it prints, and the workspace it leaves.
-/

namespace Schemata

/-- The content of bytes that were read from a file. -/
def Content.ofBytes (bytes : ByteArray) : Content :=
  match (String.fromUTF8? bytes).bind Volume.ofText? with
  | some v => .store v
  | none   => .plain bytes

namespace Workspace

/-- The stores in the files of a workspace: the names that lead to each, and its text. -/
def storeTexts (w : Workspace) : List (List String × String) :=
  (w.disk.start false).below.filterMap fun p =>
    match p.tree with
    | .file (.store v) => some (p.path, v.text)
    | _                => none

end Workspace

/-- The path of the file outside the working directory that an address leads to. -/
def Address.outside? : Address → Option String
  | .own    => none
  | .path p =>
    match Location.ofPath? p with
    | some l => if Workspace.isOutside l then String.fromUTF8? ⟨l.path.toArray⟩ else none
    | none   => none

/-- The path of the file outside the working directory that a line gives for the store. -/
def outsidePath? (env : Variables) (args : List String) : Option String :=
  match Invocation.ofArgs env args with
  | .ok i => i.store.outside?
  | _     => none

/-- What a run of the program leaves: its exit code, what it prints, what it complains of, and the
workspace. -/
structure Exit where
  code : UInt8
  output : String := ""
  complaint : String := ""
  workspace : Workspace

/-- Runs the program on its arguments: it exits with 0 if it succeeds, 1 if the command fails, and 2
if the line states no command. -/
def runProgram (env : Variables) (args : List String) (now : Instant) (w : Workspace) : Exit :=
  match Invocation.ofArgs env args with
  | .error (.help topic) => { code := 0, output := Help.text env topic, workspace := w }
  | .error .usage        => { code := 2, complaint := Help.text env none, workspace := w }
  | .ok invocation =>
    match invocation.run now w with
    | (.ok output, w) => { code := 0, output, workspace := w.closed }
    | (.error e, w)   =>
      { code := 1, complaint := "Error: " ++ e.message ++ "\n", workspace := w.closed }

end Schemata

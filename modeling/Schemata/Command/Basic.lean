import Schemata.Bootstrap.Basic

/-!
# Schemata — Command — Basic

The commands: print the models that files declare, synchronize them with a store, print what is
stored of one model, list all that is stored. A command prints its whole output or, if it fails,
nothing.
-/

namespace Schemata

/-- A command. -/
inductive Command where
  | compile (pattern : String)
  | sync (pattern : String) (policy : RetryPolicy)
  | inspect (name : String) (validator : Bool)
  | list
deriving DecidableEq, Repr

/-- A command and the store it is for. -/
structure Invocation where
  store : Address
  command : Command
deriving DecidableEq, Repr

/-- Why a command fails. -/
inductive CommandError where
  | load (cause : LoadError)
  | bootstrap (cause : BootstrapError)
  | store (cause : StoreFault)
  | notStored (name : String)
deriving DecidableEq, Repr

/-- The wording of an error. -/
def CommandError.message : CommandError → String
  | .load cause      => cause.message
  | .bootstrap cause => cause.message
  | .store cause     => cause.message
  | .notStored name  => "No schema stored for model " ++ name

namespace Command

/-- A JSON value as printed, on lines of its own. -/
def printed (j : Json) : String := j.renderPretty ++ "\n"

/-- The line of a stored model: name, revision, how strictly it is enforced, and when it last
changed. -/
def line (m : StoredModel) : String :=
  m.name ++ "\trev " ++ toString m.revision.toInt ++ "\t" ++ m.action.name ++ "/" ++ m.level.name ++
    "\t" ++ m.updatedAt.text ++ "\n"

/-- The output of printing a stored model. -/
def inspected (name : String) (validator : Bool) (s : Store) : Except CommandError String :=
  match s.get? name with
  | .error e      => .error (.store e)
  | .ok none      => .error (.notStored name)
  | .ok (some m) => .ok (printed (if validator then m.document.validator else m.toJson))

/-- The output of listing a store. -/
def listed (s : Store) : Except CommandError String :=
  match s.list with
  | .error e => .error (.store e)
  | .ok ms   => .ok (String.join (ms.map line))

/-- The output of what reads an opened store. -/
def reading (w : Workspace) (a : Address) (read : Store → Except CommandError String) :
    Except CommandError String × Workspace :=
  match w.openMigrated a with
  | (.error e, w) => (.error (.store e), w)
  | (.ok n, w)    => w.use n fun s => (read s, s)

end Command

namespace Invocation

/-- Runs a command at an instant: its output, and the workspace after it. -/
def run (i : Invocation) (now : Instant) (w : Workspace) : Except CommandError String × Workspace :=
  match i.command with
  | .compile pattern =>
    match loadPattern w.disk pattern with
    | .error e => (.error (.load e), w)
    | .ok ms   => (.ok (Command.printed (.array (ms.map Model.toJson))), w)
  | .sync pattern policy =>
    let r := w.bootstrap i.store now policy (.selected pattern)
    match r.result with
    | .error e  => (.error (.bootstrap e), r.state)
    | .ok ready =>
      (.ok ((ready.report.map fun report => Command.printed report.toJson).getD ""), r.state)
  | .inspect name validator => Command.reading w i.store (Command.inspected name validator)
  | .list                   => Command.reading w i.store Command.listed

end Invocation

end Schemata

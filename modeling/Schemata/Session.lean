import Schemata.Store.Basic

/-!
# Schemata — Session

A session with a store. Models are registered first and written together when the session
synchronizes; a name that is registered again keeps its place and takes the new document. What fails
for a while, and what fails for good, are told apart.
-/

namespace Schemata

/-- Why a session or its connection fails. -/
inductive SessionError where
  | unavailable (reason : String)
  | busy (reason : String)
  | connection (reason : String)
  | sync (reason : String)
deriving DecidableEq, Repr

/-- A session: the models registered since it last synchronized, each name once. -/
structure Session where
  pending : List Model := []
deriving Repr

namespace SessionError

/-- Whether a later attempt may succeed. -/
def isTransient : SessionError → Bool
  | .unavailable _ => true
  | .busy _        => true
  | .connection _  => false
  | .sync _        => false

/-- The wording of an error. -/
def message : SessionError → String
  | .unavailable reason => "store unavailable: " ++ reason
  | .busy reason        => "store busy: " ++ reason
  | .connection reason  => "failed to connect to store: " ++ reason
  | .sync reason        => "schema synchronization failed: " ++ reason

/-- The error of a connection that meets a fault. -/
def ofConnecting (f : StoreFault) : SessionError :=
  if f = .locked then .busy f.message else .connection f.message

/-- The error of a synchronization that meets a fault. -/
def ofSyncing (f : StoreFault) : SessionError :=
  if f = .locked then .busy f.message else .sync f.message

end SessionError

namespace Session

/-- Models with one registered. -/
def stage (m : Model) : List Model → List Model
  | []        => [m]
  | n :: rest => if n.name = m.name then m :: rest else n :: stage m rest

/-- Registers a model. -/
def register (s : Session) (m : Model) : Session := ⟨stage m s.pending⟩

/-- The names that wait to be written, in the order they were first registered. -/
def names (s : Session) : List String := s.pending.map Model.name

/-- Writes the registered models to a store. The session has none afterwards, whether they were
written or not. -/
def synchronize (s : Session) (store : Store) (now : Instant) :
    Except SessionError Report × Session × Store :=
  let (result, store) := store.sync now s.pending
  (result.mapError .ofSyncing, {}, store)

end Session

end Schemata

import Schemata.Loader
import Schemata.Workspace.Connection

/-!
# Schemata — Bootstrap — Basic

Bringing up a store: connect, load the models, register each of them, and synchronize once. Failures
to connect that may pass are retried a number of times with a fixed wait between attempts; every
other failure ends the run. A run keeps the events it went through: the phases it entered, the calls
it made and the waits between them. What it connects to is a `Connector` over surroundings of its
own.
-/

namespace Schemata

/-- How often to try again to connect, and how long to wait before, in milliseconds. -/
structure RetryPolicy where
  retries : UInt32 := 5
  delay : UInt64 := 3000
deriving DecidableEq, Repr

/-- Fewer retries than the policy has can be counted further: the number of the next does not
wrap. -/
theorem RetryPolicy.toNat_next {policy : RetryPolicy} {retried : UInt32}
    (h : ¬ policy.retries ≤ retried) :
    retried.toNat < policy.retries.toNat ∧ (retried + 1).toNat = retried.toNat + 1 := by
  have hlt : retried.toNat < policy.retries.toNat :=
    Nat.lt_of_not_le (mt UInt32.le_iff_toNat_le.mpr h)
  have hbound := policy.retries.toNat_lt
  refine ⟨hlt, ?_⟩
  rw [UInt32.toNat_add, UInt32.toNat_one]
  omega

/-- How far a bootstrap has come. -/
inductive Phase where
  | disconnected
  | connecting
  | connected
  | ready
deriving DecidableEq, Repr

/-- The name of a phase. -/
def Phase.name : Phase → String
  | .disconnected => "disconnected"
  | .connecting   => "connecting"
  | .connected    => "connected"
  | .ready        => "ready"

/-- What happens in a run. -/
inductive Event where
  | enter (phase : Phase)
  | connect
  | register (name : String)
  | synchronize
  /-- Another attempt to connect is announced under its number. -/
  | retry (number : UInt32)
  | wait (delay : UInt64)
deriving DecidableEq, Repr

/-- The phase after an event in a phase. -/
def Event.phaseAfter (phase : Phase) : Event → Phase
  | .enter next => next
  | _           => phase

/-- Why a run fails. -/
inductive BootstrapError where
  | retriesExhausted (retries : UInt32) (cause : SessionError)
  | session (cause : SessionError)
  | load (cause : LoadError)
deriving DecidableEq, Repr

/-- The wording of an error. -/
def BootstrapError.message : BootstrapError → String
  | .retriesExhausted retries cause =>
    "gave up connecting to the store after " ++ toString retries.toNat ++ " retries: " ++
      cause.message
  | .session cause => cause.message
  | .load cause    => cause.message

/-- How sessions of type `κ` are opened and used in surroundings of type `σ`. -/
structure Connector (σ κ : Type) where
  connect : σ → Except SessionError κ × σ
  register : Model → κ → σ → Except SessionError κ × σ
  synchronize : κ → σ → Except SessionError Report × κ × σ

/-- What a successful run leaves: the session, the names of the models in the order they were
registered, and the report, if there was anything to synchronize. -/
structure Ready (κ : Type) where
  session : κ
  models : List String
  report : Option Report
deriving Repr

/-- The outcome of a run or a part of one, its events, and the surroundings after it. -/
structure Run (σ α : Type) where
  result : Except BootstrapError α
  events : List Event
  state : σ

namespace Run

variable {σ α : Type}

/-- A run with events before it. -/
def after (events : List Event) (r : Run σ α) : Run σ α := { r with events := events ++ r.events }

/-- The phase that a list of events leads to. -/
def phaseAfter (events : List Event) : Phase := events.foldl Event.phaseAfter .disconnected

/-- The phase a run ends in. -/
def phase (r : Run σ α) : Phase := phaseAfter r.events

end Run

namespace Connector

variable {σ κ : Type} (c : Connector σ κ)

/-- The events of an attempt to connect that leads to a phase. -/
def attempt (phase : Phase) : List Event := [.enter .connecting, .connect, .enter phase]

/-- Connects, after so many retries. -/
def connectFrom (policy : RetryPolicy) (retried : UInt32) (s : σ) : Run σ κ :=
  match c.connect s with
  | (.ok k, s)    => ⟨.ok k, attempt .connected, s⟩
  | (.error e, s) =>
    -- only what may pass is tried again
    if !e.isTransient then ⟨.error (.session e), attempt .disconnected, s⟩
    else if policy.retries ≤ retried then
      ⟨.error (.retriesExhausted policy.retries e), attempt .disconnected, s⟩
    else
      (connectFrom policy (retried + 1) s).after
        (attempt .disconnected ++ [.retry (retried + 1), .wait policy.delay])
termination_by policy.retries.toNat - retried.toNat
decreasing_by
  obtain ⟨hlt, hnext⟩ := RetryPolicy.toNat_next ‹¬ policy.retries ≤ retried›
  omega

/-- Registers models in order, up to the first that fails. -/
def registerAll : List Model → κ → σ → Run σ κ
  | [], k, s        => ⟨.ok k, [], s⟩
  | m :: rest, k, s =>
    match c.register m k s with
    | (.error e, s) => ⟨.error (.session e), [.register m.name], s⟩
    | (.ok k, s)    => (registerAll rest k s).after [.register m.name]

/-- Synchronizes a session that the named models are registered with. -/
def finish (names : List String) (k : κ) (s : σ) : Run σ (Ready κ) :=
  match c.synchronize k s with
  | (.error e, _, s)   => ⟨.error (.session e), [.synchronize], s⟩
  | (.ok report, k, s) => ⟨.ok ⟨k, names, some report⟩, [.synchronize, .enter .ready], s⟩

/-- Registers and synchronizes models; where there are none nothing is to be done. -/
def serve (models : List Model) (k : κ) (s : σ) : Run σ (Ready κ) :=
  if models.isEmpty then ⟨.ok ⟨k, [], none⟩, [.enter .ready], s⟩
  else
    let registered := c.registerAll models k s
    match registered.result with
    | .error e => { registered with result := .error e }
    | .ok k    => (c.finish (models.map Model.name) k registered.state).after registered.events

/-- Runs a bootstrap: connects, loads the models as they are while connected, and serves them. -/
def bootstrap (policy : RetryPolicy) (load : κ → σ → Except LoadError (List Model)) (s : σ) :
    Run σ (Ready κ) :=
  let connection := c.connectFrom policy 0 s
  match connection.result with
  | .error e => { connection with result := .error e }
  | .ok k =>
    match load k connection.state with
    | .error e   => ⟨.error (.load e), connection.events, connection.state⟩
    | .ok models => (c.serve models k connection.state).after connection.events

end Connector

/-- Where models come from: they are given, or declared in the files that a pattern selects. -/
inductive ModelSource where
  | given (models : List Model)
  | selected (pattern : String)
deriving Repr

/-- The models of a source. -/
def ModelSource.load (disk : Disk Content) : ModelSource → Except LoadError (List Model)
  | .given models     => .ok models
  | .selected pattern => loadPattern disk pattern

/-- What a bootstrap connects to: the store at an address, or the one that a connection is open
to. -/
inductive Target where
  | address (a : Address)
  | connection (number : Nat)
deriving DecidableEq, Repr

instance : Coe Address Target := ⟨.address⟩

namespace Workspace

/-- Connects to a store. A connection that is open already is used again, for which the store gets
its table, if it has none. -/
def connectTo (w : Workspace) : Target → Except SessionError Nat × Workspace
  | .address a => w.connect a
  | .connection number =>
    let (result, w) := w.migrate number
    ((result.map fun _ => number).mapError .ofConnecting, w)

/-- Connects to a store; what is written is written at the given instant. -/
def connector (target : Target) (now : Instant) : Connector Workspace (Nat × Session) where
  connect w :=
    let (result, w) := w.connectTo target
    (result.map (·, {}), w)
  register m k w := (.ok (k.1, k.2.register m), w)
  synchronize k w :=
    let (result, session, w) := w.synchronize k.1 k.2 now
    (result, (k.1, session), w)

/-- Brings up a store. -/
def bootstrap (w : Workspace) (target : Target) (now : Instant) (policy : RetryPolicy)
    (source : ModelSource) : Run Workspace (Ready (Nat × Session)) :=
  (connector target now).bootstrap policy (fun _ w => source.load w.disk) w

end Workspace

end Schemata

import Schemata.Bootstrap.Basic

/-!
# Schemata — Bootstrap — Rehearsal

A store that answers by a script, to try a bootstrap on. Each call of a kind takes the next answer
the script has for the kind, and succeeds once there is none left. Synchronizing reports every
registered name as created. The events of a run have a time: what is waited adds up, up to thirty
years a wait, and all else takes none.
-/

namespace Schemata

/-- The answers to come, by kind of call: none is success. -/
structure Script where
  connect : List (Option SessionError) := []
  register : List (Option SessionError) := []
  synchronize : List (Option SessionError) := []
deriving Repr

namespace Script

/-- The next answer, and the answers after it. -/
def answer : List (Option SessionError) → Except SessionError Unit × List (Option SessionError)
  | []             => (.ok (), [])
  | none :: rest   => (.ok (), rest)
  | some e :: rest => (.error e, rest)

/-- Sessions that hold the names registered with them. -/
def connector : Connector Script (List String) where
  connect s :=
    let (result, rest) := answer s.connect
    (result.map fun _ => [], { s with connect := rest })
  register m names s :=
    let (result, rest) := answer s.register
    (result.map fun _ => names ++ [m.name], { s with register := rest })
  synchronize names s :=
    let (result, rest) := answer s.synchronize
    (result.map fun _ => { created := names }, names, { s with synchronize := rest })

end Script

/-- An event with the phase it happens in and the milliseconds that were waited before it. -/
structure TimedEvent where
  event : Event
  phase : Phase
  time : Nat
deriving DecidableEq, Repr

/-- The most milliseconds that a wait takes: thirty years. -/
def longestWait : Nat := 946080000000

/-- The milliseconds that an event takes. -/
def Event.duration : Event → Nat
  | .wait delay => min delay.toNat longestWait
  | _           => 0

/-- Events with their phases and times, from a phase and a time on. -/
def timeline (phase : Phase) (time : Nat) : List Event → List TimedEvent
  | []        => []
  | e :: rest => ⟨e, phase, time⟩ :: timeline (e.phaseAfter phase) (time + e.duration) rest

/-- The milliseconds that events take. -/
def duration (events : List Event) : Nat := events.foldr (fun e time => e.duration + time) 0

end Schemata

import Schemata.Workspace.Starting

/-!
# Schemata — Workspace — Connection

Opening the stores of a workspace and closing them. The last who closes a store that keeps a log
settles it and deletes the log and its index, unless it was only reading.
-/

namespace Schemata

namespace Workspace

/-- Whether a connection is open that keeps a lock on a file: it uses the log of the file, or has
the file for its process alone. -/
def isClaimed (w : Workspace) (names : List String) : Bool :=
  (w.connections.map Prod.snd).any fun c =>
    c.site = .file names && (c.hasLog || (c.system = .exclusive && c.isLogging))

/-- Sets the handle of a file aside that a connection lets go of. While no one keeps a lock on the
file there are none aside. -/
def setAside (w : Workspace) (c : Connection) : Workspace :=
  match c.site with
  | .file names =>
    let isLast := !w.connections.any fun e => c.isBeside e.2
    if !w.isClaimed names then { w with spares := w.spares.filter (·.1 ≠ names) }
    else if isLast && c.system ∈ [.standard, .exclusive] then
      { w with spares := (names, c.readOnly) :: w.spares }
    else w
  | _ => w

/-- Adds a connection, for which the store is readied first. Who joins a cache finds it ready. -/
def accept (c : Connection) : Attempt Nat := do
  if ((← get).joined? c.cache).isSome then
    let (number, w) := (← get).attach c
    set w
    return number
  else
    let isLogged := ((← get).volumeAt c.site).keepsLog
    tryCatch (start c) fun e => do
      set ((← get).setAside c)
      throw e
    let (number, w) := (← get).attach c
    set (if isLogged then w.enter number else w)
    return number

/-- Opens the store that a path is for. -/
def openPath (path : String) : Attempt Nat := do
  makeDirectories path
  if path.toList.contains '\x00' then throw .notAFile
  let some l := Location.ofPath? path | throw .notAFile
  accept (← reach l)

/-- Opens the store at an address. -/
def openStore (w : Workspace) : Address → Except StoreFault Nat × Workspace
  | .own       =>
    let w := { w with own := w.own.logged true }
    let (number, w) := w.attach { site := .own, isAware := w.own.table.isSome }
    (.ok number, w)
  | .path path => (openPath path).run.run w

/-- Closes a connection. -/
def close (w : Workspace) (number : Nat) : Workspace :=
  match w.connection? number with
  | none   => w
  | some c =>
    let w := w.release number
    let w := { w with connections := w.connections.filter (·.1 ≠ number) }
    match c.site with
    | .apart _    => w
    | .own        => { w with own := w.own.settle }
    | .file names =>
      let w := w.setAside c
      -- while others use the log it stays, and so it does if nothing can be written
      if w.isLogged names || !c.hasLog || w.onlyReads c then w
      else
        let w := w.setVolumeAt c.site (w.volumeAt c.site).settle
        let w := w.sweep names .log
        if c.isAlone then w else w.sweep names .index

/-- The workspace after all connections are closed. -/
def closed (w : Workspace) : Workspace :=
  let w := w.connections.foldl (fun w e => w.close e.1) w
  { w with apart := [] }

/-- Opens the store at an address and gives it its table. -/
def openMigrated (w : Workspace) (a : Address) : Except StoreFault Nat × Workspace :=
  match w.openStore a with
  | (.error e, w) => (.error e, w)
  | (.ok number, w) =>
    match w.migrate number with
    | (.ok (), w)   => (.ok number, w)
    | (.error e, w) => (.error e, w.close number)

/-- Connects to the store at an address. -/
def connect (w : Workspace) (a : Address) : Except SessionError Nat × Workspace :=
  let (result, w) := w.openMigrated a
  (result.mapError .ofConnecting, w)

/-- Another connection to the store at an address holds it from now on, if it can be opened. -/
def lock (w : Workspace) (a : Address) : Option Nat × Workspace :=
  match w.openStore a with
  | (.ok number, w) => (some number, w.hold number)
  | (.error _, w)   => (none, w)

/-- The connection that holds a store is closed, if there is one. -/
def unlock (w : Workspace) (holder : Option Nat) : Workspace := holder.elim w w.close

end Workspace

end Schemata

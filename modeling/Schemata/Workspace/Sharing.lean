import Schemata.Workspace.Companion

/-!
# Schemata — Workspace — Sharing

What a connection sees of its store. A writer's lock keeps others from writing to a store that keeps
a log, and from reading too where the file system has no better locks; connections without locks
neither keep others out nor are kept out. A store that keeps a log can only be used through it. What
was frozen when a connection was opened it sees as it was then.
-/

namespace Schemata

namespace Connection

/-- Whether what another connection to the same store holds keeps this one from reading. -/
def isShutOutBy (c d : Connection) : Bool :=
  d.hold = some .writer && !c.isBeside d && c.system = .memory && d.system = .memory &&
    !c.lockless && !d.lockless

/-- Whether what another connection to the same store holds keeps this one from writing. -/
def isHeldBackBy (c d : Connection) : Bool :=
  match d.hold with
  | none         => false
  | some .writer => c.isBeside d || (c.isLogging && d.isLogging)
  | some .reader =>
    !c.isBeside d && c.system = .memory && d.system = .memory && !c.lockless && !d.lockless

end Connection

namespace Workspace

/-- Whether a connection that uses the log of a file is open. -/
def isLogged (w : Workspace) (names : List String) : Bool :=
  (w.connections.map Prod.snd).any fun c => c.site = .file names && c.hasLog

/-- The fault of a connection that works without a log on the store in a file. -/
def unlogged? (w : Workspace) (c : Connection) (names : List String) : Option StoreFault :=
  if (w.volumeAt c.site).keepsLog then some .notAFile
  else match w.files.content? names with
    | some (.store _) =>
      if w.has names .log || (w.hasDirectory names .journal && !c.isDotted) then some .notAFile
      else if c.readOnly && w.hasOpenJournal names && !c.isDotted then some .readOnly
      else none
    | _ => if w.hasDirectory names .log then some .notAFile else none

/-- The fault of beginning to use the log of a file. -/
def unentered? (w : Workspace) (c : Connection) (names : List String) : Option StoreFault :=
  if c.hasLog then none
  else if w.hasDirectory names .journal || w.hasDirectory names .log then some .notAFile
  else if !w.hasOpenJournal names then none
  else if c.readOnly then some .readOnly
  else if w.isLogged names then some .locked
  else none

/-- Whether the lock beside a file is another's. -/
def isLockedBeside (w : Workspace) (number : Nat) (c : Connection) (names : List String) : Bool :=
  c.hold.isNone && (w.files.get? (Companion.lock.names names)).isSome &&
    !(w.others number c).any fun d => d.hold.isSome && c.isBeside d

/-- The fault of reading through a connection, if there is one. -/
def seal? (w : Workspace) (number : Nat) (c : Connection) : Option StoreFault :=
  if c.frozen.isSome then none
  else if (w.others number c).any c.isShutOutBy then some .locked
  else match c.site with
    | .file names =>
      if c.isDotted && w.isLockedBeside number c names then some .locked
      else if c.isLogging then w.unentered? c names
      else if (w.others number c).any fun d => c.isBeside d && d.hold.isSome then none
      else w.unlogged? c names
    | _ => none

/-- Whether a connection cannot write to a file because of what is beside it. -/
def isObstructed (w : Workspace) (c : Connection) (names : List String) : Bool :=
  if c.isLogging then !c.isAlone && w.hasDirectory names .index else w.isUnjournaled names

/-- Whether a connection only reads its store. -/
def onlyReads (w : Workspace) (c : Connection) : Bool :=
  c.readOnly || c.frozen.isSome || match c.site with
    | .file names => w.isObstructed c names
    | _           => false

/-- What keeps a connection from using its store. -/
def barrier? (w : Workspace) (number : Nat) (c : Connection) : Option Barrier :=
  match w.seal? number c with
  | some fault => some (.seal fault)
  | none =>
    if w.onlyReads c then some .readOnly
    else if (w.others number c).any c.isHeldBackBy then some .lock
    else none

/-- The store as a connection sees it. A connection that does not know of the table misses it rather
than the store it is in. -/
def store (w : Workspace) (number : Nat) : Store :=
  match w.connection? number with
  | none   => {}
  | some c =>
    let barrier := match w.barrier? number c with
      | some (.seal fault) => some (.seal (if c.isAware then fault else .noTable))
      | barrier            => barrier
    { table := c.frozen.getD (w.volumeAt c.site).table, barrier }

/-- A connection begins to use the log of its store, if the store keeps one. -/
def enter (w : Workspace) (number : Nat) : Workspace :=
  match w.connection? number with
  | none   => w
  | some c =>
    match c.site with
    | .file names =>
      if !(w.volumeAt c.site).keepsLog || !c.isLogging || (w.unentered? c names).isSome then w
      else
        let w := if c.hasLog || !w.hasOpenJournal names then w else w.sweep names .journal
        let w := if w.isLogged names then w else w.putLog names c.isAlone
        w.modifyShared number ({ · with hasLog := true })
    | _ => w

/-- A connection looks at its store, if it can, and learns whether there is a table. -/
def look (w : Workspace) (number : Nat) : Workspace :=
  match w.connection? number with
  | none   => w
  | some c =>
    let isAware := (w.volumeAt c.site).table.isSome
    let w := w.enter number
    if ((w.connection? number).bind (w.seal? number)).isSome then w
    else w.modifyShared number ({ · with isAware })

/-- The workspace with what changed of a connection's store written. -/
def setStore (w : Workspace) (number : Nat) (s : Store) : Workspace :=
  if Volume.isSame s.table (w.store number).table then w
  else match w.connection? number with
    | none   => w
    | some c =>
      let v := w.volumeAt c.site
      let w := w.setVolumeAt c.site (v.write s.table)
      match c.site with
      | .file names =>
        if v.keepsLog then w.putFile (Companion.log.names names) (.plain Companion.logMark)
        else w.sweep names .journal
      | _ => w

/-- Uses the store of a connection. -/
def use {α : Type} (w : Workspace) (number : Nat) (f : Store → α × Store) : α × Workspace :=
  let w := w.look number
  let (a, s) := f (w.store number)
  (a, (w.setStore number s).look number)

/-- Gives the store of a connection its table, if it has none. A connection that does not know of
the table has to be able to write to find it. -/
def migrate (w : Workspace) (number : Nat) : Except StoreFault Unit × Workspace :=
  match w.connection? number with
  | none   => (.ok (), w)
  | some c =>
    match if c.isAware then none else w.barrier? number c with
    | some b => (.error b.fault, w.enter number)
    | none   => w.use number Store.migrate

/-- Writes models through a connection. Where there are none the store is not even looked at. -/
def sync (w : Workspace) (number : Nat) (now : Instant) (models : List Model) :
    Except StoreFault Report × Workspace :=
  if models.isEmpty then (.ok {}, w) else w.use number (·.sync now models)

/-- Writes the models of a session through a connection. -/
def synchronize (w : Workspace) (number : Nat) (session : Session) (now : Instant) :
    Except SessionError Report × Session × Workspace :=
  if session.pending.isEmpty then (.ok {}, {}, w)
  else
    let ((result, session), w) := w.use number fun s =>
      let (result, session, s) := session.synchronize s now
      ((result, session), s)
    (result, session, w)

/-- A connection holds its store from now on, for writing if it can write, if nothing keeps it from
that. -/
def hold (w : Workspace) (number : Nat) : Workspace :=
  match w.connection? number with
  | none   => w
  | some c =>
    let hold := if c.readOnly then Hold.reader else .writer
    let w := w.enter number
    if c.frozen.isSome || w.barrier? number c ∉ [none, some .readOnly] then w
    else
      let w := w.modify number ({ · with hold })
      match c.site with
      | .file names =>
        let lock := Companion.lock.names names
        if c.isDotted then { w with files := (w.files.put? lock .empty).getD w.files } else w
      | _ => w

/-- A connection lets go of what it holds. -/
def release (w : Workspace) (number : Nat) : Workspace :=
  match w.connection? number with
  | none   => w
  | some c =>
    let w := w.modify number ({ · with hold := none })
    match c.site, c.hold with
    | .file names, some _ =>
      match w.files.get? (Companion.lock.names names) with
      | some (.directory []) =>
        if c.isDotted then { w with files := w.files.delete (Companion.lock.names names) } else w
      | _ => w
    | _, _ => w

end Workspace

end Schemata

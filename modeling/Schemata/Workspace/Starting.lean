import Schemata.Workspace.Reaching

/-!
# Schemata — Workspace — Starting

Readying the store of a connection that is about to be opened. What stands beside the file from
before is rolled back or swept away, or keeps the store from being opened. An empty file becomes a
new store; whoever may write and can keep a log makes the store keep one.
-/

namespace Schemata

namespace Workspace

/-- Clears the places of the journal and the log of an empty file. Whoever takes no lock to write
leaves the journal. -/
def clear (names : List String) (c : Connection) : Attempt Unit := do
  let w ← get
  let isLeft := c.isDotted || (c.readOnly && c.isLogging)
  let w := if w.has names .journal && !isLeft then w.sweep names .journal else w
  set w
  if w.hasDirectory names .log then throw .notAFile
  if w.has names .log then set (w.sweep names .log)

/-- Rolls back what an open journal beside a file tells of, which takes that no one else uses the
log of the file. With a lock beside the file the journal is taken for that of who holds the lock. -/
def rollBack (names : List String) (c : Connection) : Attempt Unit := do
  let w ← get
  if c.isDotted then return
  if w.hasDirectory names .journal then throw .notAFile
  if w.hasOpenJournal names then
    if c.readOnly then throw .readOnly
    if c.isLogging && w.isLogged names then throw .locked
    set (w.sweep names .journal)

/-- The fault of a file that is no store. A log beside it is found to hold nothing, and whoever may
write sweeps it away. -/
def reject (names : List String) (c : Connection) : Attempt Unit := do
  let w ← get
  if w.has names .log then
    if !c.isLogging || w.isObstructed c names then throw .notAFile
    if c.readOnly then set (w.putLog names false)
    else
      let w := w.sweep names .log
      set (if c.isAlone then w else w.sweep names .index)
  throw .notAStore

/-- Makes the store in a file keep a log from now on, which leaves no journal. -/
def keepLog (names : List String) (c : Connection) (v : Volume) : Attempt Unit := do
  let w ← get
  if c.readOnly then throw .readOnly
  if w.isUnjournaled names then throw .notAFile
  set ((w.putFile names (.store (v.logged true))).sweep names .journal)

/-- Readies a file. A log that strayed to a store that keeps none takes the place of one: it is
swept away, and the store is left as it is. -/
def startFile (names : List String) (c : Connection) : Content → Attempt Unit
  | .store v => do
    rollBack names c
    if (← get).hasDirectory names .log then throw .notAFile
    let w ← get
    let isStrayed := w.has names .log && !v.keepsLog
    if !c.isLogging then
      if v.keepsLog || isStrayed then throw .notAFile
    else if isStrayed then
      if !c.readOnly then set (w.sweep names .log)
    else if !v.keepsLog then keepLog names c v
  | .plain bytes => do
    if (Content.plain bytes).isForeign then
      rollBack names c
      if (← get).hasDirectory names .log then throw .notAFile
      reject names c
    else
      clear names c
      if c.isLogging then keepLog names c {}

/-- Readies the store of a connection that is about to be opened. -/
def start (c : Connection) : Attempt Unit := do
  let w ← get
  if w.seal? w.opened c = some .locked then throw .locked
  match c.site with
  | .apart _    => return
  | .own        => set { w with own := w.own.logged (c.isLogging && !c.readOnly) }
  | .file names =>
    let some content := w.files.content? names | throw .notAFile
    if c.frozen.isNone then startFile names c content
    else if content.isForeign then throw .notAStore

end Workspace

end Schemata

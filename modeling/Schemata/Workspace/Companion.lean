import Schemata.Workspace.Basic

/-!
# Schemata — Workspace — Companion

The files beside a store's file: its journal, its log, the index of the log, and the directory that
stands for its lock. They are named after the file. While connections to a store that keeps a log
are open, its log and its index stand there. What else stands in one of their places is swept away,
or keeps the store from being opened.
-/

namespace Schemata

/-- What stands beside a store's file. -/
inductive Companion where
  | journal
  | log
  | index
  | lock
deriving DecidableEq, Repr

namespace Companion

/-- What its name adds to that of the file. -/
def ending : Companion → String
  | .journal => "-journal"
  | .log     => "-wal"
  | .index   => "-shm"
  | .lock    => ".lock"

/-- The names that lead to it from those that lead to the file. -/
def names (c : Companion) (names : List String) : List String :=
  names.dropLast ++ [FileName.extend (names.getLastD "") c.ending]

/-- The first bytes of a log that was written to. -/
def logMark : ByteArray := ⟨#[0x37, 0x7F, 0x06, 0x82]⟩

/-- The first bytes of an index. -/
def indexMark : ByteArray := ⟨#[0x18, 0xE2, 0x2D, 0x00]⟩

end Companion

namespace FileTree

variable {α : Type}

/-- Whether a path of names leads to a directory. -/
def hasDirectory (t : FileTree α) (names : List String) : Bool :=
  match t.get? names with
  | some (.directory _) => true
  | _                   => false

/-- The content of the file that a path of names leads to. -/
def content? (t : FileTree α) (names : List String) : Option α :=
  match t.get? names with
  | some (.file content) => some content
  | _                    => none

end FileTree

namespace Workspace

/-- Whether a file has a directory in the place of a companion. -/
def hasDirectory (w : Workspace) (names : List String) (c : Companion) : Bool :=
  w.files.hasDirectory (c.names names)

/-- Whether a file has something in the place of a companion, other than an empty file. -/
def has (w : Workspace) (names : List String) (c : Companion) : Bool :=
  w.hasDirectory names c || ((w.files.content? (c.names names)).map (!·.isEmpty)).getD false

/-- Whether what a file has in the place of a journal is taken for one that was not finished. -/
def hasOpenJournal (w : Workspace) (names : List String) : Bool :=
  ((w.files.content? (Companion.journal.names names)).map (!·.isBlank)).getD false

/-- Whether a file can have no journal. -/
def isUnjournaled (w : Workspace) (names : List String) : Bool :=
  w.hasDirectory names .journal ||
    longestName < FileName.size ((Companion.journal.names names).getLastD "")

/-- Puts a content in a file. -/
def putFile (w : Workspace) (names : List String) (content : Content) : Workspace :=
  { w with files := (w.files.put? names (.file content)).getD w.files }

/-- Takes a file away from the connections to the store in it. They keep what is left of the store,
which is apart from then on; without a log it is not written any more. -/
def detach (w : Workspace) (names : List String) (left : Volume) : Workspace :=
  let (site, w) := w.addApart left
  let moved (c : Connection) : Connection :=
    if c.site = .file names then { c with site, readOnly := c.readOnly || !c.hasLog } else c
  { w with
    connections := w.connections.map fun e => (e.1, moved e.2)
    spares := w.spares.filter (·.1 ≠ names) }

/-- Deletes the file in the place of a companion. -/
def sweep (w : Workspace) (names : List String) (c : Companion) : Workspace :=
  let names := c.names names
  if (w.files.content? names).isNone then w
  else
    let w := w.detach names (w.volumeAt (.file names))
    { w with files := w.files.delete names }

/-- Puts the log and the index of a store beside its file, the index unless a connection has it for
itself. A log that is there already is kept. -/
def putLog (w : Workspace) (names : List String) (alone : Bool) : Workspace :=
  let log := Companion.log.names names
  let index := Companion.index.names names
  let w := if (w.files.get? log).isNone then w.putFile log (.plain .empty) else w
  if alone || w.files.hasDirectory index then w
  else
    (w.detach index (w.volumeAt (.file index)).overwritten).putFile index
      (.plain Companion.indexMark)

end Workspace

end Schemata

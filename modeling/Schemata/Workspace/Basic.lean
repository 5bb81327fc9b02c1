import Schemata.FileTree.Disk
import Schemata.Session
import Schemata.Store.Location
import Schemata.Store.Volume

/-!
# Schemata — Workspace — Basic

A working directory with declaration files and stores, and the connections that are open to the
stores. A store is in a file of the directory, or it is the workspace's own, which is in none of
them, or it is apart: made for a connection and gone with the last that leads to it.
-/

namespace Schemata

/-- The content of a file. -/
inductive Content where
  | plain (bytes : ByteArray)
  | store (volume : Volume)

/-- The way to a store. -/
inductive Address where
  | own
  | path (path : String)
deriving DecidableEq, Repr

/-- Where a store is; those that are apart are numbered. -/
inductive Site where
  | own
  | file (names : List String)
  | apart (number : Nat)
deriving DecidableEq, Repr

/-- What connections know a cache by that they share: the file system, and the place of the store
or, if it is in no file, its path. -/
inductive Cache where
  | ofSite (system : FileSystem) (site : Site)
  | ofPath (system : FileSystem) (path : List UInt8)
deriving DecidableEq, Repr

/-- What a connection keeps others from: a reader from having the store to themselves, a writer from
writing. -/
inductive Hold where
  | reader
  | writer
deriving DecidableEq, Repr

/-- A connection to a store: where the store is and what it is reached through; whether it is
only read; whether locks count for nothing; the table there was when the connection was opened,
if its file is said not to change; the cache that is shared; the name in memory that all who open
it share; what the connection holds; whether it knows of the table; and whether it has begun to
use the log. -/
structure Connection where
  site : Site
  system : FileSystem := .standard
  readOnly : Bool := false
  lockless : Bool := false
  frozen : Option (Option Table) := none
  cache : Option Cache := none
  common : Option (List UInt8) := none
  hold : Option Hold := none
  isAware : Bool := false
  hasLog : Bool := false

/-- The name of a directory that no text names. -/
def unnamed : String := FileName.ofBytes [0xFF]

/-- A directory of files and what is around it, the stores that are in none of its files, the
connections that are open, each under its number, and how many there have been. Of files that were
closed while others had them open a spare handle is left for the next who opens them, for reading or
for writing too. -/
structure Workspace where
  files : FileTree Content := .empty
  around : List (Surrounding Content) := [{ name := unnamed }]
  own : Volume := {}
  apart : List Volume := []
  connections : List (Nat × Connection) := []
  opened : Nat := 0
  spares : List (List String × Bool) := []

namespace Content

/-- The text of a content; a store is not text. -/
def text : Content → Except FileError String
  | .plain bytes =>
    match String.fromUTF8? bytes with
    | some text => .ok text
    | none      => .error .notText
  | .store _ => .error .notText

/-- Whether there is nothing in a content. -/
def isEmpty : Content → Bool
  | .plain bytes => bytes.isEmpty
  | .store _     => false

/-- Whether a content begins with the byte zero, or has no first byte. -/
def isBlank : Content → Bool
  | .plain bytes => bytes[0]?.getD 0 = 0
  | .store _     => false

/-- Whether a content is more than an empty file and yet no store. -/
def isForeign : Content → Bool
  | .plain bytes => 1 < bytes.size
  | .store _     => false

end Content

namespace Connection

/-- Whether a store that keeps a log can be used through a connection. -/
def isLogging (c : Connection) : Bool :=
  c.system ∈ [.standard, .exclusive] && !c.lockless && c.frozen.isNone

/-- Whether a connection has the index of its log for itself. -/
def isAlone (c : Connection) : Bool := c.system = .exclusive && !c.readOnly

/-- Whether the lock of a connection is a directory beside the file. -/
def isDotted (c : Connection) : Bool := c.system = .dotted && !c.lockless

/-- Whether two connections share a cache. -/
def isBeside (c d : Connection) : Bool := c.cache.isSome && c.cache = d.cache

end Connection

namespace Workspace

/-- The files that paths lead to. -/
def disk (w : Workspace) : Disk Content := { files := w.files, around := w.around }

/-- The connection of a number. -/
def connection? (w : Workspace) (number : Nat) : Option Connection := w.connections.lookup number

/-- The workspace with one more connection. -/
def attach (w : Workspace) (c : Connection) : Nat × Workspace :=
  (w.opened, { w with connections := w.connections ++ [(w.opened, c)], opened := w.opened + 1 })

/-- The workspace with a connection changed. -/
def modify (w : Workspace) (number : Nat) (f : Connection → Connection) : Workspace :=
  { w with connections := w.connections.map fun e => if e.1 = number then (e.1, f e.2) else e }

/-- The workspace with a connection and those that share its cache changed. -/
def modifyShared (w : Workspace) (number : Nat) (f : Connection → Connection) : Workspace :=
  match w.connection? number with
  | none   => w
  | some c =>
    { w with connections := w.connections.map fun e =>
        if e.1 = number || c.isBeside e.2 then (e.1, f e.2) else e }

/-- The other connections to the store of a connection. -/
def others (w : Workspace) (number : Nat) (c : Connection) : List Connection :=
  (w.connections.filter fun e => e.1 ≠ number && e.2.site = c.site).map Prod.snd

/-- The volume at a site. -/
def volumeAt (w : Workspace) : Site → Volume
  | .own          => w.own
  | .apart number => (w.apart[number]?).getD {}
  | .file names   =>
    match w.files.get? names with
    | some (.file (.store v)) => v
    | _                       => {}

/-- The workspace with the volume at a site replaced. -/
def setVolumeAt (w : Workspace) (site : Site) (v : Volume) : Workspace :=
  match site with
  | .own          => { w with own := v }
  | .apart number => { w with apart := w.apart.set number v }
  | .file names   => { w with files := (w.files.put? names (.file (.store v))).getD w.files }

/-- The workspace with one more store apart, and the site of it. -/
def addApart (w : Workspace) (v : Volume) : Site × Workspace :=
  (.apart w.apart.length, { w with apart := w.apart ++ [v] })

end Workspace

end Schemata

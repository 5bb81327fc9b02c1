import Schemata.Workspace.Sharing

/-!
# Schemata — Workspace — Reaching

What a path leads to. The directories that it leads through are made first, whatever the path
states. A file that is missing is made, and stays even if the store cannot be opened. A path that
leads out of the working directory stands for the workspace's own store.
-/

namespace Schemata

/-- The greatest number of bytes in the names to a store, with a slash for each. -/
def longestStorePath : Nat := 480

/-- The greatest number of bytes in the path of a store in memory. -/
def longestMemoryPath : Nat := 1016

/-- What is done to a workspace and may fail. What was done before it failed stays done. -/
abbrev Attempt := ExceptT StoreFault (StateM Workspace)

namespace Workspace

/-- Goes into the directory that a piece of a path leads to, and makes it if it is missing. Outside
of the workspace there is nothing to make. -/
def enterDirectory (names : Option (List String)) (piece : String) :
    Attempt (Option (List String)) := do
  if longestName < piece.utf8ByteSize then throw .noDirectory
  match names.bind (Path.move? · piece) with
  | none       => return none
  | some names =>
    let w ← get
    match w.files.get? names with
    | some (.directory _) => pure ()
    | some (.file _)      => throw .noDirectory
    | none                => set { w with files := (w.files.put? names .empty).getD w.files }
    return some names

/-- Makes the directories that a path leads through. -/
def makeDirectories (path : String) : Attempt Unit := do
  let directory := Path.ofPieces (Path.directory path)
  if directory.toList.contains '\x00' ∨ longestPath ≤ directory.utf8ByteSize then
    throw .noDirectory
  let start := if Path.isAbsolute path then none else some []
  let _ ← (Path.moves path).dropLast.foldlM enterDirectory start

/-- The number of bytes in names, with a slash for each. -/
def span (names : List String) : Nat := names.foldr (fun s n => FileName.size s + 1 + n) 0

/-- Where a piece of a path leads to from where the pieces before it lead. Nothing is below a file,
and a name that is too long is in no directory. -/
def move? (w : Workspace) (site : Site) (piece : String) : Option Site :=
  match site with
  | .file names =>
    if piece = "" ∨ piece = Path.current then some site
    else if piece = Path.parent then
      if names.isEmpty then some .own else some (.file names.dropLast)
    else if longestStorePath + 8 ≤ span (names ++ [piece]) then none
    else match w.files.get? names with
      | some (.file _)      => none
      | some (.directory _) =>
        if longestName < FileName.size piece then none else some (.file (names ++ [piece]))
      | none => some (.file (names ++ [piece]))
  | _ => some site

/-- The site of a location that is in a file. -/
def siteOf? (w : Workspace) (l : Location) : Option Site :=
  if l.isAbsolute then some .own
  else match l.names.foldlM w.move? (.file []) with
    | some (.file names) => if longestStorePath < span names then none else some (.file names)
    | site               => site

/-- Whether a path of bytes leads to a file or a directory. -/
def isThere (w : Workspace) (path : List UInt8) : Bool :=
  let path : FilePath := ⟨path⟩
  path.bytes ≠ [] && (path.names.foldlM Place.step (w.disk.start path.isAbsolute)).toBool

/-- The connection to a cache that is shared already, if there is one. -/
def joined? (w : Workspace) (cache : Option Cache) : Option Connection :=
  cache.bind fun cache =>
    (w.connections.map Prod.snd).find? (·.cache = some cache) |>.map ({ · with hold := none })

/-- Joins a cache that is shared already, or makes a connection. -/
def join (cache : Option Cache) (make : Attempt Connection) : Attempt Connection := do
  match (← get).joined? cache with
  | some c => return c
  | none   => make

/-- Makes a store apart. -/
def newApart : Attempt Site := do
  let (site, w) := (← get).addApart {}
  set w
  return site

/-- A connection to a store that is in no file. -/
def openLoose (l : Location) : Attempt Connection :=
  let cache := if l.shared ∧ l.path ≠ [] then some (Cache.ofPath l.system l.path) else none
  join cache do
    return {
      site := ← newApart, system := l.system, readOnly := l.isReading, lockless := true, cache }

/-- A connection to a store in a file in memory. -/
def openInMemory (l : Location) : Attempt Connection := do
  let cache := if l.shared then some (Cache.ofPath l.system l.path) else none
  let common := if l.isCommon then some l.path else none
  if longestMemoryPath < l.path.length then throw .notAFile
  join cache do
    let w ← get
    let known := if common.isNone then none else
      (w.connections.map Prod.snd).find? (·.common = common) |>.map Connection.site
    let site ← match known with
      | some site => pure site
      | none      => newApart
    let table := (w.volumeAt site).table
    return {
      site, system := .memory, readOnly := l.isReading, lockless := l.lockless
      frozen := if l.fixed then some table else none
      cache, common, isAware := table.isSome }

/-- Takes the spare handle of a file, or opens the file and makes it if it is missing. -/
def reachFile (names : List String) (l : Location) : Attempt Unit := do
  let w ← get
  if (names, l.isReading) ∈ w.spares then
    set { w with spares := w.spares.erase (names, l.isReading) }
  else
    if (l.model.map (!w.isThere ·)).getD false then throw .notAFile
    match w.files.get? names with
    | some (.file _)      => return
    | some (.directory _) => throw .notAFile
    | none =>
      if l.access = some .making ∧ w.files.hasDirectory names.dropLast ∧
          FileName.size (names.getLastD "") ≤ longestName then
        set (w.putFile names (.plain .empty))
      else throw .notAFile

/-- A connection to a store in a file, or to the workspace's own store. -/
def openFile (l : Location) : Attempt Connection := do
  let some site := (← get).siteOf? l | throw .notAFile
  let cache := if l.shared then some (Cache.ofSite l.system site) else none
  join cache do
    if let .file names := site then reachFile names l
    let v := (← get).volumeAt site
    return {
      site, system := l.system, readOnly := l.isReading
      lockless := l.lockless || l.system = .lockless
      frozen := if l.fixed then some v.settled else none
      cache, isAware := v.table.isSome }

/-- Whether a location is in a file outside of the working directory. -/
def isOutside (l : Location) : Bool :=
  !l.isLoose && l.system ≠ .memory && ({} : Workspace).siteOf? l = some .own

/-- The connection that a location is opened with. -/
def reach (l : Location) : Attempt Connection :=
  if l.isLoose then openLoose l
  else if l.system = .memory then openInMemory l
  else openFile l

end Workspace

end Schemata

import Schemata.Store.Table

/-!
# Schemata — Store — Basic

A store of models. It has a table once it is migrated. Synchronizing writes every document or none:
a document whose text is the stored one is left alone, any other replaces it under the next
revision. Behind a barrier nothing can be written; what needs no write still succeeds, unless the
barrier is a seal, behind which nothing can be read either.
-/

namespace Schemata

/-- What keeps a store from being written: another writer holds its lock, it is only there to be
read, or it is sealed and not even that. -/
inductive Barrier where
  | lock
  | readOnly
  | seal (fault : StoreFault)
deriving DecidableEq, Repr

namespace Barrier

/-- The fault of a write that meets a barrier. -/
def fault : Barrier → StoreFault
  | .lock       => .locked
  | .readOnly   => .readOnly
  | .seal fault => fault

/-- The fault of a read that meets a barrier, if it meets one. -/
def seal? : Barrier → Option StoreFault
  | .seal fault => some fault
  | _           => none

end Barrier

/-- A store: its table, if it was migrated, and what keeps it from being written, if
anything does. -/
structure Store where
  table : Option Table := none
  barrier : Option Barrier := none
deriving Repr

/-- What synchronizing did, by model name in the order of the call. -/
structure Report where
  created : List String := []
  updated : List String := []
  unchanged : List String := []
deriving DecidableEq, Repr

/-- What became of one document. -/
inductive Change where
  | created
  | updated
  | unchanged
deriving DecidableEq, Repr

namespace Report

/-- The number of documents. -/
def total (r : Report) : Nat := r.created.length + r.updated.length + r.unchanged.length

/-- The report with one more document. -/
def add (r : Report) (name : String) : Change → Report
  | .created   => { r with created := r.created ++ [name] }
  | .updated   => { r with updated := r.updated ++ [name] }
  | .unchanged => { r with unchanged := r.unchanged ++ [name] }

/-- A report as JSON. -/
def toJson (r : Report) : Json :=
  .object [("created", Json.strings r.created), ("updated", Json.strings r.updated),
    ("unchanged", Json.strings r.unchanged)]

end Report

namespace StoredModel

/-- A stored model as JSON. -/
def toJson (m : StoredModel) : Json :=
  .object [("name", .string m.name), ("schema", m.document.toJson),
    ("validation_action", m.action.toJson), ("validation_level", m.level.toJson),
    ("revision", .number (.ofInt64 m.revision)), ("created_at", .string m.createdAt.textZ),
    ("updated_at", .string m.updatedAt.textZ)]

end StoredModel

namespace Table

/-- What becomes of a document, and the table after it. -/
def change (t : Table) (now : String) (m : Model) : Except StoreFault (Change × Table) :=
  match t.get? m.name with
  | none     => .ok (.created, t.put m.name (.first m.document now))
  | some row =>
    match row.document with
    | .other     => .error (.mistyped 0)
    | .text text =>
      if text = m.document.text then .ok (.unchanged, t)
      else .ok (.updated, t.put m.name (row.revise m.document now))

/-- Adds a document to a table and its report. Behind a barrier only a change of nothing
succeeds. -/
def write (barrier : Option Barrier) (now : String) (state : Table × Report) (m : Model) :
    Except StoreFault (Table × Report) := do
  let (change, t) ← state.1.change now m
  -- what is stored already needs no writing
  match barrier with
  | some b => if change ≠ .unchanged then throw b.fault
  | none   => pure ()
  return (t, state.2.add m.name change)

end Table

namespace Store

/-- The fault of reading a store, if there is one. -/
def seal? (s : Store) : Option StoreFault := s.barrier.bind Barrier.seal?

/-- The table of a migrated store. -/
def migratedTable (s : Store) : Except StoreFault Table :=
  match s.seal?, s.table with
  | some fault, _ => .error fault
  | none, some t  => .ok t
  | none, none    => .error .noTable

/-- Gives a store its table, if it has none. -/
def migrate (s : Store) : Except StoreFault Unit × Store :=
  match s.seal?, s.table, s.barrier with
  | some fault, _, _   => (.error fault, s)
  | none, some _, _    => (.ok (), s)
  | none, none, some b => (.error b.fault, s)
  | none, none, none   => (.ok (), { s with table := some .empty })

/-- The model stored under a name. -/
def get? (s : Store) (name : String) : Except StoreFault (Option StoredModel) := do
  match (← s.migratedTable).get? name with
  | some row => (row.read name).map some
  | none     => return none

/-- All stored models, in the order of their names. -/
def list (s : Store) : Except StoreFault (List StoredModel) := do
  (← s.migratedTable).rows.mapM fun e => e.2.read e.1

/-- The table and the report after the given documents. -/
def synced (s : Store) (now : String) (models : List Model) :
    Except StoreFault (Table × Report) := do
  models.foldlM (Table.write s.barrier now) (← s.migratedTable, {})

/-- Writes documents in order, all or none. Where there are none the store need not even have a
table. -/
def sync (s : Store) (now : Instant) (models : List Model) : Except StoreFault Report × Store :=
  if models.isEmpty then (.ok {}, s)
  else match s.synced now.text models with
    | .ok (t, report) => (.ok report, { s with table := some t })
    | .error e        => (.error e, s)

/-- Sets the row of a name as it is, without any check. -/
def putRow (s : Store) (name : String) (r : Row) : Except StoreFault Unit × Store :=
  match s.migratedTable, s.barrier with
  | .error fault, _ => (.error fault, s)
  | .ok _, some b   => (.error b.fault, s)
  | .ok t, none     => (.ok (), { s with table := some (t.put name r) })

end Store

end Schemata

import Schemata.Store.Volume

/-!
# Schemata — Store — Codec

The text of a volume: whether it keeps a log, and its rows in the order of their names, or null if
it was not migrated.
-/

namespace Schemata

open Json (optional record? list?)

namespace Row

/-- The keys of a row, in order. -/
def keys : List String :=
  ["name", "document", "action", "level", "revision", "createdAt", "updatedAt"]

/-- A text, or null for a cell that holds none. -/
def cellJson : Cell → Json
  | .text text => .string text
  | .other     => .null

/-- A number, or null for a revision that is none. -/
def revisionJson : Revision → Json
  | .count n => .number (.ofInt64 n)
  | .inexact => .null

/-- A row under its name as JSON. -/
def toJson (name : String) (r : Row) : Json :=
  .object [("name", .string name), ("document", cellJson r.document), ("action", .string r.action),
    ("level", .string r.level), ("revision", revisionJson r.revision),
    ("createdAt", cellJson r.createdAt), ("updatedAt", cellJson r.updatedAt)]

/-- The revision of a JSON value. -/
def revision? (j : Json) : Option Revision :=
  match j with
  | .number (.integer n _ _) => some (.count (Int64.ofInt n))
  | .null                    => some .inexact
  | _                        => none

/-- Reads a row with its name. -/
def read? : Nat → Json → Option (String × Row)
  | 0, _ => none
  | _ + 1, j => do
    match ← record? true keys j with
    | [name, document, action, level, revision, createdAt, updatedAt] =>
      return (← Json.required Json.string? name, {
        document := ((← optional Json.string? document).map Cell.ofText).getD .other
        action := ← Json.required Json.string? action
        level := ← Json.required Json.string? level
        revision := ← Json.required revision? revision
        createdAt := ((← optional Json.string? createdAt).map Cell.text).getD .other
        updatedAt := ((← optional Json.string? updatedAt).map Cell.text).getD .other })
    | _ => none

end Row

namespace Table

/-- The rows of a table as JSON. -/
def toJson (t : Table) : Json := .array (t.rows.map fun e => e.2.toJson e.1)

/-- The table of rows by name; of two rows of a name the later one counts. -/
def ofList (rows : List (String × Row)) : Table := rows.foldl (fun t e => t.put e.1 e.2) .empty

end Table

namespace Volume

/-- A volume as JSON. -/
def toJson (v : Volume) : Json :=
  .object [("log", .bool v.keepsLog), ("rows", (v.table.map Table.toJson).getD .null)]

/-- The text of a volume. -/
def text (v : Volume) : String := v.toJson.renderPretty ++ "\n"

/-- Reads a volume, with all of it settled. -/
def read? : Nat → Json → Option Volume
  | 0, _ => none
  | room + 1, j => do
    match ← record? true ["log", "rows"] j with
    | [log, some rows] =>
      let table := (← optional (list? Row.read? room) (some rows)).map Table.ofList
      return { table, settled := table, keepsLog := ← Json.required Json.bool? log }
    | _ => none

/-- Reads the text of a volume. -/
def ofText? (text : String) : Option Volume := Json.decode? read? text

end Volume

end Schemata

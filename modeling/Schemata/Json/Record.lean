import Schemata.Json.Parser
import Schemata.Json.Printer
import Schemata.Json.Value

/-!
# Schemata — Json — Record

Reading typed values from a tree. Every reader of a container takes the number of containers that
may still be opened, which starts at `maxDepth` and falls by one a level. A record is an object with
each of its keys at most once, or an array of its fields in order whose end may be missing; a field
is required, optional (absent or null) or has a default.
-/

namespace Schemata

namespace Json

/-- The greatest number of containers open at once in a text that is read. -/
def maxDepth : Nat := 127

/-- Reads a text by a reader of trees. -/
def decode? {α : Type} (read : Nat → Json → Option α) (text : String) : Option α :=
  (parse? text).bind (read maxDepth)

/-- The string of a value. -/
def string? : Json → Option String
  | .string s => some s
  | _         => none

/-- The truth value of a value. -/
def bool? : Json → Option Bool
  | .bool b => some b
  | _       => none

/-- The number of a value. -/
def number? : Json → Option Number
  | .number n => some n
  | _         => none

/-- The count of a value: an integer of 64 bits without sign. -/
def count? : Json → Option UInt64
  | .number n => n.toCount?
  | _         => none

/-- The name of a choice: a string, or an object with the name as its one key and null as value. -/
def name? : Nat → Json → Option String
  | _, .string s                 => some s
  | _ + 1, .object [(s, .null)]  => some s
  | _, _                         => none

/-- A list whose items `read` reads. -/
def list? {α : Type} (read : Nat → Json → Option α) : Nat → Json → Option (List α)
  | room + 1, .array items => items.mapM (read room)
  | _, _                   => none

/-- A free-form value. -/
def value? (room : Nat) (j : Json) : Option Value :=
  if j.depth ≤ room then Value.ofJson? j else none

/-- Defaults by field name. -/
def defaults? (room : Nat) : Json → Option Defaults
  | .object members =>
    if (Json.object members).depth ≤ room then Defaults.ofMembers? members else none
  | _ => none

/-- The value of each key in a record's members, if no key is given twice and, under `strict`, no
other key is given. -/
def slots? (strict : Bool) (keys : List String) (members : List (String × Json)) :
    Option (List (Option Json)) :=
  if (strict → members.all fun m => keys.contains m.1) ∧
      keys.all fun k => (valuesOf members k).length ≤ 1 then
    some (keys.map fun k => (valuesOf members k).head?)
  else none

/-- The value of each field of a record, given as an object or as an array. -/
def record? (strict : Bool) (keys : List String) : Json → Option (List (Option Json))
  | .object members => slots? strict keys members
  | .array items =>
    if items.length ≤ keys.length then
      some (items.map some ++ List.replicate (keys.length - items.length) none)
    else none
  | _ => none

/-- A field that must be given. -/
def required {α : Type} (read : Json → Option α) (slot : Option Json) : Option α := slot.bind read

/-- A field that may be absent or null. -/
def optional {α : Type} (read : Json → Option α) : Option Json → Option (Option α)
  | none       => some none
  | some .null => some none
  | some j     => (read j).map some

/-- A field that may be absent and then has a default. -/
def withDefault {α : Type} (default : α) (read : Json → Option α) : Option Json → Option α
  | none   => some default
  | some j => read j

/-- The member of an optional field: none if it is absent. -/
def member {α : Type} (key : String) (write : α → Json) : Option α → List (String × Json)
  | none   => []
  | some a => [(key, write a)]

/-- The value of a count. -/
def count (n : UInt64) : Json := .number (.ofCount n)

/-- The list of free-form values. -/
def values (vs : List Value) : Json := .array (vs.map Value.json)

/-- The list of strings. -/
def strings (names : List String) : Json := .array (names.map .string)

end Json

end Schemata

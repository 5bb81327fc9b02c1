import Schemata.Kind.Codec

/-!
# Schemata — HostType

The type a field has in the program that declares it. A scalar type is enough to infer a kind; a
list or a structure is not, since it says nothing of what it holds. `HostShape` is the spelled-out
type that a program gives: an optional value has the type of the value.
-/

namespace Schemata

/-- The host-side type of a field. -/
inductive HostType where
  | boolean
  | number
  | string
  | date
  | binary
  | objectId
  | array
  | object
deriving DecidableEq, Repr

namespace HostType

/-- The name of a host-side type. -/
def name : HostType → String
  | .boolean  => "boolean"
  | .number   => "number"
  | .string   => "string"
  | .date     => "date"
  | .binary   => "binary"
  | .objectId => "objectId"
  | .array    => "array"
  | .object   => "object"

/-- The host-side type of the given name. -/
def ofName? : String → Option HostType
  | "boolean"  => some .boolean
  | "number"   => some .number
  | "string"   => some .string
  | "date"     => some .date
  | "binary"   => some .binary
  | "objectId" => some .objectId
  | "array"    => some .array
  | "object"   => some .object
  | _          => none

/-- The kind that a scalar type implies. -/
def infer? : HostType → Option Kind
  | .boolean  => some .boolean
  | .number   => some .anyNumber
  | .string   => some .anyString
  | .date     => some .date
  | .binary   => some .binary
  | .objectId => some .objectId
  | .array    => none
  | .object   => none

/-- Reads a host-side type. -/
def read? (room : Nat) (j : Json) : Option HostType := (Json.name? room j).bind ofName?

/-- A host-side type as JSON. -/
def toJson (t : HostType) : Json := .string t.name

end HostType

/-- A type as a program spells it. -/
inductive HostShape where
  | truth
  | number
  | text
  | date
  | bytes
  | identity
  | tree
  | optional (inner : HostShape)
  | list (item : HostShape)
  | dictionary (key value : HostShape)
deriving DecidableEq, Repr

/-- The host-side type of a spelled-out type. -/
def HostShape.type : HostShape → HostType
  | .truth          => .boolean
  | .number         => .number
  | .text           => .string
  | .date           => .date
  | .bytes          => .binary
  | .identity       => .objectId
  | .tree           => .object
  | .optional inner => inner.type
  | .list _         => .array
  | .dictionary _ _ => .object

end Schemata

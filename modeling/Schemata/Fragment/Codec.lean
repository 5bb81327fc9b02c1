import Schemata.Fragment.Basic

/-!
# Schemata — Fragment — Codec

Fragments as JSON: the keywords in a fixed order, absent ones left out, properties in their own
order. A fragment is read from an object. Each keyword may come once and may be null; keys that are
no keyword are ignored, though their values must be readable. Of a property given twice the later
fragment counts.
-/

namespace Schemata

open Json (member optional list?)

namespace JsonType

/-- The name of a type. -/
def name : JsonType → String
  | .array   => "array"
  | .boolean => "boolean"
  | .number  => "number"
  | .object  => "object"
  | .string  => "string"

/-- The type of the given name. -/
def ofName? : String → Option JsonType
  | "array"   => some .array
  | "boolean" => some .boolean
  | "number"  => some .number
  | "object"  => some .object
  | "string"  => some .string
  | _         => none

/-- Reads a type. -/
def read? (room : Nat) (j : Json) : Option JsonType := (Json.name? room j).bind ofName?

/-- A type as JSON. -/
def toJson (t : JsonType) : Json := .string t.name

end JsonType

namespace BsonKind

/-- The alias of a type. -/
def name : BsonKind → String
  | .array    => "array"
  | .binData  => "binData"
  | .bool     => "bool"
  | .date     => "date"
  | .null     => "null"
  | .number   => "number"
  | .object   => "object"
  | .objectId => "objectId"
  | .string   => "string"

/-- The type of the given alias. -/
def ofName? : String → Option BsonKind
  | "array"    => some .array
  | "binData"  => some .binData
  | "bool"     => some .bool
  | "date"     => some .date
  | "null"     => some .null
  | "number"   => some .number
  | "object"   => some .object
  | "objectId" => some .objectId
  | "string"   => some .string
  | _          => none

/-- Reads a type. -/
def read? (room : Nat) (j : Json) : Option BsonKind := (Json.name? room j).bind ofName?

/-- A type as JSON. -/
def toJson (k : BsonKind) : Json := .string k.name

end BsonKind

namespace BsonType

/-- Reads one type or a list of types. -/
def read? (room : Nat) (j : Json) : Option BsonType :=
  match j with
  | .array _ => (list? BsonKind.read? room j).map .many
  | j        => (BsonKind.read? room j).map .one

/-- One type or a list of types as JSON. -/
def toJson : BsonType → Json
  | .one kind   => kind.toJson
  | .many kinds => .array (kinds.map BsonKind.toJson)

end BsonType

/-- The keywords of a fragment, in the order of its text. -/
def Fragment.keywords : List String :=
  ["type", "bsonType", "items", "properties", "patternProperties", "required",
    "additionalProperties", "enum", "minLength", "maxLength", "pattern", "minimum", "maximum",
    "exclusiveMinimum", "exclusiveMaximum", "multipleOf", "minItems", "maxItems", "uniqueItems",
    "minProperties", "maxProperties"]

mutual
/-- A fragment as JSON. -/
def Fragment.toJson : Fragment → Json
  | ⟨type, bsonType, items, properties, patternProperties, required, additionalProperties, allowed,
      stringLimits, numberLimits, arrayLimits, objectLimits⟩ =>
    .object <|
      member "type" JsonType.toJson type ++
      member "bsonType" BsonType.toJson bsonType ++
      (match items with
        | none   => []
        | some f => [("items", f.toJson)]) ++
      (match properties with
        | none    => []
        | some ps => [("properties", .object (Properties.toMembers ps))]) ++
      (match patternProperties with
        | none    => []
        | some ps => [("patternProperties", .object (Properties.toMembers ps))]) ++
      member "required" Json.strings required ++
      member "additionalProperties" .bool additionalProperties ++
      member "enum" Json.values allowed ++
      stringLimits.members ++ numberLimits.members ++ arrayLimits.members ++ objectLimits.members
/-- Properties as members of an object. -/
def Properties.toMembers : List (String × Fragment) → List (String × Json)
  | []                => []
  | (name, f) :: rest => (name, f.toJson) :: Properties.toMembers rest
end

/-- Properties as JSON. -/
def Properties.toJson (ps : Properties) : Json := .object (Properties.toMembers ps)

mutual
/-- Reads a fragment. -/
def Fragment.read? : Nat → Json → Option Fragment
  | room + 1, .object members =>
    -- any other key may be there too, if its value can be read
    if members.all (fun m => Fragment.keywords.contains m.1 || (m.2.readable && m.2.depth ≤ room)) &&
        Fragment.keywords.all fun k => (Json.valuesOf members k).length ≤ 1 then do
      let slot := fun k => (Json.valuesOf members k).head?
      return {
        type := ← optional (JsonType.read? room) (slot "type")
        bsonType := ← optional (BsonType.read? room) (slot "bsonType")
        items := ← optional (Fragment.read? room) (slot "items")
        properties := ← optional (Properties.read? room) (slot "properties")
        patternProperties := ← optional (Properties.read? room) (slot "patternProperties")
        required := ← optional (list? (fun _ => Json.string?) room) (slot "required")
        additionalProperties := ← optional Json.bool? (slot "additionalProperties")
        allowed := ← optional (list? Json.value? room) (slot "enum")
        -- allowed values are the fragment's own, so none are left to its bounds
        stringLimits := ← StringLimits.ofSlots? room (slot "minLength") (slot "maxLength")
          (slot "pattern") none
        numberLimits := ← NumberLimits.ofSlots? room (slot "minimum") (slot "maximum")
          (slot "exclusiveMinimum") (slot "exclusiveMaximum") (slot "multipleOf") none
        arrayLimits := ← ArrayLimits.ofSlots? (slot "minItems") (slot "maxItems")
          (slot "uniqueItems")
        objectLimits := ← ObjectLimits.ofSlots? (slot "minProperties") (slot "maxProperties") }
    else none
  | _, _ => none
/-- Reads properties. -/
def Properties.read? : Nat → Json → Option Properties
  | room + 1, .object members =>
    (members.mapM fun m => (Fragment.read? room m.2).map (m.1, ·)).map Properties.ofList
  | _, _ => none
end

end Schemata

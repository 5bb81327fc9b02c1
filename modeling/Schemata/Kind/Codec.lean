import Schemata.Kind.Basic

/-!
# Schemata — Kind — Codec

Kinds as JSON. A kind is written as an object that starts with its name under `kind`, then the
settings it has. It is read from such an object with the keys in any order, or from an array of the
name and the settings in order. Every key that the kind does not define is refused, at each level.
Below the top level the name may also be given by its place in `Kind.names`.
-/

namespace Schemata

namespace Kind

open Json (member required optional record? list? value?)

/-- A kind as JSON. -/
def toJson : Kind → Json
  | .string limits => .object (("kind", .string "string") :: limits.members)
  | .number limits => .object (("kind", .string "number") :: limits.members)
  | .boolean  => .object [("kind", .string "boolean")]
  | .date     => .object [("kind", .string "date")]
  | .binary   => .object [("kind", .string "binary")]
  | .objectId => .object [("kind", .string "objectId")]
  | .any      => .object [("kind", .string "any")]
  | .array none limits => .object (("kind", .string "array") :: limits.members)
  | .array (some item) limits =>
    .object (("kind", .string "array") :: ("item", item.toJson) :: limits.members)
  | .object reference limits =>
    .object (("kind", .string "object") :: member "object" .string reference ++ limits.members)
  | .map none pattern limits =>
    .object (("kind", .string "objectGeneric") :: member "pattern" .string pattern ++ limits.members)
  | .map (some value) pattern limits =>
    .object (("kind", .string "objectGeneric") :: ("value", value.toJson) ::
      member "pattern" .string pattern ++ limits.members)
  | .choice values => .object [("kind", .string "enum"), ("values", Json.values values)]

/-- The name a kind is read by; below the top level its place among the names will do. -/
def tag? (nested : Bool) : Json → Option String
  | .string s => some s
  | .number n =>
    if nested then n.toCount?.bind fun place => names[place.toNat]? else none
  | _ => none

/-- The kind's name and the rest of a JSON value, of which the name is one key or the first item. -/
def tagged? (nested : Bool) : Json → Option (String × Json)
  | .object members =>
    match Json.valuesOf members "kind" with
    | [tag] => (tag? nested tag).map (·, .object (members.filter (·.1 ≠ "kind")))
    | _     => none
  | .array (tag :: settings) => (tag? nested tag).map (·, .array settings)
  | _ => none

/-- The kind of the given name with the given settings; `inner` reads the kinds within. -/
def ofSettings? (inner : Json → Option Kind) (room : Nat) (name : String) (settings : Json) :
    Option Kind :=
  match name with
  | "string" => do
    match ← record? true ["minLength", "maxLength", "pattern", "enum"] settings with
    | [least, most, pattern, allowed] =>
      return .string (← StringLimits.ofSlots? room least most pattern allowed)
    | _ => none
  | "number" => do
    match ← record? true ["minimum", "maximum", "exclusiveMinimum", "exclusiveMaximum", "multipleOf",
        "enum"] settings with
    | [minimum, maximum, above, below, multipleOf, allowed] =>
      return .number (← NumberLimits.ofSlots? room minimum maximum above below multipleOf allowed)
    | _ => none
  | "boolean"  => (record? true [] settings).map fun _ => .boolean
  | "date"     => (record? true [] settings).map fun _ => .date
  | "binary"   => (record? true [] settings).map fun _ => .binary
  | "objectId" => (record? true [] settings).map fun _ => .objectId
  | "any"      => (record? true [] settings).map fun _ => .any
  | "array" => do
    match ← record? true ["item", "minItems", "maxItems", "uniqueItems"] settings with
    | [item, least, most, unique] =>
      return .array (← optional inner item) (← ArrayLimits.ofSlots? least most unique)
    | _ => none
  | "object" => do
    match ← record? true ["object", "minProperties", "maxProperties"] settings with
    | [reference, least, most] =>
      return .object (← optional Json.string? reference) (← ObjectLimits.ofSlots? least most)
    | _ => none
  | "objectGeneric" => do
    match ← record? true ["value", "pattern", "minProperties", "maxProperties"] settings with
    | [value, pattern, least, most] =>
      return .map (← optional inner value) (← optional Json.string? pattern)
        (← ObjectLimits.ofSlots? least most)
    | _ => none
  | "enum" => do
    match ← record? true ["values"] settings with
    | [values] => return .choice (← required (list? value? room) values)
    | _ => none
  | _ => none

/-- Reads a kind below the top level. -/
def readNested? : Nat → Json → Option Kind
  | 0, _ => none
  | room + 1, j => (tagged? true j).bind fun (name, settings) =>
    ofSettings? (readNested? room) room name settings

/-- Reads a kind. -/
def read? : Nat → Json → Option Kind
  | 0, _ => none
  | room + 1, j => (tagged? false j).bind fun (name, settings) =>
    ofSettings? (readNested? room) room name settings

end Kind

end Schemata

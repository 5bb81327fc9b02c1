import Schemata.Kind.Limits

/-!
# Schemata — Kind — Basic

The kind of a field: what its declaration says about its values. A scalar kind stands on its own; an
array names the kind of its items, a map the kind of its values, an object the declaration it
embeds. What a compound kind names may be missing until it is resolved.
-/

namespace Schemata

/-- The kind of a field. -/
inductive Kind where
  | string (limits : StringLimits)
  | number (limits : NumberLimits)
  | boolean
  | date
  | binary
  | objectId
  | any
  | array (item : Option Kind) (limits : ArrayLimits)
  | object (reference : Option String) (limits : ObjectLimits)
  | map (value : Option Kind) (pattern : Option String) (limits : ObjectLimits)
  | choice (values : List Value)
deriving Repr, Inhabited

namespace Kind

/-- Any string. -/
def anyString : Kind := .string {}

/-- Any number. -/
def anyNumber : Kind := .number {}

/-- Arrays of a kind. -/
def arrayOf (item : Kind) : Kind := .array (some item) {}

/-- The declaration of the given name, embedded. -/
def embedded (name : String) : Kind := .object (some name) {}

/-- Maps to a kind, their keys free. -/
def mapOf (value : Kind) : Kind := .map (some value) none {}

/-- Maps to a kind, their keys as a pattern says. -/
def mapMatching (value : Kind) (pattern : String) : Kind := .map (some value) (some pattern) {}

/-- The name of a kind in declarations. -/
def name : Kind → String
  | .string _   => "string"
  | .number _   => "number"
  | .boolean    => "boolean"
  | .date       => "date"
  | .binary     => "binary"
  | .objectId   => "objectId"
  | .any        => "any"
  | .array _ _  => "array"
  | .object _ _ => "object"
  | .map _ _ _  => "objectGeneric"
  | .choice _   => "enum"

/-- The names of all kinds. -/
def names : List String :=
  ["string", "number", "boolean", "date", "binary", "objectId", "any", "array", "object",
    "objectGeneric", "enum"]

end Kind

end Schemata

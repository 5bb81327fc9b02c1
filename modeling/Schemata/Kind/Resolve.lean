import Schemata.Declaration.Error
import Schemata.Fragment.Codec

/-!
# Schemata — Kind — Resolve

From a kind to the fragment that validates it. The allowed values of a string or a number move from
its bounds to the fragment, which keeps them for every kind in the same place. An object kind is
replaced by the properties of the declaration it names, so resolving needs a look-up of
declarations; it fails on whatever a compound kind leaves out, and on a name that is missing or
still being declared.
-/

namespace Schemata

/-- What a finished declaration gives to the fields that embed it. -/
structure Shape where
  properties : Properties
  required : List String
deriving Repr

/-- What is known of a name. -/
inductive Lookup where
  | found (shape : Shape)
  /-- The declaration of that name has begun and is not finished. -/
  | pending
  | missing
deriving Repr

/-- The key pattern of maps that declare none. -/
def anyKey : String := ".+"

/-- Allowed values must not be none at all. -/
def checkAllowed : Option (List Value) → Except DeclarationError (Option (List Value))
  | some [] => .error .noChoices
  | allowed => .ok allowed

/-- The fragment of a kind. -/
def Kind.resolve (lookup : String → Lookup) : Kind → Except DeclarationError Fragment
  | .string limits => do
    return { Fragment.typed .string with
      allowed := ← checkAllowed limits.allowed, stringLimits := { limits with allowed := none } }
  | .number limits => do
    return { Fragment.typed .number with
      allowed := ← checkAllowed limits.allowed, numberLimits := { limits with allowed := none } }
  | .boolean  => .ok (.typed .boolean)
  | .date     => .ok (.bson .date)
  | .binary   => .ok (.bson .binData)
  | .objectId => .ok (.bson .objectId)
  | .any      => .ok { bsonType := some (.many BsonKind.all) }
  | .array none _ => .error .missingItem
  | .array (some item) limits => do
    return { Fragment.typed .array with
      items := some (← item.resolve lookup), arrayLimits := limits }
  -- which field it is of is not known here
  | .object none _ => .error (.missingReference "")
  | .object (some name) limits =>
    match lookup name with
    -- what the shape was resolved to is taken over, so objects nest as deep as shapes do
    | .found shape =>
      .ok { Fragment.closedObject shape.properties shape.required with objectLimits := limits }
    | .pending => .error (.cyclicReference name)
    | .missing => .error (.unknownObject name)
  | .map none _ _ => .error .missingValue
  | .map (some value) pattern limits => do
    return { Fragment.typed .object with
      patternProperties := some [(pattern.getD anyKey, ← value.resolve lookup)]
      additionalProperties := some false
      objectLimits := limits }
  | .choice values => do
    return { allowed := ← checkAllowed (some values) }

end Schemata

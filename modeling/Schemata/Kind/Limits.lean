import Schemata.Json.Record

/-!
# Schemata — Kind — Limits

The keywords that bound strings, numbers, arrays and objects. A kind carries them as declared, a
fragment as resolved, and both write them under the same keys in the same order. Strings and numbers
may also be bound to a list of allowed values.
-/

namespace Schemata

/-- Bounds of a string: its length in characters, a pattern and the allowed values. -/
structure StringLimits where
  minLength : Option UInt64 := none
  maxLength : Option UInt64 := none
  pattern : Option String := none
  allowed : Option (List Value) := none
deriving Repr

/-- Bounds of a number, each the number that its literal is read as, and the allowed values. -/
structure NumberLimits where
  minimum : Option Number := none
  maximum : Option Number := none
  exclusiveMinimum : Option Number := none
  exclusiveMaximum : Option Number := none
  multipleOf : Option Number := none
  allowed : Option (List Value) := none
deriving Repr

/-- Bounds of an array: its length, and whether items repeat. -/
structure ArrayLimits where
  minItems : Option UInt64 := none
  maxItems : Option UInt64 := none
  uniqueItems : Option Bool := none
deriving DecidableEq, Repr

/-- Bounds of an object: its number of properties. -/
structure ObjectLimits where
  minProperties : Option UInt64 := none
  maxProperties : Option UInt64 := none
deriving DecidableEq, Repr

open Json (member count optional list? value?)

/-- The members that state the bounds. -/
def StringLimits.members (l : StringLimits) : List (String × Json) :=
  member "minLength" count l.minLength ++ member "maxLength" count l.maxLength ++
    member "pattern" .string l.pattern ++ member "enum" Json.values l.allowed

/-- The members that state the bounds. -/
def NumberLimits.members (l : NumberLimits) : List (String × Json) :=
  member "minimum" .number l.minimum ++ member "maximum" .number l.maximum ++
    member "exclusiveMinimum" .number l.exclusiveMinimum ++
    member "exclusiveMaximum" .number l.exclusiveMaximum ++
    member "multipleOf" .number l.multipleOf ++ member "enum" Json.values l.allowed

/-- The members that state the bounds. -/
def ArrayLimits.members (l : ArrayLimits) : List (String × Json) :=
  member "minItems" count l.minItems ++ member "maxItems" count l.maxItems ++
    member "uniqueItems" .bool l.uniqueItems

/-- The members that state the bounds. -/
def ObjectLimits.members (l : ObjectLimits) : List (String × Json) :=
  member "minProperties" count l.minProperties ++ member "maxProperties" count l.maxProperties

/-- The bounds that the given slots state. -/
def StringLimits.ofSlots? (room : Nat) (minLength maxLength pattern allowed : Option Json) :
    Option StringLimits := do
  return ⟨← optional Json.count? minLength, ← optional Json.count? maxLength,
    ← optional Json.string? pattern, ← optional (list? value? room) allowed⟩

/-- The bounds that the given slots state. -/
def NumberLimits.ofSlots? (room : Nat)
    (minimum maximum exclusiveMinimum exclusiveMaximum multipleOf allowed : Option Json) :
    Option NumberLimits := do
  return ⟨← optional Json.number? minimum, ← optional Json.number? maximum,
    ← optional Json.number? exclusiveMinimum, ← optional Json.number? exclusiveMaximum,
    ← optional Json.number? multipleOf, ← optional (list? value? room) allowed⟩

/-- The bounds that the given slots state. -/
def ArrayLimits.ofSlots? (minItems maxItems uniqueItems : Option Json) : Option ArrayLimits := do
  return ⟨← optional Json.count? minItems, ← optional Json.count? maxItems,
    ← optional Json.bool? uniqueItems⟩

/-- The bounds that the given slots state. -/
def ObjectLimits.ofSlots? (minProperties maxProperties : Option Json) : Option ObjectLimits := do
  return ⟨← optional Json.count? minProperties, ← optional Json.count? maxProperties⟩

end Schemata

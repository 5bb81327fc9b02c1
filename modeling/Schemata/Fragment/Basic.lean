import Schemata.Kind.Limits

/-!
# Schemata — Fragment — Basic

Resolved fragments of a validator: what a field's values must be, in the keywords of JSON Schema
with BSON types. Properties keep the order in which their names first came, and a name inserted
again replaces its fragment in place.
-/

namespace Schemata

/-- A type of JSON Schema. -/
inductive JsonType where
  | array
  | boolean
  | number
  | object
  | string
deriving DecidableEq, Repr

/-- A type of BSON, by its alias. -/
inductive BsonKind where
  | array
  | binData
  | bool
  | date
  | null
  | number
  | object
  | objectId
  | string
deriving DecidableEq, Repr

/-- The BSON types a value may have. -/
inductive BsonType where
  | one (kind : BsonKind)
  | many (kinds : List BsonKind)
deriving DecidableEq, Repr

/-- Every BSON type. -/
def BsonKind.all : List BsonKind :=
  [.array, .binData, .bool, .date, .null, .number, .object, .objectId, .string]

/-- A resolved fragment. -/
structure Fragment where
  type : Option JsonType := none
  bsonType : Option BsonType := none
  items : Option Fragment := none
  properties : Option (List (String × Fragment)) := none
  patternProperties : Option (List (String × Fragment)) := none
  required : Option (List String) := none
  additionalProperties : Option Bool := none
  allowed : Option (List Value) := none
  stringLimits : StringLimits := {}
  numberLimits : NumberLimits := {}
  arrayLimits : ArrayLimits := {}
  objectLimits : ObjectLimits := {}
deriving Repr, Inhabited

/-- Fragments by property name, in the order of the names' first insertion. -/
abbrev Properties := List (String × Fragment)

namespace Properties

/-- Puts a fragment under a name, in place of the one it has. -/
def insert : Properties → String → Fragment → Properties
  | [], name, f => [(name, f)]
  | (k, g) :: rest, name, f =>
    if k = name then (k, f) :: rest else (k, g) :: insert rest name f

/-- The fragment under a name. -/
def get? (ps : Properties) (name : String) : Option Fragment :=
  (ps.find? (·.1 = name)).map Prod.snd

/-- Puts a fragment under a name, and gives back the one whose place it takes. -/
def exchange : Properties → String → Fragment → Option Fragment × Properties
  | [], name, f => (none, [(name, f)])
  | (k, g) :: rest, name, f =>
    if k = name then (some g, (k, f) :: rest) else (exchange rest name f).map id ((k, g) :: ·)

/-- Whether a name is taken. -/
def contains (ps : Properties) (name : String) : Bool := (ps.get? name).isSome

/-- The names, in order. -/
def names (ps : Properties) : List String := ps.map Prod.fst

/-- The properties that a list of pairs inserts, first to last. -/
def ofList (pairs : List (String × Fragment)) : Properties :=
  pairs.foldl (fun ps p => ps.insert p.1 p.2) []

/-- Exchanging a fragment is to look up the name and to insert under it, at once. -/
theorem exchange_eq (ps : Properties) (name : String) (f : Fragment) :
    ps.exchange name f = (ps.get? name, ps.insert name f) := by
  induction ps with
  | nil => rfl
  | cons p rest ih =>
      obtain ⟨k, g⟩ := p
      by_cases hk : k = name
      · simp [exchange, get?, insert, hk]
      · rw [exchange, if_neg hk, ih]
        simp [get?, insert, hk]

end Properties

namespace Fragment

/-- Values of a JSON type. -/
def typed (t : JsonType) : Fragment := { type := some t }

/-- Values of a BSON type. -/
def bson (k : BsonKind) : Fragment := { bsonType := some (.one k) }

/-- Objects with the given properties and no others. -/
def closedObject (properties : Properties) (required : List String) : Fragment :=
  { type := some .object
    properties := some properties
    required := if required.isEmpty then none else some required
    additionalProperties := some false }

/-- Whether a fragment describes structure rather than a single type. -/
def isCompound (f : Fragment) : Bool :=
  f.items.isSome || f.properties.isSome || f.patternProperties.isSome || f.allowed.isSome

end Fragment

end Schemata

import Schemata.Json.Record

/-!
# Schemata — Settings

The settings of a model: the timestamps the store maintains, default values, and how strictly the
store validates. They are read from a record and written with all settings but absent defaults.
-/

namespace Schemata

/-- What the store does with a document that violates the schema. -/
inductive ValidationAction where
  | error
  | warn
deriving DecidableEq, Repr

/-- Which documents the store validates. -/
inductive ValidationLevel where
  | off
  | strict
  | moderate
deriving DecidableEq, Repr

/-- The names of two timestamp fields. -/
structure StampNames where
  created : String
  updated : String
deriving DecidableEq, Repr

/-- The timestamps of a model: off or on, or on under names of their own. -/
inductive Timestamps where
  | enabled (on : Bool)
  | named (names : StampNames)
deriving DecidableEq, Repr

/-- The settings of a model. -/
structure Settings where
  timestamps : Timestamps := .enabled false
  defaults : Option Defaults := none
  action : ValidationAction := .error
  level : ValidationLevel := .strict
deriving Repr

open Json (member withDefault optional record?)

namespace ValidationAction

/-- The name of an action. -/
def name : ValidationAction → String
  | .error => "error"
  | .warn  => "warn"

/-- The action of the given name. -/
def ofName? : String → Option ValidationAction
  | "error" => some .error
  | "warn"  => some .warn
  | _       => none

/-- Reads an action. -/
def read? (room : Nat) (j : Json) : Option ValidationAction := (Json.name? room j).bind ofName?

/-- An action as JSON. -/
def toJson (a : ValidationAction) : Json := .string a.name

end ValidationAction

namespace ValidationLevel

/-- The name of a level. -/
def name : ValidationLevel → String
  | .off      => "off"
  | .strict   => "strict"
  | .moderate => "moderate"

/-- The level of the given name. -/
def ofName? : String → Option ValidationLevel
  | "off"      => some .off
  | "strict"   => some .strict
  | "moderate" => some .moderate
  | _          => none

/-- Reads a level. -/
def read? (room : Nat) (j : Json) : Option ValidationLevel := (Json.name? room j).bind ofName?

/-- A level as JSON. -/
def toJson (l : ValidationLevel) : Json := .string l.name

end ValidationLevel

namespace StampNames

/-- The names of timestamps that are switched on without names. -/
def standard : StampNames := ⟨"createdAt", "updatedAt"⟩

/-- Reads a pair of names, each with its standard name as default. -/
def read? (room : Nat) (j : Json) : Option StampNames :=
  match room with
  | 0 => none
  | _ + 1 => do
    match ← record? true ["createdAt", "updatedAt"] j with
    | [created, updated] =>
      return ⟨← withDefault standard.created Json.string? created,
        ← withDefault standard.updated Json.string? updated⟩
    | _ => none

/-- A pair of names as JSON. -/
def toJson (n : StampNames) : Json :=
  .object [("createdAt", .string n.created), ("updatedAt", .string n.updated)]

end StampNames

namespace Timestamps

/-- The names of the fields to add, none if timestamps are off. -/
def names? : Timestamps → Option StampNames
  | .enabled false => none
  | .enabled true  => some .standard
  | .named names   => some names

/-- Reads timestamps: a truth value or names. -/
def read? (room : Nat) : Json → Option Timestamps
  | .bool on => some (.enabled on)
  | j        => (StampNames.read? room j).map .named

/-- Timestamps as JSON. -/
def toJson : Timestamps → Json
  | .enabled on  => .bool on
  | .named names => names.toJson

end Timestamps

namespace Settings

/-- The keys of settings, in order. -/
def keys : List String := ["timestamps", "defaults", "validationAction", "validationLevel"]

/-- The settings that the given slots state. -/
def ofSlots? (room : Nat) (timestamps defaults action level : Option Json) : Option Settings := do
  return {
    timestamps := ← withDefault (.enabled false) (Timestamps.read? room) timestamps
    defaults := ← optional (Json.defaults? room) defaults
    action := ← withDefault .error (ValidationAction.read? room) action
    level := ← withDefault .strict (ValidationLevel.read? room) level }

/-- Reads settings. -/
def read? : Nat → Json → Option Settings
  | 0, _ => none
  | room + 1, j => do
    match ← record? true keys j with
    | [timestamps, defaults, action, level] => ofSlots? room timestamps defaults action level
    | _ => none

/-- The members that state the settings. -/
def members (s : Settings) : List (String × Json) :=
  ("timestamps", s.timestamps.toJson) :: member "defaults" Defaults.json s.defaults ++
    [("validationAction", s.action.toJson), ("validationLevel", s.level.toJson)]

/-- Settings as JSON. -/
def toJson (s : Settings) : Json := .object s.members

end Settings

end Schemata

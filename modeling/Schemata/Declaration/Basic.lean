import Schemata.HostType
import Schemata.Settings

/-!
# Schemata — Declaration — Basic

Declarations of fields, embedded objects and models, and the file that holds one model with the
objects it needs. They are read strictly: a key that is not defined is refused, so that a misspelt
one cannot pass for an absent setting.
-/

namespace Schemata

/-- What is said of a field beside its name: its kind, which may be left to inference, and whether
it must be present. -/
structure FieldOptions where
  kind : Option Kind := none
  required : Bool := false
deriving Repr

namespace Declaration

/-- A declared field. -/
structure Field where
  name : String
  declared : Option HostType := none
  kind : Option Kind := none
  required : Bool := false
deriving Repr

/-- A declared embedded object. -/
structure Object where
  name : String
  fields : List Field := []
deriving Repr

/-- A declared model. -/
structure Model where
  name : String
  fields : List Field := []
  settings : Settings := {}
deriving Repr

/-- The contents of a declaration file. -/
structure File where
  objects : List Object := []
  model : Option Model := none
deriving Repr

/-- The options of a declared field. -/
def Field.options (f : Field) : FieldOptions := ⟨f.kind, f.required⟩

end Declaration

open Json (member optional withDefault record? list?)

/-- Reads the options of a field. -/
def FieldOptions.read? : Nat → Json → Option FieldOptions
  | 0, _ => none
  | room + 1, j => do
    match ← record? true ["type", "required"] j with
    | [kind, needed] =>
      return ⟨← optional (Kind.read? room) kind, ← withDefault false Json.bool? needed⟩
    | _ => none

/-- The options of a field as JSON. -/
def FieldOptions.toJson (o : FieldOptions) : Json :=
  .object (member "type" Kind.toJson o.kind ++ [("required", .bool o.required)])

namespace Declaration

/-- Reads a declared field. -/
def Field.read? : Nat → Json → Option Field
  | 0, _ => none
  | room + 1, j => do
    match ← record? true ["name", "declared", "type", "required"] j with
    | [name, declared, kind, needed] =>
      return ⟨← Json.required Json.string? name, ← optional (HostType.read? room) declared,
        ← optional (Kind.read? room) kind, ← withDefault false Json.bool? needed⟩
    | _ => none

/-- A declared field as JSON. -/
def Field.toJson (f : Field) : Json :=
  .object (("name", .string f.name) :: member "declared" HostType.toJson f.declared ++
    member "type" Kind.toJson f.kind ++ [("required", .bool f.required)])

/-- The list of declared fields as JSON. -/
def fieldsToJson (fields : List Field) : Json := .array (fields.map Field.toJson)

/-- Reads a declared object. -/
def Object.read? : Nat → Json → Option Object
  | 0, _ => none
  | room + 1, j => do
    match ← record? true ["name", "fields"] j with
    | [name, fields] =>
      return ⟨← Json.required Json.string? name, ← withDefault [] (list? Field.read? room) fields⟩
    | _ => none

/-- A declared object as JSON. -/
def Object.toJson (o : Object) : Json :=
  .object [("name", .string o.name), ("fields", fieldsToJson o.fields)]

/-- Reads a declared model. -/
def Model.read? : Nat → Json → Option Model
  | 0, _ => none
  | room + 1, j => do
    match ← record? true (["name", "fields"] ++ Settings.keys) j with
    | [name, fields, timestamps, defaults, action, level] =>
      return ⟨← Json.required Json.string? name, ← withDefault [] (list? Field.read? room) fields,
        ← Settings.ofSlots? room timestamps defaults action level⟩
    | _ => none

/-- A declared model as JSON. -/
def Model.toJson (m : Model) : Json :=
  .object (("name", .string m.name) :: ("fields", fieldsToJson m.fields) :: m.settings.members)

/-- Reads the contents of a declaration file. -/
def File.read? : Nat → Json → Option File
  | 0, _ => none
  | room + 1, j => do
    match ← record? true ["objects", "model"] j with
    | [objects, model] =>
      return ⟨← withDefault [] (list? Object.read? room) objects,
        ← optional (Model.read? room) model⟩
    | _ => none

end Declaration

end Schemata

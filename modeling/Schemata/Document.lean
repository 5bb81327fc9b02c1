import Schemata.Fields

/-!
# Schemata — Document

The schema document of a model: the closed object its documents must be, with directives for the
store under keys that start with a dollar sign. `compile` puts identity and version first, then the
declared fields, then the timestamps. The validator is the document without the directives, its keys
in ascending order.
-/

namespace Schemata

/-- A schema document. -/
structure Document where
  type : JsonType
  properties : Properties
  required : List String
  additionalProperties : Bool
  action : ValidationAction
  level : ValidationLevel
  defaults : Option Defaults
deriving Repr

/-- A model: a name and its schema document. -/
structure Model where
  name : String
  document : Document
deriving Repr

/-- The field that identifies a document. -/
def idField : String := "_id"

open Json (member optional withDefault record? list?)

namespace Document

/-- Identity and version, then the declared fields. -/
def declaredProperties (fs : Fields) : Properties :=
  let id := (fs.get? idField).map Field.fragment
  let start : Properties := [(idField, id.getD (.bson .objectId)), (versionField, .typed .number)]
  (fs.filter (·.name ≠ idField)).foldl (fun ps f => ps.insert f.name f.fragment) start

/-- Identity unless it is declared optional, then the required fields. -/
def declaredRequired (fs : Fields) : List String :=
  (if ((fs.get? idField).map Field.required).getD true then [idField] else []) ++
    Fields.required (fs.filter (·.name ≠ idField))

/-- Adds a timestamp under a name that is not taken. -/
def addStamp (ps : Properties) (name : String) : Except DeclarationError Properties :=
  if ps.contains name then .error (.reservedField name) else .ok (ps.insert name (.bson .date))

/-- Adds the timestamps. -/
def addStamps (ps : Properties) : Option StampNames → Except DeclarationError Properties
  | none       => .ok ps
  | some names => (addStamp ps names.created).bind (addStamp · names.updated)

/-- The names of the timestamps. -/
def stampNames : Option StampNames → List String
  | none       => []
  | some names => [names.created, names.updated]

/-- Every default must be for a property. -/
def checkDefaults (ps : Properties) (defaults : Option Defaults) : Except DeclarationError Unit :=
  match defaults.bind fun d => d.names.find? (!ps.contains ·) with
  | some name => .error (.undeclaredDefault name)
  | none      => .ok ()

/-- The document of resolved fields under settings. -/
def compile (fs : Fields) (settings : Settings) : Except DeclarationError Document := do
  let stamps := settings.timestamps.names?
  let properties ← addStamps (declaredProperties fs) stamps
  checkDefaults properties settings.defaults
  return {
    type := .object
    properties
    required := declaredRequired fs ++ stampNames stamps
    additionalProperties := false
    action := settings.action
    level := settings.level
    defaults := settings.defaults }

/-- The keys of a document, in order. -/
def keys : List String :=
  ["type", "properties", "required", "additionalProperties", "$validationAction",
    "$validationLevel", "$defaults"]

/-- A document as JSON. -/
def toJson (d : Document) : Json :=
  .object <|
    [("type", d.type.toJson), ("properties", d.properties.toJson),
      ("required", Json.strings d.required), ("additionalProperties", .bool d.additionalProperties),
      ("$validationAction", d.action.toJson), ("$validationLevel", d.level.toJson)] ++
    member "$defaults" Defaults.json d.defaults

/-- The text of a document. -/
def text (d : Document) : String := d.toJson.render

/-- Reads a document; keys it does not define are skipped. -/
def read? : Nat → Json → Option Document
  | 0, _ => none
  | room + 1, j => do
    match ← record? false keys j with
    | [type, properties, needed, additional, action, level, defaults] =>
      return {
        type := ← Json.required (JsonType.read? room) type
        properties := ← Json.required (Properties.read? room) properties
        required := ← Json.required (list? (fun _ => Json.string?) room) needed
        additionalProperties := ← Json.required Json.bool? additional
        action := ← Json.required (ValidationAction.read? room) action
        level := ← Json.required (ValidationLevel.read? room) level
        defaults := ← optional (Json.defaults? room) defaults }
    | _ => none

/-- Reads the text of a document. -/
def ofText? (text : String) : Option Document := Json.decode? read? text

/-- Whether a key is a directive to the store. -/
def isDirective (key : String) : Bool := key.toList.head? = some '$'

/-- The validator: the document without its directives. -/
def validator (d : Document) : Json :=
  match d.toJson with
  | .object members => (Json.object (members.filter fun m => !isDirective m.1)).canonical
  | j               => j

end Document

namespace Model

/-- A model as JSON. -/
def toJson (m : Model) : Json := .object [("name", .string m.name), ("schema", m.document.toJson)]

/-- Reads a model; keys it does not define are skipped. -/
def read? : Nat → Json → Option Model
  | 0, _ => none
  | room + 1, j => do
    match ← record? false ["name", "schema"] j with
    | [name, document] =>
      return ⟨← Json.required Json.string? name, ← Json.required (Document.read? room) document⟩
    | _ => none

end Model

end Schemata

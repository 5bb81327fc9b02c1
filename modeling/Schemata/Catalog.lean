import Schemata.Document

/-!
# Schemata — Catalog

The catalog of finished declarations. One declaration is made at a time: a draft marks its name as
pending in the catalog, gathers fields against that catalog, and is either completed, which records
its shape under its name, or given up, which leaves the catalog as it was.
-/

namespace Schemata

/-- The shapes of finished declarations by name, and the names whose declaration is not finished. -/
structure Catalog where
  entries : List (String × Shape) := []
  pending : List String := []
deriving Repr

namespace Catalog

/-- The shape of a finished declaration. -/
def get? (c : Catalog) (name : String) : Option Shape :=
  (c.entries.find? (·.1 = name)).map Prod.snd

/-- Whether a declaration of that name is finished. -/
def contains (c : Catalog) (name : String) : Bool := (c.get? name).isSome

/-- The number of finished declarations. -/
def size (c : Catalog) : Nat := c.entries.length

/-- What is known of a name. -/
def lookup (c : Catalog) (name : String) : Lookup :=
  if name ∈ c.pending then .pending
  else match c.get? name with
    | some shape => .found shape
    | none       => .missing

end Catalog

/-- A declaration in progress: the catalog with its name pending, the name, and the
fields so far. -/
structure Draft where
  catalog : Catalog
  name : String
  fields : Fields := []
deriving Repr

namespace Draft

/-- The catalog without the draft. -/
def abandon (d : Draft) : Catalog :=
  { d.catalog with pending := d.catalog.pending.erase d.name }

/-- The catalog with the draft's declaration finished. -/
def complete (d : Draft) : Catalog :=
  { entries := d.catalog.entries ++ [(d.name, d.fields.shape)]
    pending := d.catalog.pending.erase d.name }

/-- Adds a field. -/
def attach (d : Draft) (name : String) (declared : Option HostType) (options : FieldOptions) :
    Except DeclarationError Draft :=
  (d.fields.attach d.catalog.lookup name declared options).map fun fields => { d with fields }

/-- Adds declared fields, up to the first that fails. -/
def attachAll (d : Draft) (fields : List Declaration.Field) : Except DeclarationError Draft :=
  fields.foldlM (fun d f => d.attach f.name f.declared f.options) d

/-- Finishes the draft as a model; one that does not compile is given up. -/
def finishModel (d : Draft) (settings : Settings) : Except DeclarationError Model × Catalog :=
  match Document.compile d.fields settings with
  | .ok document => (.ok ⟨d.name, document⟩, d.complete)
  | .error e     => (.error e, d.abandon)

end Draft

namespace Catalog

/-- Begins a declaration under a name that has none. -/
def draft (c : Catalog) (name : String) : Except DeclarationError Draft :=
  if c.contains name ∨ name ∈ c.pending then .error (.duplicateDeclaration name)
  else .ok { catalog := { c with pending := name :: c.pending }, name }

/-- Declares a model. -/
def declareModel (c : Catalog) (m : Declaration.Model) : Except DeclarationError Model × Catalog :=
  match c.draft m.name with
  | .error e => (.error e, c)
  | .ok d =>
    match d.attachAll m.fields with
    | .error e => (.error e, d.abandon)
    | .ok d    => d.finishModel m.settings

/-- Declares an embedded object. -/
def declareObject (c : Catalog) (o : Declaration.Object) : Except DeclarationError Unit × Catalog :=
  match c.draft o.name with
  | .error e => (.error e, c)
  | .ok d =>
    match d.attachAll o.fields with
    | .error e => (.error e, d.abandon)
    | .ok d    => (.ok (), d.complete)

/-- Declares objects in order, up to the first that fails. -/
def declareObjects (c : Catalog) : List Declaration.Object → Except DeclarationError Unit × Catalog
  | []        => (.ok (), c)
  | o :: rest =>
    match c.declareObject o with
    | (.ok (), c)   => c.declareObjects rest
    | (.error e, c) => (.error e, c)

end Catalog

end Schemata

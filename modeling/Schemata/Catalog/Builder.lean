import Schemata.Catalog

/-!
# Schemata — Catalog — Builder

Declarations as a program makes them: read whole, or built call by call. A builder is offered
fields, takes those that attach and is otherwise as it was; it keeps the settings it was given last,
and in the end it is finished or dropped.
-/

namespace Schemata

/-- The draft after it is offered a field: it takes the field, or it is as before. -/
def Draft.offer (d : Draft) (f : Declaration.Field) : Draft :=
  match d.attach f.name f.declared f.options with
  | .ok d'   => d'
  | .error _ => d

/-- A call on the builder of a model: it is offered a field, whose kind may be left to its host-side
type, or it is given settings. -/
inductive Builder.Call where
  | field (f : Declaration.Field)
  | settings (s : Settings)

/-- A model that is being built: its draft, and the settings it was given last. -/
structure Builder where
  draft : Draft
  settings : Settings := {}

namespace Builder

/-- The builder after a call. -/
def next (b : Builder) : Call → Builder
  | .field f    => { b with draft := b.draft.offer f }
  | .settings s => { b with settings := s }

/-- The builder after calls. -/
def run (b : Builder) (calls : List Call) : Builder := calls.foldl next b

/-- Finishes the model. -/
def finish (b : Builder) : Except DeclarationError Model × Catalog :=
  b.draft.finishModel b.settings

end Builder

namespace Catalog

/-- What is done to a catalog: a declaration is made whole, or it is built by calls and then
finished or dropped. -/
inductive Operation where
  | model (m : Declaration.Model)
  | object (o : Declaration.Object)
  | buildModel (name : String) (calls : List Builder.Call) (finished : Bool)
  | buildObject (name : String) (fields : List Declaration.Field) (finished : Bool)

/-- What comes of an operation: a declaration, with its document if it is one of a model; an error;
or neither, if a builder is dropped. -/
inductive Outcome where
  | declared (model : Option Model)
  | failed (e : DeclarationError)
  | dropped

/-- What comes of declaring a model. -/
def Outcome.ofModel : Except DeclarationError Model → Outcome
  | .ok m    => .declared (some m)
  | .error e => .failed e

/-- What comes of declaring an object. -/
def Outcome.ofObject : Except DeclarationError Unit → Outcome
  | .ok ()   => .declared none
  | .error e => .failed e

/-- The name that an operation declares. -/
def Operation.name : Operation → String
  | .model m              => m.name
  | .object o             => o.name
  | .buildModel name _ _  => name
  | .buildObject name _ _ => name

/-- What comes of an operation, and the catalog after it. -/
def perform (c : Catalog) : Operation → Outcome × Catalog
  | .model m  => ((c.declareModel m).map .ofModel id)
  | .object o => ((c.declareObject o).map .ofObject id)
  | .buildModel name calls finished =>
    match c.draft name with
    | .error e => (.failed e, c)
    | .ok draft =>
      let b := Builder.run { draft } calls
      if finished then b.finish.map .ofModel id else (.dropped, b.draft.abandon)
  | .buildObject name fields finished =>
    match c.draft name with
    | .error e => (.failed e, c)
    | .ok draft =>
      let d := fields.foldl Draft.offer draft
      if finished then (.declared none, d.complete) else (.dropped, d.abandon)

/-- The catalog after operations. -/
def run (c : Catalog) (ops : List Operation) : Catalog := ops.foldl (fun c op => (c.perform op).2) c

end Catalog

end Schemata

import Schemata.Declaration.Basic
import Schemata.Kind.Resolve

/-!
# Schemata — Fields

The resolved fields of a declaration in progress, in the order they were declared. Attaching a field
checks its name, finds its kind and resolves it; a field that fails leaves the others as they are.
-/

namespace Schemata

/-- A resolved field. -/
structure Field where
  name : String
  fragment : Fragment
  required : Bool
deriving Repr

/-- The resolved fields of a declaration. -/
abbrev Fields := List Field

/-- The field that counts revisions of a document; no declaration may use it. -/
def versionField : String := "__v"

/-- Whether a kind is that of an object, and names no declaration. -/
def Kind.isUnnamed : Kind → Bool
  | .object none _ => true
  | _              => false

namespace Fields

/-- The field of a name. -/
def get? (fs : Fields) (name : String) : Option Field := fs.find? (·.name = name)

/-- Whether a name is taken. -/
def contains (fs : Fields) (name : String) : Bool := (fs.get? name).isSome

/-- The names, in order. -/
def names (fs : Fields) : List String := fs.map Field.name

/-- The fragments by name, in order. -/
def properties (fs : Fields) : Properties := .ofList (fs.map fun f => (f.name, f.fragment))

/-- The names of required fields, in order. -/
def required (fs : Fields) : List String := (fs.filter Field.required).map Field.name

/-- What the fields give to a declaration that embeds them. -/
def shape (fs : Fields) : Shape := ⟨fs.properties, fs.required⟩

/-- The kind of a field: the given one, or what the declared type implies. -/
def kindOf (name : String) (declared : Option HostType) (options : FieldOptions) :
    Except DeclarationError Kind :=
  match options.kind with
  | some kind => .ok kind
  | none =>
    match declared.bind HostType.infer? with
    | some kind => .ok kind
    | none      => .error (.undeterminedKind name declared)

/-- Adds a field. -/
def attach (lookup : String → Lookup) (fs : Fields) (name : String) (declared : Option HostType)
    (options : FieldOptions) : Except DeclarationError Fields := do
  if name = versionField then throw (.reservedField name)
  if fs.contains name then throw (.duplicateField name)
  let kind ← kindOf name declared options
  -- below items and values it is the resolving that finds this
  if kind.isUnnamed then throw (.missingReference name)
  let fragment ← (kind.resolve lookup).mapError (.inField name)
  return fs ++ [⟨name, fragment, options.required⟩]

/-- An object that names no declaration does not resolve either, and for the same reason. -/
theorem attach_eq (lookup : String → Lookup) (fs : Fields) (name : String)
    (declared : Option HostType) (options : FieldOptions) :
    attach lookup fs name declared options = (do
      if name = versionField then throw (.reservedField name)
      if fs.contains name then throw (.duplicateField name)
      let kind ← kindOf name declared options
      let fragment ← (kind.resolve lookup).mapError (.inField name)
      return fs ++ [⟨name, fragment, options.required⟩]) := by
  have hkind : ∀ kind : Kind, kind.isUnnamed = true →
      (kind.resolve lookup).mapError (.inField name)
        = .error (DeclarationError.missingReference name) := by
    intro kind hunnamed
    unfold Kind.isUnnamed at hunnamed
    split at hunnamed
    · rfl
    · nomatch hunnamed
  unfold attach
  cases kindOf name declared options with
  | error e => rfl
  | ok kind =>
    cases hunnamed : kind.isUnnamed with
    | false => simp [bind, Except.bind, hunnamed]
    | true => simp [bind, Except.bind, hunnamed, hkind kind hunnamed, throw, throwThe,
        MonadExceptOf.throw]

end Fields

end Schemata

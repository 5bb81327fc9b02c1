import Schemata.Proofs.Catalog.Building

/-!
# Schemata — Proofs — Catalog — References

What a declaration needs of the others.  A kind embeds at most one declaration: it is that of an
object, or of the items of an array or the values of a map, however deep (`Kind.reference?`).  The
kind resolves to the same fragment wherever this one name is looked up to the same
(`Kind.resolve_congr`), and it does not resolve unless the name is found
(`Kind.exists_shape_of_resolve`).  Fields are attached one after another, so the same holds of all
the names that a declaration refers to (`Fields.attachAll_congr`,
`Fields.exists_shape_of_attachAll`).

A declaration therefore has an outcome on every catalog that depends on nothing else there
(`Declaration.Item.Gives`), beside whether its own name is free (`Catalog.declare_eq_ok_iff`).
-/

namespace Schemata

/-! ### Kinds -/

namespace Kind

/-- The declaration that a kind embeds, as itself or within its items or values. -/
def reference? : Kind → Option String
  | .object reference _   => reference
  | .array (some item) _  => item.reference?
  | .map (some value) _ _ => value.reference?
  | _                     => none

variable {lookup lookup' : String → Lookup}

/-- What a kind resolves to depends on nothing but the declaration that it embeds. -/
theorem resolve_congr : ∀ {kind : Kind},
    (∀ name, kind.reference? = some name → lookup' name = lookup name) →
      kind.resolve lookup' = kind.resolve lookup
  | .string _, _ | .number _, _ | .choice _, _ => rfl
  | .boolean, _ | .date, _ | .binary, _ | .objectId, _ | .any, _ => rfl
  | .array none _, _ | .object none _, _ | .map none _ _, _ => rfl
  | .array (some item) _, h => by
      have hitem : item.resolve lookup' = item.resolve lookup := resolve_congr h
      rw [resolve, resolve, hitem]
  | .map (some value) _ _, h => by
      have hvalue : value.resolve lookup' = value.resolve lookup := resolve_congr h
      rw [resolve, resolve, hvalue]
  | .object (some name) _, h => by rw [resolve, resolve, h name rfl]

/-- A kind that resolves embeds a declaration that is finished. -/
theorem exists_shape_of_resolve {name : String} {kind : Kind} {f : Fragment}
    (h : kind.resolve lookup = .ok f) (href : kind.reference? = some name) :
    ∃ shape, lookup name = .found shape := by
  rw [resolve_eq_ok_iff] at h
  induction h with
  | string | number | boolean | date | binary | objectId | any | choice => nomatch href
  | array _ _ ih | map _ _ _ ih => exact ih href
  | object _ hshape =>
      obtain rfl := Option.some.inj href
      exact ⟨_, hshape⟩

end Kind

/-- A kind that is told from a host-side type embeds nothing. -/
theorem HostType.reference?_of_infer? {t : HostType} {kind : Kind} (h : t.infer? = some kind) :
    kind.reference? = none := by
  cases t <;> cases h <;> rfl

/-! ### Fields -/

namespace Declaration

/-- The declaration that a declared field embeds. -/
def Field.reference? (f : Field) : Option String := f.kind.bind Kind.reference?

end Declaration

namespace Fields

variable {lookup lookup' : String → Lookup} {f : Declaration.Field} {fs fs' : Fields}

/-- The kind of a declared field embeds what the field says. -/
theorem reference?_of_kindOf {kind : Kind}
    (h : kindOf f.name f.declared f.options = .ok kind) : kind.reference? = f.reference? := by
  unfold kindOf at h
  cases hkind : f.kind with
  | some given =>
      simp only [Declaration.Field.options, hkind] at h
      obtain rfl := Except.ok.inj h
      rw [Declaration.Field.reference?, hkind, Option.bind_some]
  | none =>
      simp only [Declaration.Field.options, hkind] at h
      rw [Declaration.Field.reference?, hkind, Option.bind_none]
      split at h
      · next inferred hinferred =>
          obtain rfl := Except.ok.inj h
          obtain ⟨t, -, ht⟩ := Option.bind_eq_some_iff.mp hinferred
          exact HostType.reference?_of_infer? ht
      · nomatch h

theorem attach_congr (h : ∀ name, f.reference? = some name → lookup' name = lookup name) :
    fs.attach lookup' f.name f.declared f.options
      = fs.attach lookup f.name f.declared f.options := by
  rw [attach_eq, attach_eq]
  cases hkind : kindOf f.name f.declared f.options with
  | error e => rfl
  | ok kind =>
      have hresolve : kind.resolve lookup' = kind.resolve lookup :=
        Kind.resolve_congr (reference?_of_kindOf hkind ▸ h)
      simp only [bind, Except.bind, hresolve]

theorem exists_shape_of_attach {name : String}
    (h : fs.attach lookup f.name f.declared f.options = .ok fs')
    (href : f.reference? = some name) : ∃ shape, lookup name = .found shape := by
  obtain ⟨-, -, kind, fragment, hkind, hresolve, -⟩ := attach_cases h
  exact Kind.exists_shape_of_resolve hresolve (reference?_of_kindOf hkind ▸ href)

/-- Declared fields attached one after another to fields that are there. -/
def attachAll (lookup : String → Lookup) (fs : Fields) (fields : List Declaration.Field) :
    Except DeclarationError Fields :=
  fields.foldlM (fun fs f => fs.attach lookup f.name f.declared f.options) fs

variable {fields : List Declaration.Field}

/-- Fields are attached if the first is, and then the others. -/
theorem attachAll_cons_eq_ok_iff : fs.attachAll lookup (f :: fields) = .ok fs' ↔
    ∃ mid, fs.attach lookup f.name f.declared f.options = .ok mid ∧
      mid.attachAll lookup fields = .ok fs' := by
  rw [attachAll, List.foldlM_cons]
  exact bind_eq_ok

theorem attachAll_congr
    (h : ∀ f ∈ fields, ∀ name, f.reference? = some name → lookup' name = lookup name) :
    fs.attachAll lookup' fields = fs.attachAll lookup fields := by
  unfold attachAll
  induction fields generalizing fs with
  | nil => rfl
  | cons f rest ih =>
      obtain ⟨hf, hrest⟩ := List.forall_mem_cons.mp h
      rw [List.foldlM_cons, List.foldlM_cons, attach_congr hf]
      refine congrArg _ (funext fun mid => ?_)
      exact ih hrest

theorem exists_shape_of_attachAll {name : String} (h : fs.attachAll lookup fields = .ok fs')
    (hf : f ∈ fields) (href : f.reference? = some name) :
    ∃ shape, lookup name = .found shape := by
  induction fields generalizing fs with
  | nil => nomatch hf
  | cons g rest ih =>
      obtain ⟨mid, hmid, h⟩ := attachAll_cons_eq_ok_iff.mp h
      rcases List.mem_cons.mp hf with rfl | hf
      · exact exists_shape_of_attach hmid href
      · exact ih h hf

end Fields

/-! ### Drafts -/

namespace Catalog

/-- What a declaration of the given name finds under other names, its own being pending. -/
def lookupWithin (c : Catalog) (name : String) : String → Lookup :=
  { c with pending := name :: c.pending }.lookup

/-- The catalog with one more entry. -/
def record (c : Catalog) (name : String) (shape : Shape) : Catalog :=
  { c with entries := c.entries ++ [(name, shape)] }

/-- The draft of a declaration of the given name that has such fields so far. -/
def draftWith (c : Catalog) (name : String) (fs : Fields) : Draft :=
  ⟨{ c with pending := name :: c.pending }, name, fs⟩

variable {c : Catalog} {name : String}

@[simp] theorem name_draftWith (fs : Fields) : (c.draftWith name fs).name = name := rfl

@[simp] theorem fields_draftWith (fs : Fields) : (c.draftWith name fs).fields = fs := rfl

@[simp] theorem abandon_draftWith (fs : Fields) : (c.draftWith name fs).abandon = c :=
  Draft.BegunOn.abandon rfl

@[simp] theorem complete_draftWith (fs : Fields) :
    (c.draftWith name fs).complete = c.record name fs.shape :=
  Draft.BegunOn.complete rfl

theorem attachAll_draftWith (fs : Fields) (fields : List Declaration.Field) :
    (c.draftWith name fs).attachAll fields
      = (fs.attachAll (c.lookupWithin name) fields).map (c.draftWith name) := by
  unfold Draft.attachAll Fields.attachAll
  induction fields generalizing fs with
  | nil => rfl
  | cons f rest ih =>
      rw [List.foldlM_cons, List.foldlM_cons, Draft.attach]
      change ((fs.attach (c.lookupWithin name) _ _ _).map _ >>= _) = _
      cases fs.attach (c.lookupWithin name) f.name f.declared f.options with
      | error e => rfl
      | ok mid => exact ih mid

theorem draft_of_free (h : ¬ (c.contains name = true ∨ name ∈ c.pending)) :
    c.draft name = .ok (c.draftWith name []) :=
  if_neg h

end Catalog

/-! ### Declarations -/

namespace Declaration

/-- A declaration of a model or of an object. -/
inductive Item where
  | model (m : Model)
  | object (o : Object)

namespace Item

/-- The name that is declared. -/
def name : Item → String
  | .model m  => m.name
  | .object o => o.name

/-- The declared fields. -/
def fields : Item → List Field
  | .model m  => m.fields
  | .object o => o.fields

/-- The names of the declarations that the fields embed, at any depth of their kinds. -/
def references (d : Item) : List String := d.fields.filterMap Field.reference?

/-- What becomes of the resolved fields: the model, if it is one that is declared. -/
def finish : Item → Fields → Except DeclarationError (Option Schemata.Model)
  | .model m, fs  => (Document.compile fs m.settings).map fun d => some ⟨m.name, d⟩
  | .object _, _ => .ok none

theorem mem_references {d : Item} {name : String} :
    name ∈ d.references ↔ ∃ f ∈ d.fields, f.reference? = some name :=
  List.mem_filterMap

end Item

end Declaration

open Declaration (Item)

namespace Catalog

/-- Makes a declaration: the model, if it is one of a model, and the catalog after it. -/
def declare (c : Catalog) : Item → Except DeclarationError (Option Model) × Catalog
  | .model m  => (c.declareModel m).map (·.map some) id
  | .object o => (c.declareObject o).map (·.map fun _ => none) id

end Catalog

/-- What the fields of a declaration resolve to on a catalog, and the model that it gives. -/
structure Declaration.Item.Gives (d : Item) (c : Catalog) (fs : Fields)
    (model : Option Schemata.Model) : Prop where
  fields : Fields.attachAll (c.lookupWithin d.name) [] d.fields = .ok fs
  model : d.finish fs = .ok model

namespace Catalog

variable {c c' : Catalog} {d : Item} {fs : Fields} {model : Option Model} {name : String}

theorem lookupWithin_eq_found {own : String} {shape : Shape} :
    c.lookupWithin own name = .found shape ↔
      name ≠ own ∧ name ∉ c.pending ∧ c.get? name = some shape := by
  unfold lookupWithin lookup
  by_cases hpending : name ∈ own :: c.pending
  · rw [if_pos hpending]
    simp only [reduceCtorEq, false_iff]
    rintro ⟨hown, hnot, -⟩
    exact (List.mem_cons.mp hpending).elim hown hnot
  · rw [if_neg hpending]
    obtain ⟨hown, hnot⟩ := not_or.mp (mt List.mem_cons.mpr hpending)
    have hget : { c with pending := own :: c.pending }.get? name = c.get? name := rfl
    rw [hget]
    cases c.get? name with
    | none => simp
    | some s => simp [hown, hnot]

end Catalog

namespace Declaration.Item.Gives

variable {c c' : Catalog} {d : Item} {fs : Fields} {model : Option Schemata.Model} {name : String}

/-- Only what a declaration refers to matters. -/
theorem congr (h : d.Gives c fs model) (hpending : c'.pending = c.pending)
    (href : ∀ name ∈ d.references, c'.get? name = c.get? name) : d.Gives c' fs model := by
  refine ⟨?_, h.model⟩
  rw [← h.fields]
  refine Fields.attachAll_congr fun f hf name hname => ?_
  have hget := href name (mem_references.mpr ⟨f, hf, hname⟩)
  unfold Catalog.lookupWithin Catalog.lookup
  rw [hpending]
  simp only [Catalog.get?] at hget ⊢
  rw [hget]

/-- Whatever a declaration refers to has an entry and is another. -/
theorem exists_shape (h : d.Gives c fs model) (hname : name ∈ d.references) :
    name ≠ d.name ∧ ∃ shape, c.get? name = some shape := by
  obtain ⟨f, hf, href⟩ := mem_references.mp hname
  obtain ⟨shape, hshape⟩ := Fields.exists_shape_of_attachAll h.fields hf href
  obtain ⟨hown, -, hget⟩ := Catalog.lookupWithin_eq_found.mp hshape
  exact ⟨hown, shape, hget⟩

end Declaration.Item.Gives

namespace Catalog

variable {c c' : Catalog} {d : Item} {model : Option Model}

theorem declare_of_contains (h : c.contains d.name = true ∨ d.name ∈ c.pending) :
    c.declare d = (.error (.duplicateDeclaration d.name), c) := by
  cases d with
  | model m =>
      have hdraft : c.draft m.name = .error (.duplicateDeclaration m.name) := if_pos h
      simp only [declare, declareModel, hdraft]
      rfl
  | object o =>
      have hdraft : c.draft o.name = .error (.duplicateDeclaration o.name) := if_pos h
      simp only [declare, declareObject, hdraft]
      rfl

/-- A declaration under a free name: its fields are resolved, finished and recorded, or the catalog
is as before. -/
theorem declare_of_free (h : ¬ (c.contains d.name = true ∨ d.name ∈ c.pending)) :
    c.declare d =
      match Fields.attachAll (c.lookupWithin d.name) [] d.fields with
      | .error e => (.error e, c)
      | .ok fs   =>
        match d.finish fs with
        | .error e  => (.error e, c)
        | .ok model => (.ok model, c.record d.name fs.shape) := by
  cases d with
  | model m =>
      have hdraft : c.draft m.name = .ok (c.draftWith m.name []) := draft_of_free h
      simp only [declare, declareModel, hdraft, attachAll_draftWith, Item.name, Item.fields,
        Item.finish]
      cases Fields.attachAll (c.lookupWithin m.name) [] m.fields with
      | error e => exact Prod.ext rfl (abandon_draftWith [])
      | ok fs =>
          simp only [Except.map, Draft.finishModel, abandon_draftWith, complete_draftWith,
            fields_draftWith, name_draftWith]
          cases Document.compile fs m.settings with
          | error e => rfl
          | ok document => rfl
  | object o =>
      have hdraft : c.draft o.name = .ok (c.draftWith o.name []) := draft_of_free h
      simp only [declare, declareObject, hdraft, attachAll_draftWith, Item.name, Item.fields,
        Item.finish]
      cases Fields.attachAll (c.lookupWithin o.name) [] o.fields with
      | error e => exact Prod.ext rfl (abandon_draftWith [])
      | ok fs => exact Prod.ext rfl (complete_draftWith fs)

/-- **When a declaration is made, and what comes of it**: its name is free, and its fields resolve
and finish as they do on the catalog. -/
theorem declare_eq_ok_iff :
    c.declare d = (.ok model, c') ↔ (c.contains d.name = false ∧ d.name ∉ c.pending) ∧
      ∃ fs, d.Gives c fs model ∧ c' = c.record d.name fs.shape := by
  by_cases hname : c.contains d.name = true ∨ d.name ∈ c.pending
  · rw [declare_of_contains hname]
    refine iff_of_false nofun fun ⟨hfree, _⟩ => ?_
    exact hname.elim (fun h => by simp [hfree.1] at h) hfree.2
  · rw [declare_of_free hname]
    obtain ⟨hnot, hpending⟩ := not_or.mp hname
    have hfree : c.contains d.name = false ∧ d.name ∉ c.pending :=
      ⟨Bool.eq_false_iff.mpr hnot, hpending⟩
    constructor
    · intro h
      refine ⟨hfree, ?_⟩
      split at h
      · nomatch h
      · next fs hfields =>
          split at h
          · nomatch h
          · next hmodel =>
              obtain ⟨hok, rfl⟩ := Prod.mk.inj h
              obtain rfl := Except.ok.inj hok
              exact ⟨fs, ⟨hfields, hmodel⟩, rfl⟩
    · rintro ⟨-, fs, hgives, rfl⟩
      rw [hgives.fields]
      dsimp only
      rw [hgives.model]

end Catalog

end Schemata

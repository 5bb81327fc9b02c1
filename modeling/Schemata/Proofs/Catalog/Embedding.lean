import Schemata.Proofs.Catalog.Ordering
import Schemata.Proofs.Document.Forms

/-!
# Schemata — Proofs — Catalog — Embedding

A model beside what others embed of it.  Its document and its shape come from the same fields.  The
document has more: identity and version before them, the timestamps behind them
(`Declaration.Model.added`).  None of these is a field, so the document holds each field's very
fragment under its name (`Document.get?_compile`), and the shape has the fields alone, in the order
of their declaration (`Fields.attachAll_order`).  The shape stays under the model's name whatever is
declared later (`Catalog.get?_run_of_get?`).

* `Catalog.embedded_agrees`: what a field that embeds a model resolves to.
-/

namespace Schemata

/-! ### Properties by name -/

namespace Properties

variable {α : Type} {name : α → String} {fragment : α → Fragment} {as : List α}

theorem get?_foldl_insert_of_notMem {other : String} (h : other ∉ as.map name) (ps : Properties) :
    (as.foldl (fun ps a => insert ps (name a) (fragment a)) ps).get? other = ps.get? other := by
  have hnone : as.reverse.find? (name · = other) = none := by simpa using h
  rw [get?_foldl_insert, hnone]
  rfl

/-- Where names come once each, what is inserted under a name is found there. -/
theorem get?_foldl_insert_of_mem (hnames : (as.map name).Nodup) {a : α} (ha : a ∈ as)
    (ps : Properties) :
    (as.foldl (fun ps a => insert ps (name a) (fragment a)) ps).get? (name a)
      = some (fragment a) := by
  rw [get?_foldl_insert, find?_reverse_of_nodup hnames ha]
  rfl

end Properties

/-! ### Fields in their order -/

namespace Fields

variable {lookup : String → Lookup} {fs fs' : Fields} {fields : List Declaration.Field}

/-- What is kept as one field after another is attached, is kept when they all are. -/
theorem attachAll_induction {P : Fields → Prop}
    (hattach : ∀ {fs fs'} {f : Declaration.Field}, P fs →
      fs.attach lookup f.name f.declared f.options = .ok fs' → P fs')
    (hfs : P fs) (h : fs.attachAll lookup fields = .ok fs') : P fs' := by
  induction fields generalizing fs with
  | nil => exact Except.ok.inj h ▸ hfs
  | cons f rest ih =>
      obtain ⟨mid, hmid, h⟩ := attachAll_cons_eq_ok_iff.mp h
      exact ih (hattach hfs hmid) h

/-- Attached fields have the names of those declared, in their order, and are required where those
are. -/
theorem attachAll_order (h : fs.attachAll lookup fields = .ok fs') :
    fs'.map (fun f => (f.name, f.required))
      = fs.map (fun f => (f.name, f.required)) ++ fields.map fun f => (f.name, f.required) := by
  induction fields generalizing fs with
  | nil => simp [Except.ok.inj h]
  | cons f rest ih =>
      obtain ⟨mid, hmid, h⟩ := attachAll_cons_eq_ok_iff.mp h
      obtain ⟨-, -, kind, fragment, -, -, rfl⟩ := attach_cases hmid
      rw [ih h]
      simp [Declaration.Field.options]

theorem names_required_attachAll (h : attachAll lookup [] fields = .ok fs') :
    fs'.names = fields.map (·.name) ∧
      fs'.required = (fields.filter (·.required)).map (·.name) := by
  have horder := attachAll_order h
  rw [List.map_nil, List.nil_append] at horder
  have hnames := congrArg (List.map Prod.fst) horder
  have hrequired := congrArg (fun l => (List.filter Prod.snd l).map Prod.fst) horder
  simp only [List.map_map, List.filter_map] at hnames hrequired
  exact ⟨hnames, hrequired⟩

/-- No attached field counts revisions. -/
theorem versionField_notMem_attachAll (h : fs.attachAll lookup fields = .ok fs')
    (hfs : versionField ∉ fs.names) : versionField ∉ fs'.names := by
  refine attachAll_induction (P := fun fs => versionField ∉ fs.names) ?_ hfs h
  intro fs fs' f hfs hattach
  obtain ⟨hname, -, kind, fragment, -, -, rfl⟩ := attach_cases hattach
  simpa [names] using ⟨by simpa [names] using hfs, Ne.symm hname⟩

theorem formed_attachAll (hlookup : Lookup.Gives Formed lookup) (hfs : fs.Formed)
    (h : fs.attachAll lookup fields = .ok fs') : fs'.Formed :=
  attachAll_induction (fun hfs hattach => hereditary_formed.attach hlookup hfs hattach) hfs h

end Fields

/-! ### Documents -/

namespace Document

variable {fs : Fields} {settings : Settings} {d : Document}

/-- Identity, version and the timestamps come from nowhere else. -/
theorem addStamps_of_compile (h : compile fs settings = .ok d) :
    addStamps (declaredProperties fs) settings.timestamps.names? = .ok d.properties := by
  obtain ⟨ps, hps, h⟩ := bind_eq_ok.mp h
  obtain ⟨-, -, h⟩ := bind_eq_ok.mp h
  obtain rfl := Except.ok.inj h
  exact hps

theorem get?_declaredProperties (h : fs.Formed) {f : Field} (hf : f ∈ fs) :
    (declaredProperties fs).get? f.name = some f.fragment := by
  have hnames : (fs.map Field.name).Nodup := h.names
  rw [declaredProperties]
  by_cases hid : f.name = idField
  · -- identity that is declared keeps its fragment before the others
    have hothers : f.name ∉ (fs.filter (·.name ≠ idField)).map Field.name := by
      simp [hid]
    have hget : fs.get? idField = some f := hid ▸ Fields.get?_of_mem h.names hf
    rw [Properties.get?_foldl_insert_of_notMem hothers, hget, hid]
    rfl
  · have hmem : f ∈ fs.filter (·.name ≠ idField) := List.mem_filter.mpr ⟨hf, by simpa using hid⟩
    exact Properties.get?_foldl_insert_of_mem (hnames.sublist (List.filter_sublist.map _)) hmem _

theorem get?_addStamp {ps ps' : Properties} {name other : String} {f : Fragment}
    (h : addStamp ps name = .ok ps') (hother : ps.get? other = some f) :
    ps'.get? other = some f := by
  obtain ⟨hnew, rfl⟩ := addStamp_eq_ok_iff.mp h
  have hne : name ≠ other := by
    rintro rfl
    simp [Properties.contains, hother] at hnew
  rw [Properties.get?_insert, if_neg hne, hother]

/-- **A document holds the very fragment of each field under its name.** -/
theorem get?_compile (hfs : fs.Formed) (h : compile fs settings = .ok d) {f : Field}
    (hf : f ∈ fs) : d.properties.get? f.name = some f.fragment := by
  have hdeclared := get?_declaredProperties hfs hf
  have hstamps := addStamps_of_compile h
  cases hnames : settings.timestamps.names? with
  | none =>
      rw [hnames] at hstamps
      rw [← Except.ok.inj hstamps, hdeclared]
  | some names =>
      rw [hnames] at hstamps
      obtain ⟨mid, hcreated, hupdated⟩ := bind_eq_ok.mp hstamps
      exact get?_addStamp hupdated (get?_addStamp hcreated hdeclared)

end Document

/-! ### What is embedded of a model -/

/-- The names of the properties that the document of a model has beside those declared: identity,
unless it is declared, version, and the timestamps. -/
def Declaration.Model.added (m : Declaration.Model) : List String :=
  (if idField ∈ m.fields.map (·.name) then [] else [idField]) ++
    versionField :: Document.stampNames m.settings.timestamps.names?

/-- Properties are those of a document that its model declares. -/
structure Declaration.Model.Embeds (m : Declaration.Model) (d : Document) (ps : Properties) :
    Prop where
  /-- They are the declared fields, in the order of their declaration. -/
  names : ps.names = m.fields.map (·.name)
  /-- Each has the very fragment that the document holds. -/
  fragments : ∀ p ∈ ps, d.properties.get? p.1 = some p.2
  /-- The document has nothing else but what it adds itself. -/
  others : ∀ name, name ∈ d.properties.names ↔ name ∈ ps.names ∨ name ∈ m.added
  apart : ∀ name ∈ m.added, name ∉ ps.names

theorem Declaration.Model.embeds_properties {m : Declaration.Model} {fs : Fields} {d : Document}
    (hfs : fs.Formed) (hnames : fs.names = m.fields.map (·.name))
    (hversion : versionField ∉ fs.names) (h : Document.compile fs m.settings = .ok d) :
    m.Embeds d fs.properties := by
  obtain ⟨hformed, hall⟩ := Document.formed_addStamps (Document.formed_declaredProperties hfs)
    (Document.addStamps_of_compile h)
  obtain ⟨-, -, hdisjoint⟩ := List.nodup_append.mp (hall ▸ hformed.names)
  have hsame : fs.properties.names = fs.names := hfs.properties.2
  refine ⟨hsame.trans hnames, fun p hp => ?_, fun name => ?_, fun name hname hmem => ?_⟩
  · rw [Fields.properties_eq hfs.names] at hp
    obtain ⟨f, hf, rfl⟩ := List.mem_map.mp hp
    exact Document.get?_compile hfs h hf
  · rw [hall, List.mem_append, Document.mem_names_iff, hsame, added, ← hnames, List.mem_append,
      List.mem_cons]
    by_cases hid : idField ∈ fs.names
    · rw [if_pos hid]
      grind
    · rw [if_neg hid]
      grind
  · rw [hsame] at hmem
    rw [added, ← hnames, List.mem_append, List.mem_cons] at hname
    rcases hname with hid | rfl | hstamp
    · split at hid
      · nomatch hid
      · next hnot => exact hnot (List.mem_singleton.mp hid ▸ hmem)
    · exact hversion hmem
    · exact hdisjoint name (Document.mem_names_iff.mpr (.inr (.inr hmem))) name hstamp rfl

/-! ### Catalogs -/

/-- The model that a declaration gives has the document of the fields. -/
theorem Declaration.Item.Gives.exists_document {c : Catalog} {decl : Declaration.Model}
    {fs : Fields} {m : Schemata.Model} (h : (Item.model decl).Gives c fs (some m)) :
    ∃ d, Document.compile fs decl.settings = .ok d ∧ m = ⟨decl.name, d⟩ := by
  have hfinish := h.model
  rw [Declaration.Item.finish] at hfinish
  cases hcompile : Document.compile fs decl.settings with
  | error e => rw [hcompile] at hfinish; cases hfinish
  | ok d =>
      rw [hcompile] at hfinish
      exact ⟨d, rfl, (Option.some.inj (Except.ok.inj hfinish)).symm⟩

namespace Catalog

variable {c : Catalog} {name : String} {shape : Shape}

theorem Performed.get?_of_get? {out : Outcome × Catalog} {other : String}
    {fields : List Declaration.Field} {settings : Settings}
    (h : Performed c other fields settings out) (hget : c.get? name = some shape) :
    out.2.get? name = some shape := by
  cases h with
  | refused => exact hget
  | failed => exact hget
  | dropped => exact hget
  | declared hother =>
      have hne : name ≠ other := by
        rintro rfl
        rw [contains, hget] at hother
        cases hother
      exact (get?_append_of_ne c _ hne).trans hget

/-- An entry stays as it is, whatever is done later. -/
theorem get?_run_of_get? (hc : c.pending = []) (hget : c.get? name = some shape)
    (ops : List Operation) : (c.run ops).get? name = some shape := by
  induction ops generalizing c with
  | nil => exact hget
  | cons op rest ih =>
      have hop := performed hc op
      exact ih (hop.pending hc) (hop.get?_of_get? hget)

/-- The declaration of a model that an operation amounts to: one that is made whole, or what a
builder took and chose before it was finished. -/
def Operation.declaration? (c : Catalog) : Operation → Option Declaration.Model
  | .model m => some m
  | .buildModel name calls finished =>
    match finished, c.draft name with
    | true, .ok d => some ⟨name, d.taken (Builder.offered calls), (Builder.chosen? calls).getD {}⟩
    | _, _        => none
  | _ => none

theorem Outcome.eq_of_ofModel {m : Model} {out : Except DeclarationError Model × Catalog}
    (h : (out.map ofModel id).1 = .declared (some m)) : out = (.ok m, (out.map ofModel id).2) := by
  obtain ⟨result, c'⟩ := out
  cases result with
  | error e => nomatch h
  | ok m' =>
      obtain rfl : m' = m := Option.some.inj (declared.inj h)
      rfl

/-- A model that an operation gives is what its declaration gives. -/
theorem exists_declaration_of_perform {op : Operation} {m : Model}
    (h : (c.perform op).1 = .declared (some m)) :
    ∃ decl, op.declaration? c = some decl ∧ c.declareModel decl = (.ok m, (c.perform op).2) := by
  cases op with
  | model decl => exact ⟨decl, rfl, Outcome.eq_of_ofModel h⟩
  | object o =>
      rw [perform] at h
      generalize c.declareObject o = out at h
      obtain ⟨result, c'⟩ := out
      cases result <;> cases h
  | buildModel name calls finished =>
      cases hdraft : c.draft name with
      | error e =>
          simp only [perform, hdraft] at h
          cases h
      | ok d =>
          simp only [perform, hdraft, Builder.run_eq, Builder.finish] at h ⊢
          cases finished with
          | false => cases h
          | true =>
              -- the fields that the builder took attach one after another
              have htaken := d.attachAll_taken (Builder.offered calls)
              refine ⟨⟨name, d.taken (Builder.offered calls), (Builder.chosen? calls).getD {}⟩,
                by simp only [Operation.declaration?, hdraft], ?_⟩
              simp only [declareModel, hdraft, htaken]
              exact Outcome.eq_of_ofModel h
  | buildObject name fields finished =>
      rw [perform] at h
      split at h
      · cases h
      · cases finished <;> cases h

/-- **What a declared model leaves in the catalog.**  Its shape has the properties of its document
that it declares, and the names of the required fields in the order of their declaration. -/
theorem exists_shape_of_declareModel {before : List Operation} {decl : Declaration.Model}
    {m : Model} {c' : Catalog} (h : (run {} before).declareModel decl = (.ok m, c')) :
    m.name = decl.name ∧ c'.pending = [] ∧
    ∃ ps, decl.Embeds m.document ps ∧
      c'.get? decl.name = some ⟨ps, (decl.fields.filter (·.required)).map (·.name)⟩ := by
  have hpending : (run {} before).pending = [] := pending_run before
  obtain ⟨⟨hfree, -⟩, fs, hgives, rfl⟩ :=
    declare_eq_ok_iff.mp (declare_model_eq_ok_iff.mpr ⟨m, h, rfl⟩)
  obtain ⟨d, hcompile, rfl⟩ := hgives.exists_document
  have hlookup : Lookup.Gives Fields.Formed ((run {} before).lookupWithin decl.name) :=
    (Fields.hereditary_formed.run before).lookup _
  have hformed := Fields.formed_attachAll hlookup Fields.hereditary_formed.nil hgives.fields
  obtain ⟨hnames, hrequired⟩ := Fields.names_required_attachAll hgives.fields
  have hversion := Fields.versionField_notMem_attachAll hgives.fields List.not_mem_nil
  have hshape : fs.shape = ⟨fs.properties, (decl.fields.filter (·.required)).map (·.name)⟩ :=
    congrArg (Shape.mk fs.properties) hrequired
  refine ⟨rfl, hpending, fs.properties,
    Declaration.Model.embeds_properties hformed hnames hversion hcompile, ?_⟩
  rw [← hshape]
  exact get?_append_self hfree

/-- **A model and what others embed of it.** -/
theorem embedded_agrees (before after : List Operation) (op : Operation) (m : Model)
    (h : ((run {} before).perform op).1 = .declared (some m)) :
    ∃ decl ps, op.declaration? (run {} before) = some decl ∧ decl.name = m.name ∧
      decl.Embeds m.document ps ∧
      ∀ limits : ObjectLimits,
        let c := run {} (before ++ op :: after)
        let kind : Kind := .object (some m.name) limits
        let required := (decl.fields.filter (·.required)).map (·.name)
        let embedded : Fragment := {
          type := some .object
          properties := some ps
          required := if required = [] then none else some required
          additionalProperties := some false
          objectLimits := limits }
        kind.resolve c.lookup = .ok embedded ∧
          ∀ own d, c.draft own = .ok d → kind.resolve d.catalog.lookup = .ok embedded := by
  obtain ⟨decl, hdecl, hdeclare⟩ := exists_declaration_of_perform h
  obtain ⟨hname, hpending, ps, hembeds, hget⟩ := exists_shape_of_declareModel hdeclare
  refine ⟨decl, ps, hdecl, hname.symm, hembeds, fun limits => ?_⟩
  intro c kind required embedded
  have hc : c = ((run {} before).perform op).2.run after := by
    simp [c, run]
  have hlater : c.get? m.name = some ⟨ps, required⟩ := by
    rw [hc, hname]
    exact get?_run_of_get? hpending hget after
  have hresolve : ∀ pending, m.name ∉ pending →
      kind.resolve { c with pending }.lookup = .ok embedded := by
    intro pending hnot
    have hlookup : { c with pending }.lookup m.name = .found ⟨ps, required⟩ := by
      have hlater : get? { c with pending } m.name = _ := hlater
      rw [lookup, if_neg hnot, hlater]
    simp only [kind, Kind.resolve, hlookup, Fragment.closedObject, List.isEmpty_iff]
    rfl
  have hclear : c.pending = [] := pending_run _
  -- nothing is pending but what is being declared, and that has another name
  refine ⟨hresolve c.pending (hclear ▸ List.not_mem_nil), fun own d hd => ?_⟩
  obtain ⟨hbegun, hown, -⟩ := begunOn_of_draft hd
  rw [hbegun, hclear]
  refine hresolve [d.name] fun hmem => ?_
  rcases draft_cases hclear own with ⟨-, hrefused⟩ | ⟨hfree, -⟩
  · cases hd.symm.trans hrefused
  · rw [← hown, ← List.mem_singleton.mp hmem, contains, hlater] at hfree
    cases hfree

/-- A model with an identity of its own, declared behind a place, and with timestamps. -/
def Operation.visit : Operation :=
  .model {
    name := "Visit"
    fields := [
      { name := "at", kind := some (.embedded "Place"), required := true },
      { name := "_id", kind := some .anyString }]
    settings := { timestamps := .enabled true } }

/-- Visits are embedded with their identity and without version and timestamps, also after people
were declared. -/
theorem embedded_agrees_visit : ∃ (m : Model) (ps : Properties),
    ((run {} [.place]).perform .visit).1 = .declared (some m) ∧
    m.document.properties.names = ["_id", "__v", "at", "createdAt", "updatedAt"] ∧
    ps.names = ["at", "_id"] ∧ (∀ p ∈ ps, m.document.properties.get? p.1 = some p.2) ∧
    (Kind.object (some "Visit") { maxProperties := some 4 }).resolve
        (run {} [.place, .visit, .person]).lookup
      = .ok {
          type := some .object
          properties := some ps
          required := some ["at"]
          additionalProperties := some false
          objectLimits := { maxProperties := some 4 } } := by
  obtain ⟨decl, ps, hdecl, -, hembeds, hresolve⟩ := embedded_agrees [.place] [.person] .visit _ rfl
  obtain rfl := Option.some.inj hdecl
  exact ⟨_, ps, rfl, rfl, hembeds.names, hembeds.fragments, (hresolve _).1⟩

end Catalog

end Schemata

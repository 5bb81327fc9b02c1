import Schemata.Proofs.Catalog.Building

/-!
# Schemata — Proofs — Catalog — Gathering

Where the fields behind a document come from.  Fields are attached one after another, each resolved
against the shapes of a catalog, and these are the shapes of fields that were attached before.  So a
property of fields that attaching keeps, where it holds of the fields behind every shape that can be
looked up, passes from what is embedded to what embeds it (`Fields.Hereditary`): it holds of the
fields behind every entry of a catalog (`Fields.Hereditary.run`) and behind every document
(`Fields.Hereditary.of_compilable`).
-/

namespace Schemata

/-- The shapes that can be looked up are those of fields with a property. -/
def Lookup.Gives (Q : Fields → Prop) (lookup : String → Lookup) : Prop :=
  ∀ name shape, lookup name = .found shape → ∃ fs, Q fs ∧ shape = fs.shape

/-- A property of fields that attaching keeps where it holds of the fields that can be embedded. -/
structure Fields.Hereditary (Q : Fields → Prop) : Prop where
  nil : Q []
  attach : ∀ {lookup : String → Lookup} {fs fs' : Fields} {name : String}
    {declared : Option HostType} {options : FieldOptions}, Lookup.Gives Q lookup → Q fs →
      fs.attach lookup name declared options = .ok fs' → Q fs'

/-- Fields attached one after another, each on a catalog that operations lead to, whatever
declarations are in progress there. -/
inductive Fields.Gathered : Fields → Prop where
  | nil : Gathered []
  | attach (ops : List Catalog.Operation) (pending : List String) {fs fs' : Fields} {name : String}
      {declared : Option HostType} {options : FieldOptions} (h : Gathered fs)
      (hattach : fs.attach { Catalog.run {} ops with pending }.lookup name declared options
        = .ok fs') : Gathered fs'

/-- A document that compiling such fields gives, whatever the settings. -/
def Document.Compilable (d : Document) : Prop :=
  ∃ fs settings, Fields.Gathered fs ∧ compile fs settings = .ok d

/-! ### Catalogs -/

namespace Catalog

/-- Every entry has the shape of fields with a property. -/
def Keeps (Q : Fields → Prop) (c : Catalog) : Prop :=
  ∀ e ∈ c.entries, ∃ fs, Q fs ∧ e.2 = fs.shape

variable {Q : Fields → Prop} {c : Catalog}

/-- Only the entries matter, not which names are pending. -/
theorem Keeps.lookup (h : c.Keeps Q) (pending : List String) :
    Lookup.Gives Q { c with pending }.lookup := by
  intro name shape hfound
  obtain ⟨e, he, rfl⟩ := mem_of_lookup hfound
  exact h e he

end Catalog

/-! ### What passes from fields to fields -/

namespace Fields.Hereditary

variable {Q : Fields → Prop} (hQ : Hereditary Q) {c : Catalog}
include hQ

theorem attachAll {d d' : Draft} {fields : List Declaration.Field} (hc : c.Keeps Q)
    (hd : d.BegunOn c ∧ Q d.fields) (h : d.attachAll fields = .ok d') :
    d'.BegunOn c ∧ Q d'.fields := by
  refine Draft.attachAll_induction (P := fun d => d.BegunOn c ∧ Q d.fields) ?_ hd h
  rintro d d' f ⟨hbegun, hfields⟩ hattach
  refine ⟨(hbegun.attach hattach).1, ?_⟩
  obtain ⟨fs, hfs, rfl⟩ := Draft.attach_cases hattach
  rw [hbegun] at hfs
  exact hQ.attach (hc.lookup _) hfields hfs

/-- What an operation adds to a catalog has the property that all before it have, and so have the
fields behind the document that it gives. -/
theorem performed {name : String} {fields : List Declaration.Field} {settings : Settings}
    {out : Catalog.Outcome × Catalog} (hc : c.Keeps Q)
    (h : Catalog.Performed c name fields settings out) :
    out.2.Keeps Q ∧ ∀ m, out.1 = .declared (some m) →
      ∃ fs settings, Q fs ∧ Document.compile fs settings = .ok m.document := by
  cases h with
  | refused => exact ⟨hc, nofun⟩
  | failed => exact ⟨hc, nofun⟩
  | dropped => exact ⟨hc, nofun⟩
  | @declared d d' model hname hdraft hfields hmodel =>
      obtain ⟨hbegun, -, hempty⟩ := Catalog.begunOn_of_draft hdraft
      have hstart : Q d.fields := hempty ▸ hQ.nil
      obtain ⟨-, hd'⟩ := hQ.attachAll hc ⟨hbegun, hstart⟩ hfields
      refine ⟨fun e he => ?_, fun m hm => ?_⟩
      · rcases List.mem_append.mp he with he | he
        · exact hc e he
        · obtain rfl := List.mem_singleton.mp he
          exact ⟨d'.fields, hd', rfl⟩
      · obtain ⟨-, hcompile⟩ := hmodel m (Catalog.Outcome.declared.inj hm)
        exact ⟨d'.fields, settings, hd', hcompile⟩

/-- **The fields behind every entry have the property**, whatever operations lead to the
catalog. -/
theorem run (ops : List Catalog.Operation) : (Catalog.run {} ops).Keeps Q := by
  have hrun : ∀ c : Catalog, c.pending = [] → c.Keeps Q → (c.run ops).Keeps Q := by
    induction ops with
    | nil => exact fun _ _ h => h
    | cons op rest ih =>
        intro c hpending h
        have hop := Catalog.performed hpending op
        exact ih _ (hop.pending hpending) (hQ.performed h hop).1
  exact hrun {} rfl nofun

theorem of_gathered {fs : Fields} (h : Gathered fs) : Q fs := by
  induction h with
  | nil => exact hQ.nil
  | attach ops pending _ hattach ih => exact hQ.attach ((hQ.run ops).lookup pending) ih hattach

/-- **The fields behind every document have the property.** -/
theorem of_compilable {d : Document} (h : d.Compilable) :
    ∃ fs settings, Q fs ∧ Document.compile fs settings = .ok d := by
  obtain ⟨fs, settings, hfs, hcompile⟩ := h
  exact ⟨fs, settings, hQ.of_gathered hfs, hcompile⟩

end Fields.Hereditary

/-! ### Documents -/

/-- The document of a model that an operation gives is one that compiling fields gives. -/
theorem Catalog.compilable_of_perform {ops : List Operation} {op : Operation} {m : Model}
    (h : ((run {} ops).perform op).1 = .declared (some m)) : m.document.Compilable := by
  have hop := performed (pending_run ops) op
  obtain ⟨-, d, d', hdraft, hfields, -, hmodel⟩ := hop.added_of_declared h
  refine ⟨d'.fields, _, ?_, (hmodel m rfl).2⟩
  obtain ⟨hbegun, -, hempty⟩ := begunOn_of_draft hdraft
  have hstart : Fields.Gathered d.fields := hempty ▸ .nil
  refine (Draft.attachAll_induction
    (P := fun d => d.BegunOn (run {} ops) ∧ Fields.Gathered d.fields) ?_
    ⟨hbegun, hstart⟩ hfields).2
  rintro d d' f ⟨hbegun, hfields⟩ hattach
  refine ⟨(hbegun.attach hattach).1, ?_⟩
  obtain ⟨fs, hfs, rfl⟩ := Draft.attach_cases hattach
  rw [hbegun] at hfs
  exact .attach ops _ hfields hfs

/-- Declarations are operations. -/
theorem Catalog.Reachable.exists_run {c : Catalog} (h : c.Reachable) : ∃ ops, c = run {} ops := by
  induction h with
  | empty => exact ⟨[], rfl⟩
  | model m _ ih =>
      obtain ⟨ops, rfl⟩ := ih
      exact ⟨ops ++ [.model m], by simp [run, perform]⟩
  | object o _ ih =>
      obtain ⟨ops, rfl⟩ := ih
      exact ⟨ops ++ [.object o], by simp [run, perform]⟩

theorem Model.Compiled.compilable {m : Model} (h : m.Compiled) : m.document.Compilable := by
  obtain ⟨c, decl, hc, hm⟩ := h
  obtain ⟨ops, rfl⟩ := hc.exists_run
  have hperform : ((Catalog.run {} ops).perform (.model decl)).1 = .declared (some m) := by
    simp [Catalog.perform, Catalog.Outcome.ofModel, hm]
  exact Catalog.compilable_of_perform hperform

/-- The names of fields that were attached come once each, and at every level of their fragments. -/
theorem Fields.hereditary_distinct : Hereditary Distinct where
  nil := nofun
  attach := by
    intro lookup fs fs' name declared options hlookup hfs hattach
    refine distinct_attach (fun other shape hfound => ?_) hfs hattach
    obtain ⟨gs, hgs, rfl⟩ := hlookup other shape hfound
    exact distinct_properties hgs

/-- **No name comes twice at any level of a document that compiling fields gives.** -/
theorem Document.Compilable.distinct {d : Document} (h : d.Compilable) :
    Properties.Distinct d.properties := by
  obtain ⟨fs, settings, hfs, hcompile⟩ := Fields.hereditary_distinct.of_compilable h
  exact distinct_compile hfs hcompile

/-- **No name comes twice at any level of a compiled document.** -/
theorem Model.Compiled.distinct {m : Model} (h : m.Compiled) :
    Properties.Distinct m.document.properties :=
  h.compilable.distinct

end Schemata

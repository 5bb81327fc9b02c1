import Schemata.Proofs.Fragment.Forms

/-!
# Schemata — Proofs — Document — Forms

A document is well formed at every level.  Fields that are attached to formed fields are formed, and
so are those behind every entry of a catalog (`Fields.hereditary_formed`).  Compiling puts identity
and version before them and the timestamps, whose names are not taken, behind them
(`Document.formed_compile`).

* `Catalog.formed_of_perform`: whatever declarations and builders came before, the document of a
  model that is declared is formed.
-/

namespace Schemata

/-- Names of fields come once each, also with one more that is attached. -/
theorem Fields.nodup_attach {lookup : String → Lookup} {fs fs' : Fields} {name : String}
    {declared : Option HostType} {options : FieldOptions} (hfs : fs.names.Nodup)
    (h : fs.attach lookup name declared options = .ok fs') : fs'.names.Nodup := by
  obtain ⟨-, hnew, kind, fragment, -, -, rfl⟩ := attach_cases h
  have hname : name ∉ fs.names := by
    rw [← contains_iff, hnew]
    exact Bool.false_ne_true
  rw [names, List.map_append]
  refine List.nodup_append.mpr ⟨hfs, by simp, fun n hn n' hn' he => hname ?_⟩
  obtain rfl := List.mem_singleton.mp hn'
  exact he ▸ hn

/-- Attaching keeps fields formed. -/
theorem Fields.hereditary_formed : Hereditary Formed where
  nil := ⟨.nil, nofun⟩
  attach := by
    intro lookup fs fs' name declared options hlookup hfs hattach
    refine ⟨nodup_attach hfs.names hattach, fun f hf => ?_⟩
    obtain ⟨-, -, kind, fragment, -, hresolve, rfl⟩ := attach_cases hattach
    rcases List.mem_append.mp hf with hf | hf
    · exact hfs.fragments f hf
    · obtain rfl := List.mem_singleton.mp hf
      exact Kind.formed_of_resolve hlookup hresolve

namespace Document

/-- A document is a closed object whose fragments are formed. -/
structure Formed (d : Document) : Prop where
  type : d.type = .object
  names : d.properties.names.Nodup
  required : d.required.Nodup ∧ d.required ⊆ d.properties.names
  additionalProperties : d.additionalProperties = false
  fragments : ∀ p ∈ d.properties, p.2.Formed

variable {fs : Fields}

/-! ### Identity, version and the declared fields -/

theorem formed_declaredProperties (h : fs.Formed) : (declaredProperties fs).Formed := by
  have hid : (((fs.get? idField).map Field.fragment).getD (.bson .objectId)).Formed := by
    cases hget : fs.get? idField with
    | none => exact Fragment.formed_bson .objectId
    | some f => exact h.fragments f (List.mem_of_find?_eq_some hget)
  have hstart : Properties.Formed
      [(idField, ((fs.get? idField).map Field.fragment).getD (.bson .objectId)),
        (versionField, .typed .number)] :=
    { names := show [idField, versionField].Nodup by decide
      fragments := by simpa using ⟨hid, Fragment.formed_typed nofun nofun⟩ }
  exact hstart.foldl_insert fun f hf => h.fragments f (List.mem_filter.mp hf).1

theorem mem_names_declaredProperties {n : String} :
    n ∈ (declaredProperties fs).names ↔
      n = idField ∨ n = versionField ∨ n ∈ Fields.names (fs.filter (·.name ≠ idField)) := by
  rw [declaredProperties, Properties.mem_names_foldl_insert]
  simp [Properties.names, Fields.names, or_assoc]

theorem mem_names_iff {name : String} : name ∈ (declaredProperties fs).names ↔
    name = idField ∨ name = versionField ∨ name ∈ fs.names := by
  have hothers : name ∈ Fields.names (fs.filter (·.name ≠ idField)) ↔
      name ∈ fs.names ∧ name ≠ idField := by
    simp only [Fields.names, List.mem_map, List.mem_filter, decide_eq_true_eq]
    constructor
    · rintro ⟨f, ⟨hf, hid⟩, rfl⟩
      exact ⟨⟨f, hf, rfl⟩, hid⟩
    · rintro ⟨⟨f, hf, rfl⟩, hid⟩
      exact ⟨f, ⟨hf, hid⟩, rfl⟩
  rw [mem_names_declaredProperties, hothers]
  by_cases hid : name = idField <;> simp [hid]

theorem declaredRequired_subset (fs : Fields) :
    declaredRequired fs ⊆ (declaredProperties fs).names := by
  intro n hn
  rw [mem_names_declaredProperties]
  rcases List.mem_append.mp hn with hn | hn
  · split at hn
    · exact .inl (List.mem_singleton.mp hn)
    · nomatch hn
  · exact .inr (.inr ((Fields.required_sublist _).subset hn))

theorem nodup_declaredRequired (h : fs.Formed) : (declaredRequired fs).Nodup := by
  have hsub : (Fields.required (fs.filter (·.name ≠ idField))).Sublist fs.names :=
    (Fields.required_sublist _).trans (List.filter_sublist.map _)
  refine List.nodup_append.mpr ⟨?_, h.names.sublist hsub, fun n hn n' hn' he => ?_⟩
  · split <;> simp
  · -- identity is not among the other fields
    have hid : n = idField := by
      split at hn
      · exact List.mem_singleton.mp hn
      · nomatch hn
    obtain ⟨f, hf, rfl⟩ := List.mem_map.mp ((Fields.required_sublist _).subset hn')
    simp_all

/-! ### Timestamps -/

theorem formed_addStamp {ps ps' : Properties} {name : String} (hps : ps.Formed)
    (h : addStamp ps name = .ok ps') : ps'.Formed ∧ ps'.names = ps.names ++ [name] := by
  obtain ⟨hnew, rfl⟩ := addStamp_eq_ok_iff.mp h
  have hnot : name ∉ ps.names := mt Properties.contains_iff.mpr (Bool.eq_false_iff.mp hnew)
  exact ⟨hps.insert name (Fragment.formed_bson .date),
    (Properties.map_fst_insert ps name _).trans (if_neg hnot)⟩

/-- The names of timestamps are new ones behind those of the fields. -/
theorem formed_addStamps {ps ps' : Properties} {stamps : Option StampNames} (hps : ps.Formed)
    (h : addStamps ps stamps = .ok ps') :
    ps'.Formed ∧ ps'.names = ps.names ++ stampNames stamps := by
  cases stamps with
  | none =>
      obtain rfl := Except.ok.inj h
      exact ⟨hps, (List.append_nil _).symm⟩
  | some names =>
      obtain ⟨mid, hcreated, hupdated⟩ := bind_eq_ok.mp h
      obtain ⟨hmid, hmidnames⟩ := formed_addStamp hps hcreated
      obtain ⟨hps', hnames⟩ := formed_addStamp hmid hupdated
      refine ⟨hps', ?_⟩
      rw [hnames, hmidnames, stampNames, List.append_assoc]
      rfl

/-- **Formed fields compile to a formed document**, whatever the settings. -/
theorem formed_compile {settings : Settings} {d : Document} (hfs : fs.Formed)
    (h : compile fs settings = .ok d) : d.Formed := by
  obtain ⟨ps, hps, h⟩ := bind_eq_ok.mp h
  obtain ⟨-, -, h⟩ := bind_eq_ok.mp h
  obtain rfl := Except.ok.inj h
  obtain ⟨hformed, hnames⟩ := formed_addStamps (formed_declaredProperties hfs) hps
  obtain ⟨-, hstamps, hdisjoint⟩ := List.nodup_append.mp (hnames ▸ hformed.names)
  have hdeclared := declaredRequired_subset fs
  refine ⟨rfl, hformed.names, ⟨?_, ?_⟩, rfl, hformed.fragments⟩
  · refine List.nodup_append.mpr ⟨nodup_declaredRequired hfs, hstamps, fun n hn => ?_⟩
    exact hdisjoint n (hdeclared hn)
  · intro n hn
    rw [hnames]
    rcases List.mem_append.mp hn with hn | hn
    · exact List.mem_append_left _ (hdeclared hn)
    · exact List.mem_append_right _ hn

theorem Compilable.formed {d : Document} (h : d.Compilable) : d.Formed := by
  obtain ⟨fs, settings, hfs, hcompile⟩ := Fields.hereditary_formed.of_compilable h
  exact formed_compile hfs hcompile

end Document

namespace Catalog

/-- **Every document is formed at every level**, whatever declarations and builders came before that
of its model. -/
theorem formed_of_perform (before : List Operation) (op : Operation) (m : Model)
    (h : ((run {} before).perform op).1 = .declared (some m)) : m.document.Formed :=
  (compilable_of_perform h).formed

/-- An object that others can embed. -/
def Operation.place : Operation :=
  .object {
    name := "Place"
    fields := [{ name := "city", kind := some .anyString, required := true }] }

/-- A model that is built with a list of places, a choice that is offered twice, a map and
timestamps. -/
def Operation.person : Operation :=
  .buildModel "Person" [
    .field { name := "homes", kind := some (.arrayOf (.embedded "Place")) },
    .field { name := "role", kind := some (.choice [⟨.string "guest", rfl⟩]), required := true },
    .field { name := "role", kind := some .boolean },
    .settings { timestamps := .enabled true },
    .field { name := "tags", kind := some (.mapOf .any) }] true

/-- All the forms are there: the homes are an array of closed objects, the role is a choice and the
tags are a map, between a number and dates. -/
theorem formed_of_person : ∃ m, ((run {} [.place]).perform .person).1 = .declared (some m) ∧
    m.document.Formed ∧
    m.document.properties.names
      = ["_id", "__v", "homes", "role", "tags", "createdAt", "updatedAt"] ∧
    m.document.required = ["_id", "role", "createdAt", "updatedAt"] ∧
    (∃ homes, m.document.properties.get? "homes" = some homes ∧ homes.IsArray ∧
      ∃ place, homes.items = some place ∧ place.IsClosedObject ∧
        place.required = some ["city"]) ∧
    (∃ role, m.document.properties.get? "role" = some role ∧ role.IsChoice) ∧
    (∃ tags, m.document.properties.get? "tags" = some tags ∧ tags.IsMap) ∧
    ∃ stamp, m.document.properties.get? "updatedAt" = some stamp ∧ stamp.IsScalar := by
  refine ⟨_, rfl, formed_of_perform [.place] .person _ rfl, rfl, rfl, ⟨_, rfl, ?_, _, rfl, ?_, rfl⟩,
    ⟨_, rfl, ?_⟩, ⟨_, rfl, ?_⟩, ⟨_, rfl, ?_⟩⟩
  · exact ⟨rfl, rfl, rfl, rfl, rfl, rfl, rfl, rfl⟩
  · refine ⟨rfl, rfl, rfl, rfl, rfl, rfl, _, rfl, by decide, ?_⟩
    rintro _ ⟨⟩
    decide
  · exact ⟨_, rfl⟩
  · exact ⟨rfl, rfl, rfl, rfl, rfl, rfl, rfl, _, _, rfl⟩
  · exact ⟨.inr ⟨rfl, rfl⟩, rfl, rfl, rfl, rfl, rfl⟩

end Catalog

end Schemata

import Schemata.Proofs.Catalog.Gathering

/-!
# Schemata — Proofs — Fragment — Forms

The forms that a resolved fragment can have.  It is a scalar, an array, a closed object, a map or a
bare choice, and it states its allowed values at most once, never as an empty list
(`Fragment.HasForm`).  A fragment is formed if it has one of these forms and so has every fragment
within it, through items, properties and patterns, at whatever depth (`Fragment.Formed`).

A fragment is formed if it has a form and the fragments directly in it are formed
(`Fragment.formed_of_children`).  So a kind resolves to a formed fragment where the shapes that it
can look up are such (`Kind.formed_of_resolve`): the properties of an embedded object are a copy of
what was resolved before, and nothing in them is looked at again.
-/

namespace Schemata

open Json (valuesOf)

namespace Fragment

/-! ### The fragments within a fragment -/

/-- The fragments directly in a fragment. -/
inductive Child (f : Fragment) : Fragment → Prop where
  | items {g : Fragment} (h : f.items = some g) : Child f g
  | property {ps : Properties} {p : String × Fragment} (h : f.properties = some ps)
      (hp : p ∈ ps) : Child f p.2
  | pattern {ps : Properties} {p : String × Fragment} (h : f.patternProperties = some ps)
      (hp : p ∈ ps) : Child f p.2

/-- The fragments in a fragment at any depth, itself included. -/
inductive Within : Fragment → Fragment → Prop where
  | self (f : Fragment) : Within f f
  | child {f g h : Fragment} (hg : f.Child g) (hh : Within g h) : Within f h

/-! ### Forms -/

/-- A single type, of JSON or of BSON, and no structure. -/
structure IsScalar (f : Fragment) : Prop where
  type : (∃ t, f.type = some t ∧ t ≠ .array ∧ t ≠ .object ∧ f.bsonType = none) ∨
    (f.type = none ∧ f.bsonType.isSome)
  items : f.items = none
  properties : f.properties = none
  patternProperties : f.patternProperties = none
  required : f.required = none
  additionalProperties : f.additionalProperties = none

/-- An array of one kind of items. -/
structure IsArray (f : Fragment) : Prop where
  type : f.type = some .array
  bsonType : f.bsonType = none
  items : f.items.isSome
  properties : f.properties = none
  patternProperties : f.patternProperties = none
  required : f.required = none
  additionalProperties : f.additionalProperties = none
  allowed : f.allowed = none

/-- An object with certain properties and no others, which names those it must have, if any. -/
structure IsClosedObject (f : Fragment) : Prop where
  type : f.type = some .object
  bsonType : f.bsonType = none
  items : f.items = none
  patternProperties : f.patternProperties = none
  allowed : f.allowed = none
  additionalProperties : f.additionalProperties = some false
  properties : ∃ ps : Properties, f.properties = some ps ∧ ps.names.Nodup ∧
    ∀ names, f.required = some names → names ≠ [] ∧ names.Nodup ∧ names ⊆ ps.names

/-- An object whose keys match one pattern. -/
structure IsMap (f : Fragment) : Prop where
  type : f.type = some .object
  bsonType : f.bsonType = none
  items : f.items = none
  properties : f.properties = none
  required : f.required = none
  allowed : f.allowed = none
  additionalProperties : f.additionalProperties = some false
  patternProperties : ∃ pattern g, f.patternProperties = some [(pattern, g)]

/-- Allowed values and nothing else. -/
def IsChoice (f : Fragment) : Prop := ∃ vs, f = { allowed := some vs }

/-- Allowed values are some, and the fragment's own: its bounds hold none, so that what is written
of the fragment states them once. -/
structure HasAllowed (f : Fragment) : Prop where
  nonempty : ∀ vs, f.allowed = some vs → vs ≠ []
  stringLimits : f.stringLimits.allowed = none
  numberLimits : f.numberLimits.allowed = none
  written : ∃ members, f.toJson = .object members ∧
    valuesOf members "enum" = (f.allowed.map Json.values).toList

/-- A fragment has one of the forms. -/
structure HasForm (f : Fragment) : Prop where
  form : f.IsScalar ∨ f.IsArray ∨ f.IsClosedObject ∨ f.IsMap ∨ f.IsChoice
  allowed : f.HasAllowed

/-- Every fragment within a fragment has one of the forms. -/
def Formed (f : Fragment) : Prop := ∀ g, f.Within g → g.HasForm

variable {f : Fragment}

theorem formed_of_children (h : f.HasForm) (hchildren : ∀ g, f.Child g → g.Formed) : f.Formed := by
  intro g hg
  cases hg with
  | self => exact h
  | child hchild hwithin => exact hchildren _ hchild g hwithin

/-- A fragment without structure is formed if it has a form. -/
theorem formed_of_flat (hitems : f.items = none) (hproperties : f.properties = none)
    (hpatterns : f.patternProperties = none) (h : f.HasForm) : f.Formed := by
  refine formed_of_children h fun g hg => ?_
  cases hg with
  | items hg => simp [hitems] at hg
  | property hps => simp [hproperties] at hps
  | pattern hps => simp [hpatterns] at hps

/-- Where bounds hold no allowed values, those of the fragment stand in one place. -/
theorem hasAllowed (howns : f.OwnsAllowed) (h : ∀ vs, f.allowed = some vs → vs ≠ []) :
    f.HasAllowed where
  nonempty := h
  stringLimits := howns.1
  numberLimits := howns.2
  written := by
    refine ⟨_, f.toJson_eq_given howns, ?_⟩
    have hvalues := Json.map_valuesOf_given nodup_keywords f.length_slots
    generalize Json.given keywords f.slots = members at hvalues ⊢
    simp only [keywords, slots, List.map_cons, List.cons.injEq] at hvalues
    obtain ⟨-, -, -, -, -, -, -, hallowed, -⟩ := hvalues
    exact hallowed

theorem formed_bson (k : BsonKind) : (bson k).Formed :=
  formed_of_flat rfl rfl rfl
    { form := .inl ⟨.inr ⟨rfl, rfl⟩, rfl, rfl, rfl, rfl, rfl⟩
      allowed := hasAllowed ⟨rfl, rfl⟩ nofun }

theorem formed_typed {t : JsonType} (harray : t ≠ .array) (hobject : t ≠ .object) :
    (typed t).Formed :=
  formed_of_flat rfl rfl rfl
    { form := .inl ⟨.inl ⟨t, rfl, harray, hobject, rfl⟩, rfl, rfl, rfl, rfl, rfl⟩
      allowed := hasAllowed ⟨rfl, rfl⟩ nofun }

end Fragment

/-! ### Properties and fields -/

/-- The names come once each, and every fragment is formed. -/
structure Properties.Formed (ps : Properties) : Prop where
  names : ps.names.Nodup
  fragments : ∀ p ∈ ps, p.2.Formed

/-- The names come once each, and every fragment is formed. -/
structure Fields.Formed (fs : Fields) : Prop where
  names : fs.names.Nodup
  fragments : ∀ f ∈ fs, f.fragment.Formed

namespace Properties

variable {ps : Properties} {name : String} {f : Fragment}

theorem mem_names_insert {n : String} :
    n ∈ (ps.insert name f).names ↔ n ∈ ps.names ∨ n = name := by
  rw [names, map_fst_insert, ← names]
  split
  · next hname =>
      refine ⟨.inl, ?_⟩
      rintro (h | rfl)
      · exact h
      · exact hname
  · simp

theorem mem_insert {p : String × Fragment} (h : p ∈ ps.insert name f) : p ∈ ps ∨ p.2 = f := by
  induction ps with
  | nil =>
      obtain rfl := List.mem_singleton.mp h
      exact .inr rfl
  | cons q rest ih =>
      obtain ⟨k, g⟩ := q
      rw [insert] at h
      split at h
      · rcases List.mem_cons.mp h with rfl | h
        · exact .inr rfl
        · exact .inl (List.mem_cons_of_mem _ h)
      · rcases List.mem_cons.mp h with rfl | h
        · exact .inl List.mem_cons_self
        · exact (ih h).imp_left (List.mem_cons_of_mem _)

theorem Formed.insert (h : ps.Formed) (name : String) (hf : f.Formed) :
    (ps.insert name f).Formed where
  names := by
    rw [Properties.names, map_fst_insert, ← Properties.names]
    split
    · exact h.names
    · next hnew =>
        refine List.nodup_append.mpr ⟨h.names, by simp, fun n hn n' hn' he => hnew ?_⟩
        obtain rfl := List.mem_singleton.mp hn'
        exact he ▸ hn
  fragments := by
    intro p hp
    rcases mem_insert hp with hp | rfl
    · exact h.fragments p hp
    · exact hf

section Folding

variable {α : Type} {name : α → String} {fragment : α → Fragment} {as : List α}

theorem Formed.foldl_insert (hps : ps.Formed) (h : ∀ a ∈ as, (fragment a).Formed) :
    Formed (as.foldl (fun ps a => Properties.insert ps (name a) (fragment a)) ps) :=
  foldl_insert_induction (fun name hps hf => hps.insert name hf) hps h

theorem mem_names_foldl_insert {n : String} :
    n ∈ names (as.foldl (fun ps a => Properties.insert ps (name a) (fragment a)) ps) ↔
      n ∈ ps.names ∨ n ∈ as.map name := by
  induction as generalizing ps with
  | nil => simp
  | cons a rest ih =>
      rw [List.foldl_cons, ih, mem_names_insert, List.map_cons, List.mem_cons, or_assoc]

end Folding

theorem contains_iff : ps.contains name = true ↔ name ∈ ps.names := by
  simp [contains, get?, names]

end Properties

namespace Fields

variable {fs : Fields} {name : String}

theorem contains_iff : fs.contains name = true ↔ name ∈ fs.names := by
  simp [contains, get?, names]

/-- Where names come once each, a field is found under its own. -/
theorem get?_of_mem (h : fs.names.Nodup) {f : Field} (hf : f ∈ fs) : fs.get? f.name = some f :=
  find?_of_nodup h hf

/-- What fields whose names come once give to others are their fragments as they are. -/
theorem properties_eq (h : fs.names.Nodup) :
    fs.properties = fs.map fun f => (f.name, f.fragment) := by
  have hnames : (fs.map fun f => (f.name, f.fragment)).map Prod.fst = fs.names :=
    List.map_map
  exact Properties.ofList_of_nodup (hnames ▸ h)

theorem names_properties (h : fs.names.Nodup) : fs.properties.names = fs.names := by
  rw [properties_eq h]
  exact List.map_map

theorem Formed.properties (h : fs.Formed) :
    fs.properties.Formed ∧ fs.properties.names = fs.names := by
  have hnames := names_properties h.names
  refine ⟨⟨hnames ▸ h.names, fun p hp => ?_⟩, hnames⟩
  rw [properties_eq h.names] at hp
  obtain ⟨f, hf, rfl⟩ := List.mem_map.mp hp
  exact h.fragments f hf

/-- Required fields are fields, and come once each if fields do. -/
theorem required_sublist (fs : Fields) : fs.required.Sublist fs.names :=
  List.filter_sublist.map _

end Fields

/-! ### Kinds -/

/-- An object closed over formed fields. -/
theorem Fragment.formed_closedObject {fs : Fields} (h : fs.Formed) (limits : ObjectLimits) :
    { closedObject fs.shape.properties fs.shape.required with objectLimits := limits }.Formed := by
  obtain ⟨hps, hnames⟩ := h.properties
  refine formed_of_children ⟨.inr (.inr (.inl ?_)), hasAllowed ⟨rfl, rfl⟩ nofun⟩ fun g hg => ?_
  · refine ⟨rfl, rfl, rfl, rfl, rfl, rfl, fs.properties, rfl, hps.names, fun names hrequired => ?_⟩
    -- a list of required names is left out if it is empty
    have hrequired : fs.required ≠ [] ∧ fs.required = names := by
      simpa [closedObject, Fields.shape] using hrequired
    obtain ⟨hne, rfl⟩ := hrequired
    refine ⟨hne, h.names.sublist fs.required_sublist, ?_⟩
    rw [hnames]
    exact fs.required_sublist.subset
  · cases hg with
    | items hg => nomatch hg
    | property hp hmem =>
        obtain rfl := Option.some.inj hp
        exact hps.fragments _ hmem
    | pattern hp => nomatch hp

/-- **A kind resolves to a formed fragment.** -/
theorem Kind.formed_of_resolve {lookup : String → Lookup}
    (hlookup : Lookup.Gives Fields.Formed lookup) {kind : Kind} {f : Fragment}
    (h : kind.resolve lookup = .ok f) : f.Formed := by
  rw [resolve_eq_ok_iff] at h
  induction h with
  | string hne | number hne =>
      exact Fragment.formed_of_flat rfl rfl rfl
        ⟨.inl ⟨.inl ⟨_, rfl, nofun, nofun, rfl⟩, rfl, rfl, rfl, rfl, rfl⟩,
          Fragment.hasAllowed ⟨rfl, rfl⟩ fun _ hvs hnil => hne (hvs.trans (congrArg some hnil))⟩
  | choice hne =>
      exact Fragment.formed_of_flat rfl rfl rfl
        ⟨.inr (.inr (.inr (.inr ⟨_, rfl⟩))),
          Fragment.hasAllowed ⟨rfl, rfl⟩ fun _ hvs hnil => hne ((Option.some.inj hvs).trans hnil)⟩
  | boolean => exact Fragment.formed_typed nofun nofun
  | date | binary | objectId => exact Fragment.formed_bson _
  | any =>
      exact Fragment.formed_of_flat rfl rfl rfl
        ⟨.inl ⟨.inr ⟨rfl, rfl⟩, rfl, rfl, rfl, rfl, rfl⟩, Fragment.hasAllowed ⟨rfl, rfl⟩ nofun⟩
  | array _ _ ih =>
      refine Fragment.formed_of_children
        ⟨.inr (.inl ⟨rfl, rfl, rfl, rfl, rfl, rfl, rfl, rfl⟩),
          Fragment.hasAllowed ⟨rfl, rfl⟩ nofun⟩ ?_
      rintro _ (hitems | hp | hp)
      · obtain rfl := Option.some.inj hitems
        exact ih
      · nomatch hp
      · nomatch hp
  | map _ _ _ ih =>
      refine Fragment.formed_of_children
        ⟨.inr (.inr (.inr (.inl ⟨rfl, rfl, rfl, rfl, rfl, rfl, rfl, _, _, rfl⟩))),
          Fragment.hasAllowed ⟨rfl, rfl⟩ nofun⟩ ?_
      rintro _ (hitems | hp | ⟨hp, hmem⟩)
      · nomatch hitems
      · nomatch hp
      · obtain rfl := Option.some.inj hp
        obtain rfl := List.mem_singleton.mp hmem
        exact ih
  | object limits hshape =>
      obtain ⟨fs, hfs, rfl⟩ := hlookup _ _ hshape
      exact Fragment.formed_closedObject hfs limits

end Schemata

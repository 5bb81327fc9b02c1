import Schemata.Proofs.Fragment.Reading
import Schemata.Proofs.Json.Places
import Schemata.Proofs.Lists

/-!
# Schemata — Proofs — Fragment — Places

The places of a fragment.  A path of items, properties and patterns leads to a fragment in it
(`Fragment.at?`), and the keys that the path takes lead to that fragment's JSON
(`Fragment.at?_keys`).  Apart from what it leads to, a fragment is what it says by itself
(`Fragment.own`).

* `Fragment.canonical_eq_iff_at?`: fragments have the same canonical form just where they say the
  same by themselves at every place.
* `Fragment.keyword_or_freeKey`: every key of a fragment's JSON is a keyword, or the name of a
  property, a pattern, or a key within allowed values.
-/

namespace Schemata

open Json (ReadsBack)

namespace Fragment

/-- A step into a fragment: to its items, to a property, or to what a pattern of keys has. -/
inductive Step where
  | items
  | property (name : String)
  | pattern (text : String)
deriving DecidableEq, Repr

/-- Where a step leads. -/
def child? (f : Fragment) : Step → Option Fragment
  | .items         => f.items
  | .property name => f.properties.bind fun ps => Properties.get? ps name
  | .pattern text  => f.patternProperties.bind fun ps => Properties.get? ps text

/-- Where a path leads. -/
def at? : Fragment → List Step → Option Fragment
  | f, []        => some f
  | f, s :: path => (f.child? s).bind fun g => g.at? path

/-- What a fragment says by itself: its items, properties and patterns are left out. -/
def own (f : Fragment) : Fragment :=
  { f with
    items := none
    properties := f.properties.map fun _ => []
    patternProperties := f.patternProperties.map fun _ => [] }

/-- The keys that a step takes. -/
def Step.keys : Step → List Json.Step
  | .items         => [.key "items"]
  | .property name => [.key "properties", .key name]
  | .pattern text  => [.key "patternProperties", .key text]

/-- The keys that a path takes. -/
def keys (path : List Step) : List Json.Step := path.flatMap Step.keys

end Fragment

/-! ### Slots of the same canonical form -/

theorem Json.ReadsBack.inj {α : Type} {read : Nat → Json → Option α} {write : α → Json} {x y : α}
    (hx : ReadsBack read write x) (hy : ReadsBack read write y) (h : write x = write y) : x = y :=
  ((hy _ _).mp (h ▸ (hx _ x).mpr ⟨Nat.le_refl _, rfl⟩)).2

/-- A slot that is in canonical form already has what is written in it. -/
theorem Json.map_canonical_inj {α : Type} {write : α → Json}
    (hcanonical : ∀ x, (write x).isCanonical = true) (hinj : ∀ x y, write x = write y → x = y)
    {a b : Option α} :
    (a.map write).map canonical = (b.map write).map canonical ↔ a = b := by
  have hwrite : ∀ x, (write x).canonical = write x := fun x =>
    canonical_of_isCanonical _ (hcanonical x)
  simp only [Option.map_map, Function.comp_def, hwrite]
  exact (Option.map_injective hinj).eq_iff

theorem Json.itemsCanonical_map {α : Type} {write : α → Json}
    (h : ∀ x, (write x).isCanonical = true) (as : List α) :
    itemsCanonical (as.map write) = true := by
  induction as with
  | nil => rfl
  | cons a rest ih => rw [List.map_cons, itemsCanonical, h a, ih]; rfl

theorem Json.count_inj {m n : UInt64} (h : count m = count n) : m = n :=
  Option.some.inj ((count?_count m).symm.trans (h ▸ count?_count n))

theorem BsonType.isCanonical_toJson (t : BsonType) : t.toJson.isCanonical = true := by
  cases t with
  | one kind => rfl
  | many kinds => exact Json.itemsCanonical_map (fun _ => rfl) kinds

theorem BsonType.keyless_toJson (t : BsonType) : t.toJson.Keyless := by
  cases t with
  | one kind => exact Json.keyless_of_child? fun _ => rfl
  | many kinds =>
      refine Json.keyless_array fun inner hinner => ?_
      obtain ⟨kind, -, rfl⟩ := List.mem_map.mp hinner
      exact Json.keyless_of_child? fun _ => rfl

namespace Properties

theorem mem_of_get? {ps : Properties} {name : String} {g : Fragment}
    (h : ps.get? name = some g) : (name, g) ∈ ps := by
  obtain ⟨p, hp, rfl⟩ := Option.map_eq_some_iff.mp h
  obtain rfl : p.1 = name := by simpa using List.find?_some hp
  exact List.mem_of_find?_eq_some hp

theorem Distinct.of_mem : ∀ {ps : Properties}, Distinct ps → ∀ {p : String × Fragment},
    p ∈ ps → p.2.Distinct
  | (_, _) :: _, h, p, hp => by
      rcases List.mem_cons.mp hp with rfl | hp
      · exact h.2.1
      · exact Distinct.of_mem h.2.2 hp

theorem toMembers_eq_map (ps : Properties) :
    toMembers ps = ps.map fun p => (p.1, p.2.toJson) := by
  induction ps with
  | nil => rfl
  | cons p rest ih => rw [toMembers, List.map_cons, ih]

/-- The name of a property leads to its fragment. -/
theorem child?_toJson {ps : Properties} (h : (ps.map Prod.fst).Nodup) (name : String) :
    (Properties.toJson ps).child? (.key name) = (ps.get? name).map Fragment.toJson := by
  have hvalues : Json.valuesOf (toMembers ps) name
      = (ps.filter (·.1 = name)).map fun p => p.2.toJson := by
    rw [Json.valuesOf, toMembers_eq_map, List.filter_map, List.map_map]
    rfl
  rw [Properties.toJson, Json.child?, hvalues, filter_of_nodup h, get?]
  cases ps.find? (·.1 = name) <;> rfl

/-- Optional properties have the same canonical form if either is there, and under each name. -/
theorem map_canonical_eq_iff {a b : Option Properties}
    (ha : ∀ ps, a = some ps → (ps.map Prod.fst).Nodup)
    (hb : ∀ ps, b = some ps → (ps.map Prod.fst).Nodup) :
    (a.map Properties.toJson).map Json.canonical = (b.map Properties.toJson).map Json.canonical ↔
      a.map (fun _ => ([] : Properties)) = b.map (fun _ => []) ∧
      ∀ name, (a.bind fun ps => Properties.get? ps name).map (·.toJson.canonical)
        = (b.bind fun ps => Properties.get? ps name).map (·.toJson.canonical) := by
  cases a with
  | none => cases b <;> simp
  | some ps =>
      cases b with
      | none => simp
      | some qs =>
          simp only [Option.map_some, Option.some.injEq, true_and, Option.bind_some]
          refine Json.canonical_object_eq_iff.trans (forall_congr' fun name => ?_)
          have hps := child?_toJson (ha ps rfl) name
          have hqs := child?_toJson (hb qs rfl) name
          rw [Properties.toJson] at hps hqs
          rw [hps, hqs, Option.map_map, Option.map_map]
          rfl

end Properties

/-! ### Fragments of the same canonical form -/

namespace Fragment

variable {f g : Fragment}

theorem forall_step_iff {p : Step → Prop} : (∀ s, p s) ↔
    p .items ∧ (∀ name, p (.property name)) ∧ ∀ text, p (.pattern text) :=
  ⟨fun h => ⟨h _, fun _ => h _, fun _ => h _⟩, fun ⟨hitems, hproperty, hpattern⟩ s =>
    match s with
    | .items         => hitems
    | .property name => hproperty name
    | .pattern text  => hpattern text⟩

/-- What fragments say by themselves is the same if each keyword of theirs says the same. -/
theorem own_eq_iff (hf : f.OwnsAllowed) (hg : g.OwnsAllowed) : f.own = g.own ↔
    f.type = g.type ∧ f.bsonType = g.bsonType ∧
    f.properties.map (fun _ => ([] : Properties)) = g.properties.map (fun _ => []) ∧
    f.patternProperties.map (fun _ => ([] : Properties))
      = g.patternProperties.map (fun _ => []) ∧
    f.required = g.required ∧ f.additionalProperties = g.additionalProperties ∧
    f.allowed = g.allowed ∧ f.stringLimits.minLength = g.stringLimits.minLength ∧
    f.stringLimits.maxLength = g.stringLimits.maxLength ∧
    f.stringLimits.pattern = g.stringLimits.pattern ∧
    f.numberLimits.minimum = g.numberLimits.minimum ∧
    f.numberLimits.maximum = g.numberLimits.maximum ∧
    f.numberLimits.exclusiveMinimum = g.numberLimits.exclusiveMinimum ∧
    f.numberLimits.exclusiveMaximum = g.numberLimits.exclusiveMaximum ∧
    f.numberLimits.multipleOf = g.numberLimits.multipleOf ∧
    f.arrayLimits.minItems = g.arrayLimits.minItems ∧
    f.arrayLimits.maxItems = g.arrayLimits.maxItems ∧
    f.arrayLimits.uniqueItems = g.arrayLimits.uniqueItems ∧
    f.objectLimits.minProperties = g.objectLimits.minProperties ∧
    f.objectLimits.maxProperties = g.objectLimits.maxProperties := by
  obtain ⟨_, _, _, _, _, _, _, _, ⟨_, _, _, _⟩, ⟨_, _, _, _, _, _⟩, ⟨_, _, _⟩, ⟨_, _⟩⟩ := f
  obtain ⟨_, _, _, _, _, _, _, _, ⟨_, _, _, _⟩, ⟨_, _, _, _, _, _⟩, ⟨_, _, _⟩, ⟨_, _⟩⟩ := g
  obtain ⟨rfl, rfl⟩ := hf
  obtain ⟨rfl, rfl⟩ := hg
  simp only [own, mk.injEq, StringLimits.mk.injEq, NumberLimits.mk.injEq, ArrayLimits.mk.injEq,
    ObjectLimits.mk.injEq, and_assoc, true_and]

/-- Fragments have the same canonical form if they say the same, and their fragments do. -/
theorem canonical_eq_iff (hf : f.Distinct) (hg : g.Distinct) :
    f.toJson.canonical = g.toJson.canonical ↔ f.own = g.own ∧
      ∀ s, (f.child? s).map (·.toJson.canonical) = (g.child? s).map (·.toJson.canonical) := by
  obtain ⟨hfo, -, hfp, hfq⟩ := (distinct_iff f).mp hf
  obtain ⟨hgo, -, hgp, hgq⟩ := (distinct_iff g).mp hg
  have hproperties := Properties.map_canonical_eq_iff (fun ps h => (hfp ps h).nodup)
    fun ps h => (hgp ps h).nodup
  have hpatterns := Properties.map_canonical_eq_iff (fun ps h => (hfq ps h).nodup)
    fun ps h => (hgq ps h).nodup
  have htype := @Json.map_canonical_inj _ JsonType.toJson (fun _ => rfl)
    fun x y h => x.readsBack.inj y.readsBack h
  have hbson := @Json.map_canonical_inj _ BsonType.toJson BsonType.isCanonical_toJson
    fun x y h => x.readsBack.inj y.readsBack h
  have hrequired := @Json.map_canonical_inj _ Json.strings (Json.itemsCanonical_map fun _ => rfl)
    fun x y h => (Json.readsBack_strings x).inj (Json.readsBack_strings y) h
  have hallowed := @Json.map_canonical_inj _ Json.values (Json.itemsCanonical_map Value.isCanonical)
    fun x y h => (Json.readsBack_values x).inj (Json.readsBack_values y) h
  have hcount := @Json.map_canonical_inj _ Json.count (fun _ => rfl) fun _ _ => Json.count_inj
  have hnumber := @Json.map_canonical_inj _ Json.number (fun _ => rfl) fun _ _ => Json.number.inj
  have hstring := @Json.map_canonical_inj _ Json.string (fun _ => rfl) fun _ _ => Json.string.inj
  have hbool := @Json.map_canonical_inj _ Json.bool (fun _ => rfl) fun _ _ => Json.bool.inj
  rw [toJson_eq_given hfo, toJson_eq_given hgo,
    Json.canonical_given_eq_iff nodup_keywords f.length_slots g.length_slots, forall_step_iff]
  simp only [slots, List.map_cons, List.map_nil, List.cons.injEq, htype, hbson, hproperties,
    hpatterns, hrequired, hallowed, hcount, hnumber, hstring, hbool, child?]
  simp only [own_eq_iff hfo hgo, Option.map_map, and_true]
  constructor
  · rintro ⟨htype, hbson, hitems, ⟨hproperties, hproperty⟩, ⟨hpatterns, hpattern⟩, hothers⟩
    exact ⟨⟨htype, hbson, hproperties, hpatterns, hothers⟩, hitems, hproperty, hpattern⟩
  · rintro ⟨⟨htype, hbson, hproperties, hpatterns, hothers⟩, hitems, hproperty, hpattern⟩
    exact ⟨htype, hbson, hitems, ⟨hproperties, hproperty⟩, ⟨hpatterns, hpattern⟩, hothers⟩

/-! ### Fragments at a place -/

variable {s : Step} {path : List Step}

theorem distinct_child? (hf : f.Distinct) (h : f.child? s = some g) : g.Distinct := by
  obtain ⟨-, hitems, hproperties, hpatterns⟩ := (distinct_iff f).mp hf
  cases s with
  | items => exact hitems g h
  | property name =>
      obtain ⟨ps, hps, hg⟩ := Option.bind_eq_some_iff.mp h
      exact (hproperties ps hps).of_mem (Properties.mem_of_get? hg)
  | pattern text =>
      obtain ⟨ps, hps, hg⟩ := Option.bind_eq_some_iff.mp h
      exact (hpatterns ps hps).of_mem (Properties.mem_of_get? hg)

theorem sizeOf_child? (h : f.child? s = some g) : sizeOf g < sizeOf f := by
  have hmem : ∀ {ps : Properties} {name : String},
      ps.get? name = some g → sizeOf g < sizeOf ps := by
    intro ps name hg
    have hlt := List.sizeOf_lt_of_mem (Properties.mem_of_get? hg)
    rw [Prod.mk.sizeOf_spec] at hlt
    omega
  cases s with
  | items => exact sizeOf_items h
  | property name =>
      obtain ⟨ps, hps, hg⟩ := Option.bind_eq_some_iff.mp h
      exact (hmem hg).trans (sizeOf_properties hps)
  | pattern text =>
      obtain ⟨ps, hps, hg⟩ := Option.bind_eq_some_iff.mp h
      exact (hmem hg).trans (sizeOf_patternProperties hps)

/-- **Fragments have the same canonical form if they say the same at every place.** -/
theorem canonical_eq_iff_at? {f g : Fragment} (hf : f.Distinct) (hg : g.Distinct) :
    f.toJson.canonical = g.toJson.canonical ↔
      ∀ path, (f.at? path).map own = (g.at? path).map own := by
  rw [canonical_eq_iff hf hg]
  constructor
  · rintro ⟨hown, hchildren⟩ path
    cases path with
    | nil => exact congrArg some hown
    | cons s path =>
        have hs := hchildren s
        rw [at?, at?]
        cases hfs : f.child? s with
        | none =>
            rw [hfs] at hs
            rw [Option.map_eq_none_iff.mp hs.symm]
        | some f' =>
            rw [hfs] at hs
            obtain ⟨g', hgs, hcanonical⟩ := Option.map_eq_some_iff.mp hs.symm
            rw [hgs]
            exact (canonical_eq_iff_at? (distinct_child? hf hfs) (distinct_child? hg hgs)).mp
              hcanonical.symm path
  · intro h
    refine ⟨Option.some.inj (h []), fun s => ?_⟩
    have hs := fun path => h (s :: path)
    simp only [at?] at hs
    cases hfs : f.child? s with
    | none =>
        have hnone := hs []
        rw [hfs] at hnone
        cases hgs : g.child? s with
        | none => rfl
        | some g' => rw [hgs] at hnone; nomatch hnone
    | some f' =>
        cases hgs : g.child? s with
        | none =>
            have hnone := hs []
            rw [hfs, hgs] at hnone
            nomatch hnone
        | some g' =>
            refine congrArg some ((canonical_eq_iff_at? (distinct_child? hf hfs)
              (distinct_child? hg hgs)).mpr fun path => ?_)
            have hpath := hs path
            rwa [hfs, hgs] at hpath
termination_by sizeOf f
decreasing_by
  · exact sizeOf_child? hfs
  · exact sizeOf_child? hfs

/-- A keyword leads to its slot. -/
theorem child?_toJson (howns : f.OwnsAllowed) {keyword : String} {slot : Option Json}
    (h : (keyword, slot) ∈ keywords.zip f.slots) : f.toJson.child? (.key keyword) = slot := by
  rw [toJson_eq_given howns]
  exact Json.child?_given_of_mem nodup_keywords f.length_slots h

theorem at?_named (howns : f.OwnsAllowed) {keyword : String} {slot : Option Properties}
    (hslot : (keyword, slot.map Properties.toJson) ∈ keywords.zip f.slots)
    (h : ∀ ps, slot = some ps → Properties.Distinct ps) (name : String) :
    f.toJson.at? [.key keyword, .key name]
      = (slot.bind fun ps => Properties.get? ps name).map toJson := by
  rw [Json.at?_cons, child?_toJson howns hslot]
  cases slot with
  | none => rfl
  | some ps =>
      rw [Option.map_some, Option.bind_some, Option.bind_some, Json.at?_cons,
        Properties.child?_toJson (h ps rfl).nodup]
      cases Properties.get? ps name <;> rfl

/-- The keys of a step lead where it leads. -/
theorem at?_step (hf : f.Distinct) (s : Step) :
    f.toJson.at? s.keys = (f.child? s).map toJson := by
  obtain ⟨howns, -, hproperties, hpatterns⟩ := (distinct_iff f).mp hf
  cases s with
  | items =>
      have hslot : f.toJson.child? (.key "items") = f.items.map toJson :=
        child?_toJson howns (by simp [keywords, slots])
      rw [Step.keys, Json.at?_cons, hslot, child?]
      cases f.items <;> rfl
  | property name => exact at?_named howns (by simp [keywords, slots]) hproperties name
  | pattern text => exact at?_named howns (by simp [keywords, slots]) hpatterns text

/-- **The keys of a path lead where it leads.** -/
theorem at?_keys (hf : f.Distinct) (path : List Step) :
    f.toJson.at? (keys path) = (f.at? path).map toJson := by
  induction path generalizing f with
  | nil => rfl
  | cons s path ih =>
      rw [keys, List.flatMap_cons, Json.at?_append, at?_step hf, at?]
      cases hs : f.child? s with
      | none => rfl
      | some g => exact ih (distinct_child? hf hs)

/-! ### Keys of a fragment -/

/-- A key that is no keyword: the name of a property, a pattern, or a key within allowed values. -/
inductive FreeKey (f : Fragment) : List Json.Step → String → Prop where
  | property {path : List Step} {g : Fragment} {name : String} (h : f.at? path = some g)
      (hname : (g.child? (.property name)).isSome) :
      FreeKey f (keys path ++ [.key "properties"]) name
  | pattern {path : List Step} {g : Fragment} {text : String} (h : f.at? path = some g)
      (htext : (g.child? (.pattern text)).isSome) :
      FreeKey f (keys path ++ [.key "patternProperties"]) text
  | allowed {path : List Step} {g : Fragment} {within : List Json.Step} {name : String}
      (h : f.at? path = some g) (hallowed : g.allowed.isSome) :
      FreeKey f (keys path ++ .key "enum" :: within) name

theorem at?_cons_of_child? (h : f.child? s = some g) (path : List Step) :
    f.at? (s :: path) = g.at? path := by
  rw [at?, h, Option.bind_some]

theorem keys_cons (s : Step) (path : List Step) : keys (s :: path) = s.keys ++ keys path :=
  List.flatMap_cons

theorem FreeKey.step {steps : List Json.Step} {name : String} (hs : f.child? s = some g)
    (h : g.FreeKey steps name) : f.FreeKey (s.keys ++ steps) name := by
  cases h with
  | property h hname =>
      rw [← List.append_assoc, ← keys_cons]
      exact .property ((at?_cons_of_child? hs _).trans h) hname
  | pattern h htext =>
      rw [← List.append_assoc, ← keys_cons]
      exact .pattern ((at?_cons_of_child? hs _).trans h) htext
  | allowed h hallowed =>
      rw [← List.append_assoc, ← keys_cons]
      exact .allowed ((at?_cons_of_child? hs _).trans h) hallowed

/-- What a keyword leads to: a fragment, properties, allowed values, or a value without keys. -/
theorem slot_cases {keyword : String} {j : Json} (h : (keyword, some j) ∈ keywords.zip f.slots) :
    (keyword = "items" ∧ ∃ g, f.items = some g ∧ j = g.toJson) ∨
    (keyword = "properties" ∧ ∃ ps, f.properties = some ps ∧ j = Properties.toJson ps) ∨
    (keyword = "patternProperties" ∧
      ∃ ps, f.patternProperties = some ps ∧ j = Properties.toJson ps) ∨
    (keyword = "enum" ∧ f.allowed.isSome) ∨ j.Keyless := by
  simp only [keywords, slots, List.zip_cons_cons, List.zip_nil_left, List.mem_cons,
    List.not_mem_nil, or_false, Prod.mk.injEq, eq_comm (a := some j), Option.map_eq_some_iff] at h
  rcases h with h | ⟨-, bson, -, rfl⟩ | ⟨rfl, g, hg, rfl⟩ | ⟨rfl, ps, hps, rfl⟩ |
    ⟨rfl, ps, hps, rfl⟩ | ⟨-, names, -, rfl⟩ | h | ⟨rfl, vs, hvs, -⟩ | h
  · obtain ⟨-, type, -, rfl⟩ := h
    exact .inr (.inr (.inr (.inr (Json.keyless_of_child? fun _ => rfl))))
  · exact .inr (.inr (.inr (.inr bson.keyless_toJson)))
  · exact .inl ⟨rfl, g, hg, rfl⟩
  · exact .inr (.inl ⟨rfl, ps, hps, rfl⟩)
  · exact .inr (.inr (.inl ⟨rfl, ps, hps, rfl⟩))
  · exact .inr (.inr (.inr (.inr (Json.keyless_strings names))))
  · obtain ⟨-, additional, -, rfl⟩ := h
    exact .inr (.inr (.inr (.inr (Json.keyless_of_child? fun _ => rfl))))
  · exact .inr (.inr (.inr (.inl ⟨rfl, by rw [hvs]; rfl⟩)))
  -- a bound is a count, a number, a text or a truth value
  · refine .inr (.inr (.inr (.inr (Json.keyless_of_child? fun s => ?_))))
    rcases h with h | h | h | h | h | h | h | h | h | h | h | h | h <;>
      obtain ⟨-, bound, -, rfl⟩ := h <;> rfl

/-- A key within properties is a name, or stands within the fragment of one. -/
theorem named_cases {ps : Properties} (hps : (ps.map Prod.fst).Nodup) {steps : List Json.Step}
    {name : String} (h : ((Properties.toJson ps).at? (steps ++ [.key name])).isSome) :
    (steps = [] ∧ (ps.get? name).isSome) ∨ ∃ other more g, steps = .key other :: more ∧
      ps.get? other = some g ∧ (g.toJson.at? (more ++ [.key name])).isSome := by
  match steps, h with
  | [], h =>
      rw [List.nil_append, Json.at?_cons, Properties.child?_toJson hps] at h
      refine .inl ⟨rfl, ?_⟩
      cases hname : ps.get? name with
      | none => rw [hname] at h; nomatch h
      | some g => rfl
  | .index _ :: _, h => nomatch h
  | .key other :: more, h =>
      rw [List.cons_append, Json.at?_cons, Properties.child?_toJson hps] at h
      cases hother : ps.get? other with
      | none => rw [hother] at h; nomatch h
      | some g =>
          rw [hother] at h
          exact .inr ⟨other, more, g, rfl, hother, h⟩

/-- **The keys of a fragment are keywords**, of the fragment or of one in it, or free to choose. -/
theorem keyword_or_freeKey {f : Fragment} (hf : f.Distinct) {steps : List Json.Step}
    {name : String} (h : (f.toJson.at? (steps ++ [.key name])).isSome) :
    (∃ path, steps = keys path ∧ name ∈ keywords) ∨ f.FreeKey steps name := by
  obtain ⟨howns, -, hproperties, hpatterns⟩ := (distinct_iff f).mp hf
  -- what is found in a fragment directly in this one is found in this one, a step further
  have hinner : ∀ (s : Step) (g : Fragment), f.child? s = some g → ∀ more : List Json.Step,
      ((∃ path, more = keys path ∧ name ∈ keywords) ∨ g.FreeKey more name) →
      (∃ path, s.keys ++ more = keys path ∧ name ∈ keywords) ∨
        f.FreeKey (s.keys ++ more) name := by
    rintro s g hs more (⟨path, rfl, hname⟩ | hfree)
    · exact .inl ⟨s :: path, (keys_cons s path).symm, hname⟩
    · exact .inr (hfree.step hs)
  rw [toJson_eq_given howns] at h
  match steps, h with
  | [], h =>
      rw [List.nil_append, Json.at?_cons] at h
      cases hslot : (Json.object (Json.given keywords f.slots)).child? (.key name) with
      | none => rw [hslot] at h; nomatch h
      | some j =>
          have hmem := Json.mem_zip_of_child?_given nodup_keywords f.length_slots hslot
          exact .inl ⟨[], rfl, (List.of_mem_zip hmem).1⟩
  | .index _ :: _, h => nomatch h
  | .key keyword :: more, h =>
      rw [List.cons_append, Json.at?_cons] at h
      cases hslot : (Json.object (Json.given keywords f.slots)).child? (.key keyword) with
      | none => rw [hslot] at h; nomatch h
      | some j =>
          rw [hslot, Option.bind_some] at h
          rcases slot_cases (Json.mem_zip_of_child?_given nodup_keywords f.length_slots hslot) with
            ⟨rfl, g, hg, rfl⟩ | ⟨rfl, ps, hps, rfl⟩ | ⟨rfl, ps, hps, rfl⟩ | ⟨rfl, hallowed⟩ |
              hkeyless
          · have hs : f.child? .items = some g := hg
            exact hinner _ g hs more (keyword_or_freeKey (distinct_child? hf hs) h)
          · rcases named_cases (hproperties ps hps).nodup h with
              ⟨rfl, hname⟩ | ⟨other, more', g, rfl, hg, h⟩
            · exact .inr (@FreeKey.property f [] f name rfl (by rw [child?, hps]; exact hname))
            · have hs : f.child? (.property other) = some g := by rw [child?, hps]; exact hg
              exact hinner _ g hs more' (keyword_or_freeKey (distinct_child? hf hs) h)
          · rcases named_cases (hpatterns ps hps).nodup h with
              ⟨rfl, hname⟩ | ⟨other, more', g, rfl, hg, h⟩
            · exact .inr (@FreeKey.pattern f [] f name rfl (by rw [child?, hps]; exact hname))
            · have hs : f.child? (.pattern other) = some g := by rw [child?, hps]; exact hg
              exact hinner _ g hs more' (keyword_or_freeKey (distinct_child? hf hs) h)
          · exact .inr (@FreeKey.allowed f [] f more name rfl hallowed)
          · rw [hkeyless more name] at h
            nomatch h
termination_by sizeOf f
decreasing_by
  · exact sizeOf_child? hs
  · exact sizeOf_child? hs
  · exact sizeOf_child? hs

end Fragment

end Schemata

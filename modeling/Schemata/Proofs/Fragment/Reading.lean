import Schemata.Fragment.Codec
import Schemata.Proofs.Json.Record

/-!
# Schemata — Proofs — Fragment — Reading

A fragment is read back from its JSON, just where there is room for its containers, if no key is
written twice at any of its levels: no name among the properties, nor the key of allowed values,
which are the fragment's own and not those of its bounds (`Fragment.Distinct`,
`Fragment.readsBack`).
-/

namespace Schemata

open Json (given member ReadsBack optional_readsBack slotDepth member_none member_append_given
  member_eq_given)

/-! ### Types and bounds -/

theorem JsonType.readsBack (t : JsonType) : ReadsBack read? toJson t :=
  Json.readsBack_of_scalar (fun _ => by cases t <;> rfl) rfl

theorem BsonKind.readsBack (k : BsonKind) : ReadsBack read? toJson k :=
  Json.readsBack_of_scalar (fun _ => by cases k <;> rfl) rfl

/-- A BSON type reads back, be it one or several. -/
theorem BsonType.readsBack (t : BsonType) : ReadsBack read? toJson t := by
  intro room b
  cases t with
  | one kind =>
      have h := kind.readsBack room
      have hread : read? room (.string kind.name) =
          (BsonKind.read? room kind.toJson).map .one := rfl
      rw [toJson, BsonKind.toJson, hread, Option.map_eq_some_iff]
      constructor
      · rintro ⟨_, hk, rfl⟩
        exact ⟨((h _).mp hk).1, by rw [((h _).mp hk).2]⟩
      · rintro ⟨hroom, rfl⟩
        exact ⟨kind, (h _).mpr ⟨hroom, rfl⟩, rfl⟩
  | many kinds =>
      have h := Json.readsBack_list (fun k (_ : k ∈ kinds) => k.readsBack) room
      rw [toJson, read?, Option.map_eq_some_iff]
      constructor
      · rintro ⟨_, hk, rfl⟩
        exact ⟨((h _).mp hk).1, by rw [((h _).mp hk).2]⟩
      · rintro ⟨hroom, rfl⟩
        exact ⟨kinds, (h _).mpr ⟨hroom, rfl⟩, rfl⟩

theorem BsonType.toJson_ne_null (t : BsonType) : t.toJson ≠ .null := by
  cases t with
  | one kind   => exact Json.string_ne_null kind.name
  | many kinds => exact Json.array_ne_null _

/-- Allowed values are found in the slot that they fill, if that fits. -/
theorem Json.optional_values (allowed : Option (List Value)) (room : Nat)
    (b : Option (List Value)) :
    optional (list? value? room) (allowed.map values) = some b ↔
      slotDepth (allowed.map values) ≤ room ∧ b = allowed :=
  optional_readsBack (fun vs _ => readsBack_values vs) (fun _ => array_ne_null _) room b

/-- The bounds of a string are found in their slots. -/
theorem StringLimits.ofSlots?_map (l : StringLimits) (room : Nat) (b : StringLimits) :
    ofSlots? room (l.minLength.map Json.count) (l.maxLength.map Json.count)
        (l.pattern.map .string) (l.allowed.map Json.values) = some b ↔
      slotDepth (l.allowed.map Json.values) ≤ room ∧ b = l := by
  simp only [ofSlots?, Json.optional_count, Json.optional_string, Option.bind_eq_bind,
    Option.bind_some, Option.pure_def]
  exact Json.bind_eq_some_iff_of_reads (Json.optional_values l.allowed room) Iff.rfl

/-- The bounds of a number are found in their slots. -/
theorem NumberLimits.ofSlots?_map (l : NumberLimits) (room : Nat) (b : NumberLimits) :
    ofSlots? room (l.minimum.map .number) (l.maximum.map .number)
        (l.exclusiveMinimum.map .number) (l.exclusiveMaximum.map .number)
        (l.multipleOf.map .number) (l.allowed.map Json.values) = some b ↔
      slotDepth (l.allowed.map Json.values) ≤ room ∧ b = l := by
  simp only [ofSlots?, Json.optional_number, Option.bind_eq_bind, Option.bind_some,
    Option.pure_def]
  exact Json.bind_eq_some_iff_of_reads (Json.optional_values l.allowed room) Iff.rfl

/-- The bounds of an array are found in their slots. -/
theorem ArrayLimits.ofSlots?_map (l : ArrayLimits) :
    ofSlots? (l.minItems.map Json.count) (l.maxItems.map Json.count) (l.uniqueItems.map .bool)
      = some l := by
  simp [ofSlots?]

/-- The bounds of an object are found in their slots. -/
theorem ObjectLimits.ofSlots?_map (l : ObjectLimits) :
    ofSlots? (l.minProperties.map Json.count) (l.maxProperties.map Json.count) = some l := by
  simp [ofSlots?]

/-! ### The slots of a fragment -/

namespace Fragment

/-- The bounds of the fragment hold no allowed values. -/
def OwnsAllowed (f : Fragment) : Prop :=
  f.stringLimits.allowed = none ∧ f.numberLimits.allowed = none

/-- The slot of each keyword. -/
def slots (f : Fragment) : List (Option Json) :=
  [f.type.map JsonType.toJson, f.bsonType.map BsonType.toJson, f.items.map toJson,
    f.properties.map Properties.toJson, f.patternProperties.map Properties.toJson,
    f.required.map Json.strings, f.additionalProperties.map .bool, f.allowed.map Json.values,
    f.stringLimits.minLength.map Json.count, f.stringLimits.maxLength.map Json.count,
    f.stringLimits.pattern.map .string, f.numberLimits.minimum.map .number,
    f.numberLimits.maximum.map .number, f.numberLimits.exclusiveMinimum.map .number,
    f.numberLimits.exclusiveMaximum.map .number, f.numberLimits.multipleOf.map .number,
    f.arrayLimits.minItems.map Json.count, f.arrayLimits.maxItems.map Json.count,
    f.arrayLimits.uniqueItems.map .bool, f.objectLimits.minProperties.map Json.count,
    f.objectLimits.maxProperties.map Json.count]

/-- What is written of a fragment, keyword by keyword. -/
theorem toJson_eq (f : Fragment) : f.toJson = .object
    (member "type" JsonType.toJson f.type ++ member "bsonType" BsonType.toJson f.bsonType ++
      member "items" toJson f.items ++ member "properties" Properties.toJson f.properties ++
      member "patternProperties" Properties.toJson f.patternProperties ++
      member "required" Json.strings f.required ++
      member "additionalProperties" .bool f.additionalProperties ++
      member "enum" Json.values f.allowed ++ f.stringLimits.members ++ f.numberLimits.members ++
      f.arrayLimits.members ++ f.objectLimits.members) := by
  obtain ⟨_, _, items, properties, patternProperties, _, _, _, _, _, _, _⟩ := f
  rw [toJson.eq_def]
  cases items <;> cases properties <;> cases patternProperties <;> rfl

/-- Where bounds hold no allowed values, a fragment is given by its keywords and slots. -/
theorem toJson_eq_given {f : Fragment} (h : f.OwnsAllowed) :
    f.toJson = .object (given keywords f.slots) := by
  rw [toJson_eq]
  simp only [StringLimits.members, NumberLimits.members, ArrayLimits.members, ObjectLimits.members,
    h.1, h.2, member_none, List.append_assoc, List.nil_append]
  rw [member_eq_given "maxProperties"]
  simp only [member_append_given]
  rfl

theorem toJson_ne_null (f : Fragment) : f.toJson ≠ .null := by
  cases f
  rw [toJson.eq_def]
  exact Json.object_ne_null _

theorem length_slots (f : Fragment) : keywords.length = f.slots.length := rfl

/-- Only some slots can hold containers. -/
theorem forall_slotDepth_le (f : Fragment) (room : Nat) :
    (∀ slot ∈ f.slots, slotDepth slot ≤ room) ↔
      slotDepth (f.type.map JsonType.toJson) ≤ room ∧
      slotDepth (f.bsonType.map BsonType.toJson) ≤ room ∧
      slotDepth (f.items.map toJson) ≤ room ∧
      slotDepth (f.properties.map Properties.toJson) ≤ room ∧
      slotDepth (f.patternProperties.map Properties.toJson) ≤ room ∧
      slotDepth (f.required.map Json.strings) ≤ room ∧
      slotDepth (f.allowed.map Json.values) ≤ room := by
  simp [slots]

theorem nodup_keywords : keywords.Nodup := by decide

end Fragment

/-! ### Keys that come once -/

mutual
/-- No name comes twice among the properties at any level of a fragment, and the bounds of none hold
allowed values. -/
def Fragment.Distinct : Fragment → Prop
  | ⟨_, _, items, properties, patternProperties, _, _, _, stringLimits, numberLimits, _, _⟩ =>
    (stringLimits.allowed = none ∧ numberLimits.allowed = none) ∧
    (match items with
      | none   => True
      | some f => f.Distinct) ∧
    (match properties with
      | none    => True
      | some ps => Properties.Distinct ps) ∧
    (match patternProperties with
      | none    => True
      | some ps => Properties.Distinct ps)
/-- No name comes twice among properties, nor at any level of theirs. -/
def Properties.Distinct : List (String × Fragment) → Prop
  | []                => True
  | (name, f) :: rest => name ∉ rest.map Prod.fst ∧ f.Distinct ∧ Properties.Distinct rest
end

namespace Fragment

/-- Names come once at every level if they do in all that is directly in a fragment. -/
theorem distinct_iff (f : Fragment) :
    f.Distinct ↔ f.OwnsAllowed ∧ (∀ g, f.items = some g → g.Distinct) ∧
      (∀ ps, f.properties = some ps → Properties.Distinct ps) ∧
      ∀ ps, f.patternProperties = some ps → Properties.Distinct ps := by
  obtain ⟨_, _, items, properties, patternProperties, _, _, _, _, _, _, _⟩ := f
  cases items <;> cases properties <;> cases patternProperties <;> simp [Distinct, OwnsAllowed]

variable {f g : Fragment} {ps : Properties}

/-- What is in a fragment is smaller. -/
theorem sizeOf_items (h : f.items = some g) : sizeOf g < sizeOf f := by
  cases f
  obtain rfl := h
  simp only [mk.sizeOf_spec, Option.some.sizeOf_spec]
  omega

theorem sizeOf_properties (h : f.properties = some ps) : sizeOf ps < sizeOf f := by
  cases f
  obtain rfl := h
  simp only [mk.sizeOf_spec, Option.some.sizeOf_spec]
  omega

theorem sizeOf_patternProperties (h : f.patternProperties = some ps) : sizeOf ps < sizeOf f := by
  cases f
  obtain rfl := h
  simp only [mk.sizeOf_spec, Option.some.sizeOf_spec]
  omega

end Fragment

namespace Properties

/-- A new name is put behind the others. -/
theorem insert_of_notMem {ps : Properties} {name : String} (h : name ∉ ps.map Prod.fst)
    (f : Fragment) : ps.insert name f = ps ++ [(name, f)] := by
  induction ps with
  | nil => rfl
  | cons p rest ih =>
      obtain ⟨k, g⟩ := p
      obtain ⟨hne, hrest⟩ : name ≠ k ∧ name ∉ rest.map Prod.fst := by simpa using h
      rw [insert, if_neg (Ne.symm hne), ih hrest]
      rfl

/-- What is inserted under new names, once each, is put behind the others in order. -/
theorem foldl_insert_of_nodup {α : Type} {name : α → String} {fragment : α → Fragment}
    {as : List α} {ps : Properties} (h : (ps.map Prod.fst ++ as.map name).Nodup) :
    as.foldl (fun ps a => Properties.insert ps (name a) (fragment a)) ps
      = ps ++ as.map fun a => (name a, fragment a) := by
  induction as generalizing ps with
  | nil => exact (List.append_nil ps).symm
  | cons a rest ih =>
      have hnew : name a ∉ ps.map Prod.fst := by
        intro hmem
        exact (List.nodup_append.mp h).2.2 _ hmem _ List.mem_cons_self rfl
      rw [List.foldl_cons, insert_of_notMem hnew, ih (by simpa using h)]
      simp

/-- Properties whose names come once each are inserted as they are. -/
theorem ofList_of_nodup {ps : Properties} (h : (ps.map Prod.fst).Nodup) : ofList ps = ps := by
  have hfold : ofList ps = [] ++ ps.map fun p => (p.1, p.2) := foldl_insert_of_nodup h
  simpa using hfold

/-- The names of properties come once each. -/
theorem Distinct.nodup : ∀ {ps : Properties}, Distinct ps → (ps.map Prod.fst).Nodup
  | [], _ => .nil
  | (_, _) :: _, h => List.nodup_cons.mpr ⟨h.1, Distinct.nodup h.2.2⟩

end Properties

/-! ### Fragments that are readable -/

theorem BsonType.readable_toJson (t : BsonType) : t.toJson.readable = true := by
  cases t with
  | one kind => rfl
  | many kinds => exact Json.itemsReadable_map fun _ _ => rfl

mutual
/-- Nothing in the JSON of a fragment is unreadable. -/
theorem Fragment.readable_toJson (f : Fragment) (h : f.Distinct) : f.toJson.readable = true := by
  obtain ⟨howns, hitem, hproperty, hpattern⟩ := f.distinct_iff.mp h
  have htype : Json.slotReadable (f.type.map JsonType.toJson) = true :=
    Json.slotReadable_map fun _ _ => rfl
  have hbson := Json.slotReadable_map fun t (_ : f.bsonType = some t) => t.readable_toJson
  have hitems :=
    Json.slotReadable_map fun g (hg : f.items = some g) => g.readable_toJson (hitem g hg)
  have hproperties : Json.slotReadable (f.properties.map Properties.toJson) = true :=
    Json.slotReadable_map fun ps hps => Properties.readable_toMembers ps (hproperty ps hps)
  have hpatterns : Json.slotReadable (f.patternProperties.map Properties.toJson) = true :=
    Json.slotReadable_map fun ps hps => Properties.readable_toMembers ps (hpattern ps hps)
  have hrequired := Json.slotReadable_map
    fun names (_ : f.required = some names) => Json.readable_strings names
  have hallowed := Json.slotReadable_map
    fun vs (_ : f.allowed = some vs) => Json.readable_values vs
  rw [Fragment.toJson_eq_given howns, Json.readable, Json.membersReadable_given f.length_slots]
  simp [Fragment.slots, htype, hbson, hitems, hproperties, hpatterns, hrequired, hallowed]
termination_by sizeOf f
decreasing_by
  · exact Fragment.sizeOf_items hg
  · exact Fragment.sizeOf_properties hps
  · exact Fragment.sizeOf_patternProperties hps
/-- Nothing in the JSON of properties is unreadable. -/
theorem Properties.readable_toMembers (ps : Properties) (h : Properties.Distinct ps) :
    Json.membersReadable (Properties.toMembers ps) = true := by
  match ps, h with
  | [], _ => rfl
  | (name, f) :: rest, h =>
      rw [Properties.toMembers, Json.membersReadable, f.readable_toJson h.2.1,
        Properties.readable_toMembers rest h.2.2]
      rfl
termination_by sizeOf ps
end

/-! ### Fragments that read back -/

/-- A fragment reads back if the fragments in it do. -/
theorem Fragment.readsBack_of {f : Fragment} (howns : f.OwnsAllowed)
    (hitems : ∀ g, f.items = some g → ReadsBack read? toJson g)
    (hproperties : ∀ ps, f.properties = some ps →
      ReadsBack Properties.read? Properties.toJson ps)
    (hpatterns : ∀ ps, f.patternProperties = some ps →
      ReadsBack Properties.read? Properties.toJson ps) :
    ReadsBack read? toJson f := by
  intro room b
  rw [toJson_eq_given howns]
  cases room with
  | zero => simp [read?, Json.depth]
  | succ room =>
      have hstring := f.stringLimits.ofSlots?_map room
      have hnumber := f.numberLimits.ofSlots?_map room
      rw [howns.1, Option.map_none] at hstring
      rw [howns.2, Option.map_none] at hnumber
      have hknown : ((given keywords f.slots).all fun m =>
          keywords.contains m.1 || (m.2.readable && decide (m.2.depth ≤ room))) = true :=
        List.all_eq_true.mpr fun m hm => by
          rw [List.contains_iff_mem.mpr (Json.mem_keys_of_mem_given hm), Bool.true_or]
      have hheads := Json.map_head?_given nodup_keywords f.length_slots
      have htype := optional_readsBack (fun t (_ : f.type = some t) => t.readsBack)
        (fun t => Json.string_ne_null t.name) room
      have hbson := optional_readsBack (fun t (_ : f.bsonType = some t) => t.readsBack)
        BsonType.toJson_ne_null room
      have hitem := optional_readsBack hitems toJson_ne_null room
      have hprops := optional_readsBack hproperties (fun ps => Json.object_ne_null _) room
      have hpats := optional_readsBack hpatterns (fun ps => Json.object_ne_null _) room
      have hrequired := optional_readsBack
        (fun names (_ : f.required = some names) => Json.readsBack_strings names)
        (fun names => Json.array_ne_null _) room
      have hallowed := Json.optional_values f.allowed room
      rw [Json.depth, Nat.add_le_add_iff_right, Json.membersDepth_given_le f.length_slots, read?,
        if_pos (by rw [hknown, Json.all_length_valuesOf_given nodup_keywords f.length_slots]; rfl)]
      -- what remains of the members is the slots found in them
      generalize given keywords f.slots = members at hheads ⊢
      simp only [keywords, slots, List.map_cons, List.map_nil, List.cons.injEq, and_true] at hheads
      simp only [hheads, htype, hbson, hitem, hprops, hpats, hrequired, hallowed,
        Json.optional_bool, hstring, hnumber, ArrayLimits.ofSlots?_map, ObjectLimits.ofSlots?_map,
        Option.bind_eq_bind, Option.bind_eq_some_iff, Option.pure_def]
      rw [forall_slotDepth_le]
      constructor
      · rintro ⟨_, ⟨h₁, rfl⟩, _, ⟨h₂, rfl⟩, _, ⟨h₃, rfl⟩, _, ⟨h₄, rfl⟩, _, ⟨h₅, rfl⟩, _, ⟨h₆, rfl⟩,
          _, ⟨⟩, _, ⟨h₇, rfl⟩, _, ⟨-, rfl⟩, _, ⟨-, rfl⟩, _, ⟨⟩, _, ⟨⟩, ⟨⟩⟩
        exact ⟨⟨h₁, h₂, h₃, h₄, h₅, h₆, h₇⟩, by cases f; rfl⟩
      · rintro ⟨⟨h₁, h₂, h₃, h₄, h₅, h₆, h₇⟩, rfl⟩
        cases b
        exact ⟨_, ⟨h₁, rfl⟩, _, ⟨h₂, rfl⟩, _, ⟨h₃, rfl⟩, _, ⟨h₄, rfl⟩, _, ⟨h₅, rfl⟩, _, ⟨h₆, rfl⟩,
          _, rfl, _, ⟨h₇, rfl⟩, _, ⟨Nat.zero_le _, rfl⟩, _, ⟨Nat.zero_le _, rfl⟩, _, rfl, _, rfl,
          rfl⟩

/-- Properties read back if each is found in its member. -/
theorem Properties.readsBack_of {ps : Properties} (hnodup : (ps.map Prod.fst).Nodup)
    (h : ∀ room qs,
      (toMembers ps).mapM (fun m => (Fragment.read? room m.2).map (m.1, ·)) = some qs ↔
        Json.membersDepth (toMembers ps) ≤ room ∧ qs = ps) :
    ReadsBack read? toJson ps := by
  intro room qs
  cases room with
  | zero => simp [toJson, read?, Json.depth]
  | succ room =>
      rw [toJson, read?, Option.map_eq_some_iff, Json.depth, Nat.add_le_add_iff_right]
      constructor
      · rintro ⟨_, hps, rfl⟩
        obtain ⟨hroom, rfl⟩ := (h room _).mp hps
        exact ⟨hroom, ofList_of_nodup hnodup⟩
      · rintro ⟨hroom, rfl⟩
        exact ⟨qs, (h room qs).mpr ⟨hroom, rfl⟩, ofList_of_nodup hnodup⟩

mutual
/-- **A fragment whose keys come once each reads back.** -/
theorem Fragment.readsBack (f : Fragment) (h : f.Distinct) :
    ReadsBack Fragment.read? Fragment.toJson f := by
  obtain ⟨howns, hitems, hproperties, hpatterns⟩ := f.distinct_iff.mp h
  refine Fragment.readsBack_of howns (fun g hg => ?_) (fun ps hps => ?_) (fun ps hps => ?_)
  · exact g.readsBack (hitems g hg)
  · have hdistinct := hproperties ps hps
    exact Properties.readsBack_of hdistinct.nodup (Properties.mapM_readsBack ps hdistinct)
  · have hdistinct := hpatterns ps hps
    exact Properties.readsBack_of hdistinct.nodup (Properties.mapM_readsBack ps hdistinct)
termination_by sizeOf f
decreasing_by
  · exact Fragment.sizeOf_items hg
  · exact Fragment.sizeOf_properties hps
  · exact Fragment.sizeOf_patternProperties hps
/-- Each property whose name comes once is found in its member. -/
theorem Properties.mapM_readsBack (ps : Properties) (h : Properties.Distinct ps) (room : Nat)
    (qs : Properties) :
    (Properties.toMembers ps).mapM (fun m => (Fragment.read? room m.2).map (m.1, ·)) = some qs ↔
      Json.membersDepth (Properties.toMembers ps) ≤ room ∧ qs = ps := by
  match ps, h with
  | [], _ => simp [Properties.toMembers, Json.membersDepth, eq_comm]
  | (name, f) :: rest, h =>
      have hf := f.readsBack h.2.1 room
      have hrest := Properties.mapM_readsBack rest h.2.2 room
      simp only [Properties.toMembers, List.mapM_cons, Option.bind_eq_bind, Option.pure_def,
        Option.bind_eq_some_iff, Option.map_eq_some_iff, hf, hrest, Json.membersDepth,
        Option.some.injEq]
      constructor
      · rintro ⟨_, ⟨_, ⟨hroom, rfl⟩, rfl⟩, _, ⟨hrooms, rfl⟩, rfl⟩
        exact ⟨Nat.max_le.mpr ⟨hroom, hrooms⟩, rfl⟩
      · rintro ⟨hroom, rfl⟩
        obtain ⟨hfirst, hmore⟩ := Nat.max_le.mp hroom
        exact ⟨_, ⟨f, ⟨hfirst, rfl⟩, rfl⟩, rest, ⟨hmore, rfl⟩, rfl⟩
termination_by sizeOf ps
end

/-- **Properties whose names come once each read back.** -/
theorem Properties.readsBack {ps : Properties} (h : Distinct ps) : ReadsBack read? toJson ps :=
  readsBack_of h.nodup (mapM_readsBack ps h)

end Schemata

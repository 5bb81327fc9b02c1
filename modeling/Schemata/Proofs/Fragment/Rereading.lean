import Schemata.Proofs.Fragment.Forms
import Schemata.Proofs.Json.Fitting

/-!
# Schemata — Proofs — Fragment — Rereading

What is read as a fragment or as properties can be written and read again.  Whatever the text, no
name comes twice at any level of what is read from it, since of a property given twice the later
fragment counts; and what is read is written within the room that it was read in.  Both are shown by
induction on the room, a level of the text at a time (`distinct_fits_of_read`).
-/

namespace Schemata

open Json (valuesOf optional list? Fits slotDepth)

theorem JsonType.fits : Fits read? toJson := Json.fits_of_scalar fun _ => rfl

theorem BsonKind.fits : Fits read? toJson := Json.fits_of_scalar fun _ => rfl

/-- One BSON type is a text and several are a list of texts. -/
theorem BsonType.fits : Fits read? toJson := by
  intro room j t h
  unfold read? at h
  split at h
  · obtain ⟨kinds, hkinds, rfl⟩ := Option.map_eq_some_iff.mp h
    exact Json.fits_list BsonKind.fits room _ kinds hkinds
  · obtain ⟨kind, -, rfl⟩ := Option.map_eq_some_iff.mp h
    exact Nat.zero_le room

/-- What is found in an optional slot was read there. -/
theorem Json.read_of_optional {α : Type} {read : Json → Option α} {slot : Option Json} {a : α}
    (h : optional read slot = some (some a)) : ∃ j, read j = some a := by
  unfold optional at h
  split at h
  · nomatch h
  · nomatch h
  · next j _ =>
      obtain ⟨b, hb, hba⟩ := Option.map_eq_some_iff.mp h
      exact ⟨j, Option.some.inj hba ▸ hb⟩

/-! ### One level -/

/-- Where no slot states allowed values, bounds hold none. -/
theorem StringLimits.allowed_of_ofSlots? {room : Nat} {minLength maxLength pattern : Option Json}
    {l : StringLimits} (h : ofSlots? room minLength maxLength pattern none = some l) :
    l.allowed = none := by
  simp only [ofSlots?, Option.bind_eq_bind, Option.bind_eq_some_iff, Option.pure_def] at h
  obtain ⟨_, -, _, -, _, -, _, ⟨⟩, ⟨⟩⟩ := h
  rfl

/-- Bounds that are read have no allowed values of their own. -/
theorem NumberLimits.allowed_of_ofSlots? {room : Nat}
    {minimum maximum exclusiveMinimum exclusiveMaximum multipleOf : Option Json} {l : NumberLimits}
    (h : ofSlots? room minimum maximum exclusiveMinimum exclusiveMaximum multipleOf none
      = some l) : l.allowed = none := by
  simp only [ofSlots?, Option.bind_eq_bind, Option.bind_eq_some_iff, Option.pure_def] at h
  obtain ⟨_, -, _, -, _, -, _, -, _, -, _, ⟨⟩, ⟨⟩⟩ := h
  rfl

/-- A fragment is read from the members of an object, slot by slot. -/
theorem Fragment.read?_cases {room : Nat} {j : Json} {f : Fragment} (h : read? room j = some f) :
    ∃ inner, room = inner + 1 ∧ ∃ slot : String → Option Json,
      optional (JsonType.read? inner) (slot "type") = some f.type ∧
      optional (BsonType.read? inner) (slot "bsonType") = some f.bsonType ∧
      optional (read? inner) (slot "items") = some f.items ∧
      optional (Properties.read? inner) (slot "properties") = some f.properties ∧
      optional (Properties.read? inner) (slot "patternProperties") = some f.patternProperties ∧
      optional (list? (fun _ => Json.string?) inner) (slot "required") = some f.required ∧
      optional (list? Json.value? inner) (slot "enum") = some f.allowed ∧ f.OwnsAllowed := by
  rw [read?.eq_def] at h
  split at h
  · next inner members =>
      split at h
      · simp only [Option.bind_eq_bind, Option.bind_eq_some_iff, Option.pure_def] at h
        obtain ⟨_, h₁, _, h₂, _, h₃, _, h₄, _, h₅, _, h₆, _, -, _, h₇, _, hstring, _, hnumber,
          _, -, _, -, ⟨⟩⟩ := h
        exact ⟨inner, rfl, fun k => (valuesOf members k).head?, h₁, h₂, h₃, h₄, h₅, h₆, h₇,
          StringLimits.allowed_of_ofSlots? hstring, NumberLimits.allowed_of_ofSlots? hnumber⟩
      · cases h
  · cases h

/-- Properties are read from the members of an object, each fragment from one of them. -/
theorem Properties.read?_cases {room : Nat} {j : Json} {ps : Properties}
    (h : read? room j = some ps) :
    ∃ inner, room = inner + 1 ∧ ∃ pairs : List (String × Fragment), ps = ofList pairs ∧
      ∀ p ∈ pairs, ∃ k, Fragment.read? inner k = some p.2 := by
  rw [read?.eq_def] at h
  split at h
  · next inner members =>
      obtain ⟨pairs, hpairs, rfl⟩ := Option.map_eq_some_iff.mp h
      refine ⟨inner, rfl, pairs, rfl, fun p hp => ?_⟩
      obtain ⟨m, -, hm⟩ := Json.exists_of_mapM hpairs hp
      obtain ⟨f, hf, rfl⟩ := Option.map_eq_some_iff.mp hm
      exact ⟨m.2, hf⟩
  · nomatch h

/-- The fragments of properties are those of the pairs that were inserted. -/
theorem Properties.mem_ofList {pairs : List (String × Fragment)} {p : String × Fragment}
    (h : p ∈ ofList pairs) : ∃ q ∈ pairs, p.2 = q.2 := by
  have hall : ∀ p ∈ ofList pairs, ∃ q ∈ pairs, p.2 = q.2 := by
    refine foldl_insert_induction (P := fun ps => ∀ p ∈ ps, ∃ q ∈ pairs, p.2 = q.2)
      (Q := fun f => ∃ q ∈ pairs, f = q.2) ?_ (by simp) fun q hq => ⟨q, hq, rfl⟩
    intro ps f name hps hf p hp
    rcases mem_insert hp with hp | rfl
    · exact hps p hp
    · exact hf
  exact hall p h

/-- Properties fit where each of their fragments does. -/
theorem Properties.membersDepth_toMembers_le {ps : Properties} {room : Nat} :
    Json.membersDepth (toMembers ps) ≤ room ↔ ∀ p ∈ ps, p.2.toJson.depth ≤ room := by
  induction ps with
  | nil => simp [toMembers, Json.membersDepth]
  | cons p rest ih => rw [toMembers, Json.membersDepth, Nat.max_le, ih, List.forall_mem_cons]

/-! ### All levels -/

/-- What is read has no name twice at any level, and is written within the room that it was read
in. -/
theorem distinct_fits_of_read (room : Nat) :
    (∀ j f, Fragment.read? room j = some f → f.Distinct ∧ f.toJson.depth ≤ room) ∧
    ∀ j ps, Properties.read? room j = some ps →
      Properties.Distinct ps ∧ (Properties.toJson ps).depth ≤ room := by
  induction room with
  | zero =>
      -- there is no room for a container
      refine ⟨fun j f h => ?_, fun j ps h => ?_⟩
      · obtain ⟨inner, hroom, -⟩ := Fragment.read?_cases h
        nomatch hroom
      · obtain ⟨inner, hroom, -⟩ := Properties.read?_cases h
        nomatch hroom
  | succ room ih =>
      obtain ⟨ihf, ihps⟩ := ih
      have hfits : Json.FitsIn Fragment.read? Fragment.toJson room := fun j f h => (ihf j f h).2
      have hfitsps : Json.FitsIn Properties.read? Properties.toJson room :=
        fun j ps h => (ihps j ps h).2
      refine ⟨fun j f h => ?_, fun j ps h => ?_⟩
      · obtain ⟨_, hroom, slot, htype, hbson, hitems, hproperties, hpatterns, hrequired,
          hallowed, howns⟩ := Fragment.read?_cases h
        obtain rfl := Nat.succ.inj hroom
        constructor
        · refine f.distinct_iff.mpr ⟨howns, fun g hg => ?_, fun ps hps => ?_, fun ps hps => ?_⟩
          · obtain ⟨k, hk⟩ := Json.read_of_optional (hg ▸ hitems)
            exact (ihf k g hk).1
          · obtain ⟨k, hk⟩ := Json.read_of_optional (hps ▸ hproperties)
            exact (ihps k ps hk).1
          · obtain ⟨k, hk⟩ := Json.read_of_optional (hps ▸ hpatterns)
            exact (ihps k ps hk).1
        · rw [Fragment.toJson_eq_given howns, Json.depth, Nat.add_le_add_iff_right,
            Json.membersDepth_given_le f.length_slots, Fragment.forall_slotDepth_le]
          exact ⟨(JsonType.fits room).optional htype, (BsonType.fits room).optional hbson,
            hfits.optional hitems, hfitsps.optional hproperties, hfitsps.optional hpatterns,
            (Json.fits_strings room).optional hrequired, (Json.fits_values room).optional hallowed⟩
      · obtain ⟨_, hroom, pairs, rfl, hpairs⟩ := Properties.read?_cases h
        obtain rfl := Nat.succ.inj hroom
        constructor
        · refine Properties.distinct_ofList fun p hp => ?_
          obtain ⟨k, hk⟩ := hpairs p hp
          exact (ihf k p.2 hk).1
        · refine Nat.succ_le_succ (Properties.membersDepth_toMembers_le.mpr fun p hp => ?_)
          obtain ⟨q, hq, hpq⟩ := Properties.mem_ofList hp
          obtain ⟨k, hk⟩ := hpairs q hq
          exact hpq ▸ (ihf k q.2 hk).2

variable {room : Nat} {j : Json}

/-- A fragment that is read has no name twice at any level. -/
theorem Fragment.distinct_of_read {f : Fragment} (h : read? room j = some f) : f.Distinct :=
  ((distinct_fits_of_read room).1 j f h).1

/-- A fragment is written no deeper than what it was read from. -/
theorem Fragment.fits : Fits read? toJson := fun room j f h =>
  ((distinct_fits_of_read room).1 j f h).2

/-- Properties that are read have no name twice at any level. -/
theorem Properties.distinct_of_read {ps : Properties} (h : read? room j = some ps) : Distinct ps :=
  ((distinct_fits_of_read room).2 j ps h).1

/-- Properties are written no deeper than what they were read from. -/
theorem Properties.fits : Fits read? toJson := fun room j ps h =>
  ((distinct_fits_of_read room).2 j ps h).2

end Schemata

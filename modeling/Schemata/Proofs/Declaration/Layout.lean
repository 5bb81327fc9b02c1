import Schemata.Declaration.Basic
import Schemata.Proofs.Json.Fitting
import Schemata.Proofs.Json.Slots

/-!
# Schemata — Proofs — Declaration — Layout

How declarations are laid out in JSON, as one table.  A record has an entry for each of its keys,
which says whether the key is required, optional or has a default and how its value is laid out; the
entries of a kind depend on its name.  To rewrite JSON in a layout is to read it and to write what
was read (`Layout.rewrite?`).  A record is rewritten slot by slot (`Layout.rewrite?_record_cases`),
so what holds of the values of its keys can be carried to the record, and laws of all declarations
be shown once, of the table.
-/

namespace Schemata

open Json (valuesOf)

namespace Layout

/-- A value without keys that are defined. -/
inductive Leaf where
  | text
  | flag
  | count
  | number
  | tag (nested : Bool)
  | hostType
  | action
  | level
  | values
  | defaults

/-- A value with keys that are defined. -/
inductive Record where
  | kind (nested : Bool)
  | stamps
  | settings
  | options
  | field
  | object
  | model
  | file

/-- What holds for a key that is not given. -/
inductive Presence where
  | required
  | optional
  | byDefault (value : Json)

end Layout

/-- How a value is laid out in JSON. -/
inductive Layout where
  | leaf (l : Layout.Leaf)
  | list (item : Layout)
  | record (r : Layout.Record)
  | flagOr (r : Layout.Record)

namespace Layout

/-- What is defined of a key. -/
structure Entry where
  key : String
  presence : Presence
  layout : Layout

/-- The layout of a list of declared fields. -/
def fields : Layout := .list (.record .field)

/-- The entries that a kind of the given name has beside its name. -/
def kindEntries? : String → Option (List Entry)
  | "string" => some [⟨"minLength", .optional, .leaf .count⟩,
      ⟨"maxLength", .optional, .leaf .count⟩, ⟨"pattern", .optional, .leaf .text⟩,
      ⟨"enum", .optional, .leaf .values⟩]
  | "number" => some [⟨"minimum", .optional, .leaf .number⟩, ⟨"maximum", .optional, .leaf .number⟩,
      ⟨"exclusiveMinimum", .optional, .leaf .number⟩,
      ⟨"exclusiveMaximum", .optional, .leaf .number⟩, ⟨"multipleOf", .optional, .leaf .number⟩,
      ⟨"enum", .optional, .leaf .values⟩]
  | "boolean" | "date" | "binary" | "objectId" | "any" => some []
  | "array" => some [⟨"item", .optional, .record (.kind true)⟩,
      ⟨"minItems", .optional, .leaf .count⟩, ⟨"maxItems", .optional, .leaf .count⟩,
      ⟨"uniqueItems", .optional, .leaf .flag⟩]
  | "object" => some [⟨"object", .optional, .leaf .text⟩,
      ⟨"minProperties", .optional, .leaf .count⟩, ⟨"maxProperties", .optional, .leaf .count⟩]
  | "objectGeneric" => some [⟨"value", .optional, .record (.kind true)⟩,
      ⟨"pattern", .optional, .leaf .text⟩, ⟨"minProperties", .optional, .leaf .count⟩,
      ⟨"maxProperties", .optional, .leaf .count⟩]
  | "enum" => some [⟨"values", .required, .leaf .values⟩]
  | _ => none

/-- The name of a kind, which comes first. -/
def tagEntry (nested : Bool) : Entry := ⟨"kind", .required, .leaf (.tag nested)⟩

/-- The entries of settings. -/
def settingsEntries : List Entry :=
  [⟨"timestamps", .byDefault (.bool false), .flagOr .stamps⟩,
    ⟨"defaults", .optional, .leaf .defaults⟩,
    ⟨"validationAction", .byDefault (.string "error"), .leaf .action⟩,
    ⟨"validationLevel", .byDefault (.string "strict"), .leaf .level⟩]

/-- The entries of a record, in the order of their places; a kind is told by its name. -/
def Record.entries? : Record → Json → Option (List Entry)
  | .kind nested, j => (Kind.tagged? nested j).bind fun (name, _) =>
      (kindEntries? name).map (tagEntry nested :: ·)
  | .stamps, _ => some [⟨"createdAt", .byDefault (.string "createdAt"), .leaf .text⟩,
      ⟨"updatedAt", .byDefault (.string "updatedAt"), .leaf .text⟩]
  | .settings, _ => some settingsEntries
  | .options, _ => some [⟨"type", .optional, .record (.kind false)⟩,
      ⟨"required", .byDefault (.bool false), .leaf .flag⟩]
  | .field, _ => some [⟨"name", .required, .leaf .text⟩, ⟨"declared", .optional, .leaf .hostType⟩,
      ⟨"type", .optional, .record (.kind false)⟩,
      ⟨"required", .byDefault (.bool false), .leaf .flag⟩]
  | .object, _ => some [⟨"name", .required, .leaf .text⟩,
      ⟨"fields", .byDefault (.array []), fields⟩]
  | .model, _ => some (⟨"name", .required, .leaf .text⟩ ::
      ⟨"fields", .byDefault (.array []), fields⟩ :: settingsEntries)
  | .file, _ => some [⟨"objects", .byDefault (.array []), .list (.record .object)⟩,
      ⟨"model", .optional, .record .model⟩]

/-! ### Rewriting -/

/-- Reads a leaf and writes what was read. -/
def Leaf.rewrite? (room : Nat) : Leaf → Json → Option Json
  | .text, j       => j.string?.map .string
  | .flag, j       => j.bool?.map .bool
  | .count, j      => j.count?.map Json.count
  | .number, j     => j.number?.map .number
  | .tag nested, j => (Kind.tag? nested j).map .string
  | .hostType, j   => (HostType.read? room j).map HostType.toJson
  | .action, j     => (ValidationAction.read? room j).map ValidationAction.toJson
  | .level, j      => (ValidationLevel.read? room j).map ValidationLevel.toJson
  | .values, j     => (Json.list? Json.value? room j).map Json.values
  | .defaults, j   => (Json.defaults? room j).map Defaults.json

/-- What is written under a key, if anything: what is read there, or the default. -/
def Entry.rewrite? (inner : Layout → Json → Option Json) (e : Entry) (slot : Option Json) :
    Option (Option Json) :=
  match e.presence with
  | .required        => (Json.required (inner e.layout) slot).map some
  | .optional        => Json.optional (inner e.layout) slot
  | .byDefault value => (Json.withDefault value (inner e.layout) slot).map some

/-- The object with the entries under which something is written. -/
def written (row : List (Entry × Option Json)) : Json :=
  .object (row.filterMap fun (e, slot) => slot.map (e.key, ·))

/-- What is written of a record's slots, each by its entry. -/
def row? (inner : Layout → Json → Option Json) (entries : List Entry) (slots : List (Option Json)) :
    Option (List (Entry × Option Json)) :=
  (entries.zip slots).mapM fun p => (p.1.rewrite? inner p.2).map (p.1, ·)

/-- Reads a record and writes what was read. -/
def Record.rewrite? (inner : Layout → Json → Option Json) (r : Record) (j : Json) :
    Option Json := do
  let entries ← r.entries? j
  let slots ← Json.record? true (entries.map Entry.key) j
  (row? inner entries slots).map written

/-- Reads JSON that is laid out so and writes what was read. -/
def rewrite? : Nat → Layout → Json → Option Json
  | room, .leaf l, j                   => l.rewrite? room j
  | _, .flagOr _, .bool on             => some (.bool on)
  | room + 1, .list item, .array items => (items.mapM (rewrite? room item)).map .array
  | room + 1, .record r, j             => r.rewrite? (rewrite? room) j
  | room + 1, .flagOr r, j             => r.rewrite? (rewrite? room) j
  | _, _, _                            => none

theorem rewrite?_leaf (room : Nat) (l : Leaf) (j : Json) :
    rewrite? room (.leaf l) j = l.rewrite? room j := by
  cases room <;> rfl

theorem rewrite?_flagOr {room : Nat} {r : Record} {j : Json} (h : ∀ on, j ≠ .bool on) :
    rewrite? room (.flagOr r) j = rewrite? room (.record r) j := by
  cases j with
  | bool on => exact absurd rfl (h on)
  | null | number _ | string _ | array _ | object _ | unreadable => cases room <;> rfl

/-- A truth value is rewritten as it is, and anything else as a record. -/
theorem rewrite?_flagOr_cases {room : Nat} {r : Record} {j k : Json}
    (h : rewrite? room (.flagOr r) j = some k) :
    (∃ on, j = .bool on ∧ k = .bool on) ∨
      ((∀ on, j ≠ .bool on) ∧ rewrite? room (.record r) j = some k) := by
  by_cases hbool : ∃ on, j = .bool on
  · obtain ⟨on, rfl⟩ := hbool
    have hon : rewrite? room (.flagOr r) (.bool on) = some (.bool on) := by cases room <;> rfl
    exact .inl ⟨on, rfl, Option.some.inj (h.symm.trans hon)⟩
  · have hj : ∀ on, j ≠ .bool on := fun on he => hbool ⟨on, he⟩
    exact .inr ⟨hj, (rewrite?_flagOr hj).symm.trans h⟩

/-! ### One level -/

/-- A value that an entry holds: not the null of a setting that is left out. -/
def Entry.Holds (e : Entry) (j : Json) : Prop := e.presence = .optional → j ≠ .null

section Level

variable {inner : Layout → Json → Option Json} {entries : List Entry} {slots : List (Option Json)}
  {row : List (Entry × Option Json)} {e : Entry} {slot slot' : Option Json} {j j' : Json}

/-- What is given under a key is null and left out, or is rewritten in the layout of the key. -/
theorem Entry.rewrite?_some (h : e.rewrite? inner (some j) = some slot') :
    (e.presence = .optional ∧ j = .null ∧ slot' = none) ∨
      (e.Holds j ∧ ∃ j', slot' = some j' ∧ inner e.layout j = some j') := by
  unfold Entry.rewrite? at h
  split at h
  · next hp =>
      obtain ⟨j', hj', rfl⟩ := Option.map_eq_some_iff.mp h
      exact .inr ⟨fun he => (nomatch hp.symm.trans he), j', rfl, hj'⟩
  · next hp =>
      unfold Json.optional at h
      split at h
      · next he => cases he
      · next he =>
          obtain rfl := Option.some.inj he
          exact .inl ⟨hp, rfl, (Option.some.inj h).symm⟩
      · next hnull he =>
          obtain rfl := Option.some.inj he
          obtain ⟨j', hj', rfl⟩ := Option.map_eq_some_iff.mp h
          exact .inr ⟨fun _ hj => hnull hj, j', rfl, hj'⟩
  · next hp =>
      obtain ⟨j', hj', rfl⟩ := Option.map_eq_some_iff.mp h
      exact .inr ⟨fun he => (nomatch hp.symm.trans he), j', rfl, hj'⟩

/-- What an entry holds is rewritten in the layout of its key. -/
theorem Entry.Holds.rewritten (hvalue : e.Holds j) (h : e.rewrite? inner (some j) = some slot') :
    ∃ j', slot' = some j' ∧ inner e.layout j = some j' := by
  rcases Entry.rewrite?_some h with ⟨hp, hnull, -⟩ | ⟨-, hj'⟩
  · exact absurd hnull (hvalue hp)
  · exact hj'

/-- What is written under a key that is not given is its default. -/
theorem Entry.rewrite?_none (h : e.rewrite? inner none = some (some j')) :
    e.presence = .byDefault j' := by
  unfold Entry.rewrite? at h
  split at h
  · cases h
  · cases h
  · next hp => rw [hp, Option.some.inj (Option.some.inj h)]

theorem mem_row (hrow : row? inner entries slots = some row) (h : (e, slot') ∈ row) :
    ∃ slot, (e, slot) ∈ entries.zip slots ∧ e.rewrite? inner slot = some slot' := by
  obtain ⟨⟨e', slot⟩, hmem, hp⟩ := Json.exists_of_mapM hrow h
  obtain ⟨_, hslot, he⟩ := Option.map_eq_some_iff.mp hp
  obtain ⟨rfl, rfl⟩ := Prod.mk.inj he
  exact ⟨slot, hmem, hslot⟩

theorem exists_row (hrow : row? inner entries slots = some row)
    (h : (e, slot) ∈ entries.zip slots) :
    ∃ slot', e.rewrite? inner slot = some slot' ∧ (e, slot') ∈ row := by
  obtain ⟨p, hp, hrewrite⟩ := Json.exists_of_mem_mapM hrow h
  obtain ⟨slot', hslot, rfl⟩ := Option.map_eq_some_iff.mp hrewrite
  exact ⟨slot', hslot, hp⟩

/-- The entries of a row come in order, each once. -/
theorem map_fst_row (hrow : row? inner entries slots = some row)
    (hlen : slots.length = entries.length) : row.map Prod.fst = entries := by
  have hsame : List.Forall₂ (· = ·) ((entries.zip slots).map Prod.fst) (row.map Prod.fst) := by
    rw [List.forall₂_map_left_iff, List.forall₂_map_right_iff]
    refine (Json.forall₂_of_mapM hrow).imp fun p q hp => ?_
    obtain ⟨_, -, rfl⟩ := Option.map_eq_some_iff.mp hp
    rfl
  rw [List.forall₂_eq_eq_eq, List.map_fst_zip (Nat.le_of_eq hlen.symm)] at hsame
  exact hsame.symm

theorem mem_written {members : List (String × Json)} (h : written row = .object members)
    {m : String × Json} : m ∈ members ↔ ∃ e, (e, some m.2) ∈ row ∧ e.key = m.1 := by
  obtain rfl := Json.object.inj h
  obtain ⟨key, j⟩ := m
  simp only [List.mem_filterMap, Option.map_eq_some_iff, Prod.mk.injEq]
  constructor
  · rintro ⟨⟨e, slot⟩, hmem, j', rfl, rfl, rfl⟩
    exact ⟨e, hmem, rfl⟩
  · rintro ⟨e, hmem, rfl⟩
    exact ⟨(e, some j), hmem, j, rfl, rfl, rfl⟩

theorem nodup_written {members : List (String × Json)} (h : written row = .object members)
    (hrow : (row.map fun p => p.1.key).Nodup) : (members.map Prod.fst).Nodup := by
  obtain rfl := Json.object.inj h
  refine List.Nodup.sublist ?_ hrow
  clear h hrow
  induction row with
  | nil => exact .slnil
  | cons p rest ih =>
      obtain ⟨e, slot⟩ := p
      cases slot with
      | none => exact ih.cons _
      | some j => exact ih.cons_cons _

end Level

/-! ### Records -/

theorem kind_notMem_kindEntries {name : String} {entries : List Entry}
    (h : kindEntries? name = some entries) : "kind" ∉ entries.map Entry.key := by
  unfold kindEntries? at h
  split at h <;> cases h
  all_goals simp

/-- The keys that are defined of a record are different. -/
theorem Record.nodup_entries {r : Record} {j : Json} {entries : List Entry}
    (h : r.entries? j = some entries) : (entries.map Entry.key).Nodup := by
  unfold Record.entries? at h
  split at h
  · obtain ⟨⟨name, settings⟩, -, h⟩ := Option.bind_eq_some_iff.mp h
    obtain ⟨others, hothers, rfl⟩ := Option.map_eq_some_iff.mp h
    have hkind := kind_notMem_kindEntries hothers
    refine List.nodup_cons.mpr ⟨hkind, ?_⟩
    unfold kindEntries? at hothers
    split at hothers <;> cases hothers
    all_goals simp
  all_goals
    obtain rfl := Option.some.inj h
    decide

/-- Each entry of an object has what is given under its key as its slot. -/
theorem zip_slots {members : List (String × Json)} {entries : List Entry}
    {slots : List (Option Json)}
    (hslots : Json.record? true (entries.map Entry.key) (.object members) = some slots) :
    entries.zip slots = entries.map fun e => (e, (valuesOf members e.key).head?) := by
  obtain ⟨-, -, rfl⟩ := Json.record?_object hslots
  rw [List.map_map]
  have hzip : (entries.map id).zip (entries.map fun e => (valuesOf members e.key).head?) = _ :=
    List.zip_map'
  rwa [List.map_id] at hzip

/-- What is given under a key of an object is rewritten by the entry of the key. -/
theorem exists_row_of_member {inner : Layout → Json → Option Json} {entries : List Entry}
    {slots : List (Option Json)} {row : List (Entry × Option Json)}
    {members : List (String × Json)} {e : Entry} {j : Json}
    (hslots : Json.record? true (entries.map Entry.key) (.object members) = some slots)
    (hrow : row? inner entries slots = some row) (he : e ∈ entries)
    (hj : (e.key, j) ∈ members) :
    ∃ slot, e.rewrite? inner (some j) = some slot ∧ (e, slot) ∈ row := by
  refine exists_row hrow (zip_slots hslots ▸ List.mem_map.mpr ⟨e, he, ?_⟩)
  rw [(Json.head?_valuesOf (Json.record?_object hslots).1).mpr hj]

/-- A place that is filled is so whatever follows. -/
theorem mem_zip_append {e : Entry} {entries : List Entry} {items : List Json} {j : Json}
    (h : (e, j) ∈ entries.zip items) (more : List (Option Json)) :
    (e, some j) ∈ entries.zip (items.map some ++ more) := by
  induction entries generalizing items with
  | nil => nomatch h
  | cons e' entries ih =>
      match items, h with
      | j' :: items, h =>
          rw [List.zip_cons_cons, List.mem_cons] at h
          rw [List.map_cons, List.cons_append, List.zip_cons_cons, List.mem_cons]
          exact h.imp (fun he => by rw [(Prod.mk.inj he).1, (Prod.mk.inj he).2]) ih

/-- A record is rewritten slot by slot. -/
theorem rewrite?_record_cases {room : Nat} {r : Record} {j j' : Json}
    (h : rewrite? room (.record r) j = some j') :
    ∃ inner, room = inner + 1 ∧ ∃ entries slots row, r.entries? j = some entries ∧
      Json.record? true (entries.map Entry.key) j = some slots ∧
      row? (rewrite? inner) entries slots = some row ∧ j' = written row := by
  cases room with
  | zero => cases h
  | succ inner =>
      rw [rewrite?] at h
      obtain ⟨entries, hentries, h⟩ := Option.bind_eq_some_iff.mp h
      obtain ⟨slots, hslots, h⟩ := Option.bind_eq_some_iff.mp h
      obtain ⟨row, hrow, rfl⟩ := Option.map_eq_some_iff.mp h
      exact ⟨inner, rfl, entries, slots, row, hentries, hslots, hrow, rfl⟩

end Layout

end Schemata

import Schemata.Kind.Codec
import Schemata.Proofs.Fragment.Reading

/-!
# Schemata — Proofs — Kind — Reading

A kind is read back from its JSON, below the top level and at it, just where there is room for its
containers (`Kind.readsBack_nested`, `Kind.readsBack`).  Every kind is written as its name and a
slot for each of its keys, of which only that of an inner kind or of allowed values can hold
containers.
-/

namespace Schemata

open Json (given ReadsBack optional_readsBack slotDepth member_append_given member_eq_given)

namespace Kind

/-! ### Keys and slots -/

/-- The keys of the settings that a kind has beside its name, in order. -/
def keys : Kind → List String
  | .string _   => ["minLength", "maxLength", "pattern", "enum"]
  | .number _   =>
    ["minimum", "maximum", "exclusiveMinimum", "exclusiveMaximum", "multipleOf", "enum"]
  | .boolean | .date | .binary | .objectId | .any => []
  | .array _ _  => ["item", "minItems", "maxItems", "uniqueItems"]
  | .object _ _ => ["object", "minProperties", "maxProperties"]
  | .map _ _ _  => ["value", "pattern", "minProperties", "maxProperties"]
  | .choice _   => ["values"]

/-- The slot of each key. -/
def slots : Kind → List (Option Json)
  | .string limits =>
    [limits.minLength.map Json.count, limits.maxLength.map Json.count,
      limits.pattern.map .string, limits.allowed.map Json.values]
  | .number limits =>
    [limits.minimum.map .number, limits.maximum.map .number, limits.exclusiveMinimum.map .number,
      limits.exclusiveMaximum.map .number, limits.multipleOf.map .number,
      limits.allowed.map Json.values]
  | .boolean | .date | .binary | .objectId | .any => []
  | .array item limits =>
    [item.map toJson, limits.minItems.map Json.count, limits.maxItems.map Json.count,
      limits.uniqueItems.map .bool]
  | .object reference limits =>
    [reference.map .string, limits.minProperties.map Json.count,
      limits.maxProperties.map Json.count]
  | .map value pattern limits =>
    [value.map toJson, pattern.map .string, limits.minProperties.map Json.count,
      limits.maxProperties.map Json.count]
  | .choice values => [some (Json.values values)]

/-- The kind of the items or values of a kind. -/
def inner? : Kind → Option Kind
  | .array item _  => item
  | .map value _ _ => value
  | _              => none

theorem length_slots (k : Kind) : k.keys.length = k.slots.length := by
  cases k <;> rfl

theorem nodup_keys (k : Kind) : k.keys.Nodup := by
  cases k <;> simp [keys]

theorem kind_notMem_keys (k : Kind) : "kind" ∉ k.keys := by
  cases k <;> simp [keys]

theorem toJson_eq_given (k : Kind) :
    k.toJson = .object (("kind", .string k.name) :: given k.keys k.slots) := by
  cases k with
  | string limits =>
      simp only [toJson, StringLimits.members, List.append_assoc]
      rw [member_eq_given "enum"]
      simp only [member_append_given]
      rfl
  | number limits =>
      simp only [toJson, NumberLimits.members, List.append_assoc]
      rw [member_eq_given "enum"]
      simp only [member_append_given]
      rfl
  | boolean | date | binary | objectId | any => rw [toJson]; rfl
  | array item limits =>
      cases item <;>
      · simp only [toJson, ArrayLimits.members, List.append_assoc]
        rw [member_eq_given "uniqueItems"]
        simp only [member_append_given]
        rfl
  | object reference limits =>
      simp only [toJson, ObjectLimits.members, List.cons_append]
      rw [member_eq_given "maxProperties"]
      simp only [member_append_given]
      rfl
  | map value pattern limits =>
      cases value <;>
      · simp only [toJson, ObjectLimits.members, List.cons_append]
        rw [member_eq_given "maxProperties"]
        simp only [member_append_given]
        rfl
  | choice values => rw [toJson]; rfl

theorem toJson_ne_null (k : Kind) : k.toJson ≠ .null := by
  rw [toJson_eq_given]
  exact Json.object_ne_null _

/-- How deep a kind is, is told by its slots. -/
theorem depth_toJson_le (k : Kind) (room : Nat) :
    k.toJson.depth ≤ room + 1 ↔ ∀ slot ∈ k.slots, slotDepth slot ≤ room := by
  rw [toJson_eq_given, Json.depth, Nat.add_le_add_iff_right, Json.membersDepth, Nat.max_le,
    Json.membersDepth_given_le k.length_slots]
  simp [Json.depth]

/-- The name of a kind is found among its members, and the settings are the others. -/
theorem tagged?_toJson (nested : Bool) (k : Kind) :
    tagged? nested k.toJson = some (k.name, .object (given k.keys k.slots)) := by
  have hothers : ∀ m ∈ given k.keys k.slots, m.1 ≠ "kind" := fun m hm he =>
    k.kind_notMem_keys (he ▸ Json.mem_keys_of_mem_given hm)
  have htag : Json.valuesOf (("kind", .string k.name) :: given k.keys k.slots) "kind"
      = [.string k.name] := by
    have hnone : Json.valuesOf (given k.keys k.slots) "kind" = [] :=
      Json.valuesOf_given_of_notMem k.kind_notMem_keys
    unfold Json.valuesOf at hnone ⊢
    rw [List.filter_cons_of_pos (by simp), List.map_cons, hnone]
  have hrest : (("kind", Json.string k.name) :: given k.keys k.slots).filter (·.1 ≠ "kind")
      = given k.keys k.slots := by
    rw [List.filter_cons_of_neg (by simp), List.filter_eq_self]
    simpa using hothers
  rw [toJson_eq_given, tagged?, htag]
  simp only [hrest]
  rfl

/-! ### Kinds that read back -/

/-- The settings of a kind are read back if its inner kind is. -/
theorem ofSettings?_slots {k : Kind}
    (hinner : ∀ g, k.inner? = some g → ReadsBack readNested? toJson g) (room : Nat) (b : Kind) :
    ofSettings? (readNested? room) room k.name (.object (given k.keys k.slots)) = some b ↔
      (∀ slot ∈ k.slots, slotDepth slot ≤ room) ∧ b = k := by
  have hslots : Json.record? true k.keys (.object (given k.keys k.slots)) = some k.slots :=
    Json.slots?_given true k.nodup_keys k.length_slots
  have hkind := optional_readsBack hinner toJson_ne_null room
  cases k with
  | string limits =>
      simp only [keys, slots] at hslots ⊢
      simp only [name, ofSettings?, hslots, Option.bind_eq_bind, Option.bind_some, Option.pure_def]
      exact Json.bind_eq_some_iff_of_reads (limits.ofSlots?_map room) (by simp)
  | number limits =>
      simp only [keys, slots] at hslots ⊢
      simp only [name, ofSettings?, hslots, Option.bind_eq_bind, Option.bind_some, Option.pure_def]
      exact Json.bind_eq_some_iff_of_reads (limits.ofSlots?_map room) (by simp)
  | boolean | date | binary | objectId | any =>
      simp only [keys, slots] at hslots ⊢
      simp [name, ofSettings?, hslots, eq_comm]
  | array item limits =>
      simp only [keys, slots, inner?] at hslots hkind ⊢
      simp only [name, ofSettings?, hslots, Option.bind_eq_bind, Option.bind_some,
        ArrayLimits.ofSlots?_map, Option.pure_def]
      exact Json.bind_eq_some_iff_of_reads hkind (by simp)
  | object reference limits =>
      simp only [keys, slots] at hslots ⊢
      simp [name, ofSettings?, hslots, ObjectLimits.ofSlots?_map, eq_comm]
  | map value pattern limits =>
      simp only [keys, slots, inner?] at hslots hkind ⊢
      simp only [name, ofSettings?, hslots, Option.bind_eq_bind, Option.bind_some,
        ObjectLimits.ofSlots?_map, Json.optional_string, Option.pure_def]
      exact Json.bind_eq_some_iff_of_reads hkind (by simp)
  | choice values =>
      have hvalues := Json.readsBack_values values room
      simp only [keys, slots] at hslots ⊢
      simp only [name, ofSettings?, hslots, Option.bind_eq_bind, Option.bind_some, Json.required,
        Option.pure_def]
      exact Json.bind_eq_some_iff_of_reads hvalues (by simp)

theorem sizeOf_inner {k g : Kind} (h : k.inner? = some g) : sizeOf g < sizeOf k := by
  cases k with
  | array item limits =>
      obtain rfl : item = some g := h
      simp +arith
  | map value pattern limits =>
      obtain rfl : value = some g := h
      simp +arith
  | string | number | boolean | date | binary | objectId | any | object | choice => nomatch h

/-- Nothing in the JSON of a kind is unreadable. -/
theorem readable_toJson (k : Kind) : k.toJson.readable = true := by
  have hinner := Json.slotReadable_map fun g (hg : k.inner? = some g) => g.readable_toJson
  have hallowed := fun allowed : Option (List Value) =>
    Json.slotReadable_map fun vs (_ : allowed = some vs) => Json.readable_values vs
  rw [toJson_eq_given, Json.readable, Json.membersReadable,
    Json.membersReadable_given k.length_slots]
  cases k with
  | string limits | number limits => simp [slots, Json.readable, hallowed]
  | boolean | date | binary | objectId | any => simp [slots, Json.readable]
  | array item limits => simpa [slots, Json.readable, inner?] using hinner
  | object reference limits => simp [slots, Json.readable]
  | map value pattern limits => simpa [slots, Json.readable, inner?] using hinner
  | choice values => simp [slots, Json.readable, Json.readable_values]
termination_by sizeOf k
decreasing_by exact sizeOf_inner hg

/-- **A kind below the top level reads back.** -/
theorem readsBack_nested (k : Kind) : ReadsBack readNested? toJson k := by
  intro room b
  cases room with
  | zero => simp [readNested?, toJson_eq_given, Json.depth]
  | succ room =>
      have hslots := ofSettings?_slots (fun g (_ : k.inner? = some g) => g.readsBack_nested) room b
      rw [readNested?, tagged?_toJson, Option.bind_some, hslots, depth_toJson_le]
termination_by sizeOf k
decreasing_by exact sizeOf_inner ‹_›

/-- **A kind reads back.** -/
theorem readsBack (k : Kind) : ReadsBack read? toJson k := by
  intro room b
  cases room with
  | zero => simp [read?, toJson_eq_given, Json.depth]
  | succ room =>
      have hslots := ofSettings?_slots (fun g (_ : k.inner? = some g) => g.readsBack_nested) room b
      rw [read?, tagged?_toJson, Option.bind_some, hslots, depth_toJson_le]

end Kind

end Schemata

import Schemata.Declaration.Basic
import Schemata.Proofs.Document.Reading
import Schemata.Proofs.Kind.Reading

/-!
# Schemata — Proofs — Declaration — Reading

What declares a field, an object or a model is read back from its JSON just where there is room for
the containers in that, and so are the settings of a model and the options of a field.  Each is a
record: it is written as its keys with a slot for each, and found again in the slots
(`Json.readsBack_record`).
-/

namespace Schemata

open Json (given ReadsBack optional_readsBack slotDepth member_append_given member_eq_given)

/-- A record reads back if it is found in its slots just where there is room for each of them. -/
theorem Json.readsBack_record {α : Type} {read : Nat → Json → Option α} {write : α → Json} {a : α}
    {keys : List String} {slots : List (Option Json)} {fill : Nat → List (Option Json) → Option α}
    (hzero : ∀ j, read 0 j = none)
    (hsucc : ∀ room j, read (room + 1) j = (record? true keys j).bind (fill room))
    (hwrite : write a = .object (given keys slots)) (hkeys : keys.Nodup)
    (hlen : keys.length = slots.length)
    (hfill : ∀ room b, fill room slots = some b ↔
      (∀ slot ∈ slots, slotDepth slot ≤ room) ∧ b = a) : ReadsBack read write a := by
  intro room b
  rw [hwrite]
  cases room with
  | zero => simp [hzero, depth]
  | succ room =>
      rw [hsucc, record?, slots?_given true hkeys hlen, Option.bind_some, hfill, depth,
        Nat.add_le_add_iff_right, membersDepth_given_le hlen]

/-! ### Names of types and of timestamps -/

theorem HostType.readsBack (t : HostType) : ReadsBack read? toJson t :=
  Json.readsBack_of_scalar (fun _ => by cases t <;> rfl) rfl

/-- The names of timestamps read back. -/
theorem StampNames.readsBack (n : StampNames) : ReadsBack read? toJson n := by
  refine Json.readsBack_record (fun _ => rfl) (fun _ _ => rfl)
    (show n.toJson = .object (given ["createdAt", "updatedAt"]
      [some (.string n.created), some (.string n.updated)]) from rfl) (by decide) rfl ?_
  intro room b
  simp [Json.withDefault, Json.string?, Json.depth]
  exact eq_comm

/-- Timestamps read back, as a flag or as names. -/
theorem Timestamps.readsBack (t : Timestamps) : ReadsBack read? toJson t := by
  cases t with
  | enabled on => exact Json.readsBack_of_scalar (fun _ => rfl) rfl
  | named names =>
      intro room b
      have hread : read? room names.toJson = (StampNames.read? room names.toJson).map .named := rfl
      rw [toJson, hread, Option.map_eq_some_iff]
      simp only [names.readsBack room]
      constructor
      · rintro ⟨_, ⟨hroom, rfl⟩, rfl⟩
        exact ⟨hroom, rfl⟩
      · rintro ⟨hroom, rfl⟩
        exact ⟨names, ⟨hroom, rfl⟩, rfl⟩

/-- There is nothing unreadable in timestamps. -/
theorem Timestamps.readable_toJson (t : Timestamps) : t.toJson.readable = true := by
  cases t <;> rfl

/-! ### Settings -/

namespace Settings

/-- The slot of each key. -/
def slots (s : Settings) : List (Option Json) :=
  [some s.timestamps.toJson, s.defaults.map Defaults.json, some s.action.toJson,
    some s.level.toJson]

/-- The members of settings are given by their keys and slots. -/
theorem members_eq_given (s : Settings) : s.members = given keys s.slots := by
  obtain ⟨timestamps, defaults, action, level⟩ := s
  cases defaults <;> rfl

/-- Settings are found in their slots. -/
theorem ofSlots?_slots (s : Settings) (room : Nat) (b : Settings) :
    ofSlots? room (some s.timestamps.toJson) (s.defaults.map Defaults.json)
        (some s.action.toJson) (some s.level.toJson) = some b ↔
      (∀ slot ∈ s.slots, slotDepth slot ≤ room) ∧ b = s := by
  have htimestamps := s.timestamps.readsBack room
  have hdefaults := optional_readsBack
    (fun ds (_ : s.defaults = some ds) => Json.readsBack_defaults ds)
    (fun ds => Json.object_ne_null ds.members) room
  have haction := s.action.readsBack room
  have hlevel := s.level.readsBack room
  simp only [ofSlots?, Json.withDefault, Option.bind_eq_bind, Option.bind_eq_some_iff,
    htimestamps, hdefaults, haction, hlevel, Option.pure_def, slots, List.forall_mem_cons,
    Json.slotDepth_some]
  constructor
  · rintro ⟨_, ⟨h₁, rfl⟩, _, ⟨h₂, rfl⟩, _, ⟨h₃, rfl⟩, _, ⟨h₄, rfl⟩, ⟨⟩⟩
    exact ⟨⟨h₁, h₂, h₃, h₄, by simp⟩, rfl⟩
  · rintro ⟨⟨h₁, h₂, h₃, h₄, -⟩, rfl⟩
    exact ⟨_, ⟨h₁, rfl⟩, _, ⟨h₂, rfl⟩, _, ⟨h₃, rfl⟩, _, ⟨h₄, rfl⟩, rfl⟩

/-- Nothing in the slots of settings is unreadable. -/
theorem all_slotReadable (s : Settings) : s.slots.all Json.slotReadable = true := by
  have hdefaults := Json.slotReadable_map
    fun ds (_ : s.defaults = some ds) => Json.readable_defaults ds
  simp [slots, s.timestamps.readable_toJson, hdefaults]
  exact ⟨rfl, rfl⟩

/-- **Settings read back.** -/
theorem readsBack (s : Settings) : ReadsBack read? toJson s :=
  Json.readsBack_record (fun _ => rfl) (fun _ _ => rfl) (congrArg Json.object s.members_eq_given)
    (by decide) rfl s.ofSlots?_slots

theorem readable_toJson (s : Settings) : s.toJson.readable = true := by
  rw [toJson, members_eq_given, Json.readable, Json.membersReadable_given rfl, all_slotReadable]

end Settings

/-! ### Options and fields -/

namespace FieldOptions

theorem toJson_eq_given (o : FieldOptions) :
    o.toJson = .object (given ["type", "required"]
      [o.kind.map Kind.toJson, some (.bool o.required)]) := by
  rw [toJson, ← member_append_given]
  rfl

/-- **The options of a field read back.** -/
theorem readsBack (o : FieldOptions) : ReadsBack read? toJson o := by
  refine Json.readsBack_record (fun _ => rfl) (fun _ _ => rfl) o.toJson_eq_given (by decide) rfl ?_
  intro room b
  have hkind := optional_readsBack (fun k (_ : o.kind = some k) => k.readsBack)
    Kind.toJson_ne_null room
  simp only [Json.withDefault, Json.bool?, Option.bind_eq_bind, Option.bind_eq_some_iff, hkind,
    Option.pure_def, List.forall_mem_cons, Json.slotDepth_some]
  constructor
  · rintro ⟨_, ⟨hroom, rfl⟩, _, ⟨⟩, ⟨⟩⟩
    exact ⟨⟨hroom, Nat.zero_le _, by simp⟩, rfl⟩
  · rintro ⟨⟨hroom, -⟩, rfl⟩
    exact ⟨_, ⟨hroom, rfl⟩, _, rfl, rfl⟩

theorem readable_toJson (o : FieldOptions) : o.toJson.readable = true := by
  have hkind := Json.slotReadable_map fun k (_ : o.kind = some k) => k.readable_toJson
  rw [toJson_eq_given, Json.readable, Json.membersReadable_given rfl]
  simp [hkind]
  rfl

end FieldOptions

namespace Declaration

namespace Field

/-- The slot of each key. -/
def slots (f : Field) : List (Option Json) :=
  [some (.string f.name), f.declared.map HostType.toJson, f.kind.map Kind.toJson,
    some (.bool f.required)]

theorem toJson_eq_given (f : Field) :
    f.toJson = .object (given ["name", "declared", "type", "required"] f.slots) := by
  simp only [toJson, List.cons_append, List.append_assoc]
  rw [show [("required", Json.bool f.required)] = given ["required"] [some (.bool f.required)]
    from rfl, member_append_given, member_append_given]
  rfl

/-- **A declared field reads back.** -/
theorem readsBack (f : Field) : ReadsBack read? toJson f := by
  refine Json.readsBack_record (fun _ => rfl) (fun _ _ => rfl) f.toJson_eq_given (by decide) rfl ?_
  intro room b
  have hdeclared := optional_readsBack (fun t (_ : f.declared = some t) => t.readsBack)
    (fun t => Json.string_ne_null t.name) room
  have hkind := optional_readsBack (fun k (_ : f.kind = some k) => k.readsBack)
    Kind.toJson_ne_null room
  simp only [slots, Json.required, Json.withDefault, Json.string?, Json.bool?, Option.bind_eq_bind,
    Option.bind_some, Option.bind_eq_some_iff, hdeclared, hkind, Option.pure_def,
    List.forall_mem_cons, Json.slotDepth_some]
  constructor
  · rintro ⟨_, ⟨h₁, rfl⟩, _, ⟨h₂, rfl⟩, ⟨⟩⟩
    exact ⟨⟨Nat.zero_le _, h₁, h₂, Nat.zero_le _, by simp⟩, rfl⟩
  · rintro ⟨⟨-, h₁, h₂, -⟩, rfl⟩
    exact ⟨_, ⟨h₁, rfl⟩, _, ⟨h₂, rfl⟩, rfl⟩

theorem readable_toJson (f : Field) : f.toJson.readable = true := by
  have hdeclared := Json.slotReadable_map fun t (_ : f.declared = some t) =>
    show (HostType.toJson t).readable = true from rfl
  have hkind := Json.slotReadable_map fun k (_ : f.kind = some k) => k.readable_toJson
  rw [toJson_eq_given, Json.readable, Json.membersReadable_given rfl]
  simp [slots, hdeclared, hkind]
  exact ⟨rfl, rfl⟩

end Field

/-- Declared fields read back. -/
theorem readsBack_fields (fields : List Field) :
    ReadsBack (Json.list? Field.read?) fieldsToJson fields :=
  Json.readsBack_list fun f _ => f.readsBack

/-- There is nothing unreadable in fields. -/
theorem readable_fieldsToJson (fields : List Field) : (fieldsToJson fields).readable = true :=
  Json.itemsReadable_map fun f _ => f.readable_toJson

/-! ### Objects and models -/

namespace Object

theorem toJson_eq_given (o : Object) :
    o.toJson = .object (given ["name", "fields"]
      [some (.string o.name), some (fieldsToJson o.fields)]) := rfl

/-- **A declared object reads back.** -/
theorem readsBack (o : Object) : ReadsBack read? toJson o := by
  refine Json.readsBack_record (fun _ => rfl) (fun _ _ => rfl) o.toJson_eq_given (by decide) rfl ?_
  intro room b
  have hfields := readsBack_fields o.fields room
  simp only [Json.required, Json.withDefault, Json.string?, Option.bind_eq_bind, Option.bind_some,
    Option.pure_def]
  exact Json.bind_eq_some_iff_of_reads hfields (by simp [Json.depth])

theorem readable_toJson (o : Object) : o.toJson.readable = true := by
  rw [toJson_eq_given, Json.readable, Json.membersReadable_given rfl]
  simp [readable_fieldsToJson]
  rfl

end Object

namespace Model

theorem toJson_eq_given (m : Model) :
    m.toJson = .object (given (["name", "fields"] ++ Settings.keys)
      (some (.string m.name) :: some (fieldsToJson m.fields) :: m.settings.slots)) := by
  rw [toJson, Settings.members_eq_given]
  rfl

/-- **A declared model reads back.** -/
theorem readsBack (m : Model) : ReadsBack read? toJson m := by
  refine Json.readsBack_record (fun _ => rfl) (fun _ _ => rfl) m.toJson_eq_given (by decide) rfl ?_
  intro room b
  have hfields := readsBack_fields m.fields room
  have hsettings := m.settings.ofSlots?_slots room
  rw [List.forall_mem_cons, List.forall_mem_cons]
  simp only [Json.required, Json.withDefault, Json.string?, Option.bind_eq_bind, Option.bind_some,
    Option.bind_eq_some_iff, hfields, hsettings, Option.pure_def, Settings.slots]
  constructor
  · rintro ⟨_, ⟨h₁, rfl⟩, _, ⟨h₂, rfl⟩, ⟨⟩⟩
    exact ⟨⟨Nat.zero_le _, h₁, h₂⟩, rfl⟩
  · rintro ⟨⟨-, h₁, h₂⟩, rfl⟩
    exact ⟨_, ⟨h₁, rfl⟩, _, ⟨h₂, rfl⟩, rfl⟩

theorem readable_toJson (m : Model) : m.toJson.readable = true := by
  rw [toJson_eq_given, Json.readable, Json.membersReadable_given rfl, List.all_cons, List.all_cons,
    m.settings.all_slotReadable, Json.slotReadable_some, Json.slotReadable_some,
    readable_fieldsToJson]
  rfl

end Model

end Declaration

end Schemata

import Schemata.Document
import Schemata.Proofs.Fragment.Numbers
import Schemata.Proofs.Json.Rereading

/-!
# Schemata — Proofs — Document — Reading

The text of a document is read as the document with what each of its numbers is read as
(`Document.reread`), if no more containers are open in it at once than a reader allows, and is not
read at all otherwise (`Document.ofText?_text`).  That is the document itself just where its numbers
last (`Document.reread_eq_self_iff`).  Whatever its depth and its numbers, the text tells which
document it is (`Document.eq_of_text_eq`).
-/

namespace Schemata

open Json (given ReadsBack optional_readsBack slotDepth member_eq_given)

theorem ValidationAction.readsBack (a : ValidationAction) : ReadsBack read? toJson a :=
  Json.readsBack_of_scalar (fun _ => by cases a <;> rfl) rfl

theorem ValidationLevel.readsBack (l : ValidationLevel) : ReadsBack read? toJson l :=
  Json.readsBack_of_scalar (fun _ => by cases l <;> rfl) rfl

/-- An action is told by its name. -/
theorem ValidationAction.ofName?_name (a : ValidationAction) : ofName? a.name = some a := by
  cases a <;> rfl

/-- A level is told by its name. -/
theorem ValidationLevel.ofName?_name (l : ValidationLevel) : ofName? l.name = some l := by
  cases l <;> rfl

namespace Document

/-- The slot of each key. -/
def slots (d : Document) : List (Option Json) :=
  [some d.type.toJson, some d.properties.toJson, some (Json.strings d.required),
    some (.bool d.additionalProperties), some d.action.toJson, some d.level.toJson,
    d.defaults.map Defaults.json]

/-- A document is given by its keys and slots. -/
theorem toJson_eq_given (d : Document) : d.toJson = .object (given keys d.slots) := by
  rw [toJson, member_eq_given]
  rfl

theorem length_slots (d : Document) : keys.length = d.slots.length := rfl

theorem nodup_keys : keys.Nodup := by decide

/-- Nothing in the JSON of a document is unreadable. -/
theorem readable_toJson {d : Document} (h : Properties.Distinct d.properties) :
    d.toJson.readable = true := by
  have hproperties : d.properties.toJson.readable = true :=
    Properties.readable_toMembers d.properties h
  have hdefaults := Json.slotReadable_map
    fun ds (_ : d.defaults = some ds) => Json.readable_defaults ds
  rw [toJson_eq_given, Json.readable, Json.membersReadable_given d.length_slots]
  simp [slots, hproperties, hdefaults, Json.readable_strings]
  exact ⟨rfl, rfl, rfl, rfl⟩

/-- **A document whose names come once each reads back.** -/
theorem readsBack {d : Document} (h : Properties.Distinct d.properties) :
    ReadsBack read? toJson d := by
  intro room b
  rw [toJson_eq_given]
  cases room with
  | zero => simp [read?, Json.depth]
  | succ room =>
      have htype := d.type.readsBack room
      have hproperties := Properties.readsBack h room
      have hrequired := Json.readsBack_strings d.required room
      have haction := d.action.readsBack room
      have hlevel := d.level.readsBack room
      have hdefaults := optional_readsBack
        (fun ds (_ : d.defaults = some ds) => Json.readsBack_defaults ds)
        (fun ds => Json.object_ne_null ds.members) room
      rw [Json.depth, Nat.add_le_add_iff_right, Json.membersDepth_given_le d.length_slots, read?,
        Json.record?, Json.slots?_given false nodup_keys d.length_slots]
      simp only [slots, Json.required, Option.bind_eq_bind, Option.bind_some, htype, hproperties,
        hrequired, haction, hlevel, hdefaults, Json.bool?, Option.bind_eq_some_iff, Option.pure_def]
      simp only [List.forall_mem_cons, Json.slotDepth_some]
      constructor
      · rintro ⟨_, ⟨h₁, rfl⟩, _, ⟨h₂, rfl⟩, _, ⟨h₃, rfl⟩, _, ⟨h₄, rfl⟩, _, ⟨h₅, rfl⟩, _, ⟨h₆, rfl⟩,
          ⟨⟩⟩
        exact ⟨⟨h₁, h₂, h₃, Nat.zero_le _, h₄, h₅, h₆, by simp⟩, rfl⟩
      · rintro ⟨⟨h₁, h₂, h₃, -, h₄, h₅, h₆, -⟩, rfl⟩
        exact ⟨_, ⟨h₁, rfl⟩, _, ⟨h₂, rfl⟩, _, ⟨h₃, rfl⟩, _, ⟨h₄, rfl⟩, _, ⟨h₅, rfl⟩, _, ⟨h₆, rfl⟩,
          rfl⟩

/-! ### Numbers -/

/-- The document with what each of its numbers is read as. -/
def reread (d : Document) : Document :=
  { d with
    properties := Properties.reread d.properties
    defaults := d.defaults.map Defaults.reread }

/-- A document is read again as its properties and defaults are. -/
theorem rereading : Json.Rereading toJson reread := by
  intro d
  have hproperties : Properties.toJson (Properties.reread d.properties)
      = d.properties.toJson.mapNumbers Number.reread? := Properties.rereading d.properties
  have hrequired : (Json.strings d.required).mapNumbers Number.reread? = Json.strings d.required :=
    Json.reread_strings d.required
  have hdefaults : Json.Rereading Defaults.json Defaults.reread := fun _ => rfl
  rw [Json.reread, toJson, toJson, reread, Json.mapNumbers, Json.mapMembers_append,
    Json.mapMembers_member hdefaults]
  simp only [Json.mapMembers, hproperties, hrequired]
  rfl

variable {d d' : Document}

/-- Where names come once in a document they still do. -/
theorem distinct_reread (h : Properties.Distinct d.properties) :
    Properties.Distinct d.reread.properties :=
  Properties.distinct_reread d.properties h

/-- **What the text of a document is read as**, just where its depth allows. -/
theorem ofText?_text (h : Properties.Distinct d.properties) :
    ofText? d.text = if d.toJson.depth ≤ Json.maxDepth then some d.reread else none :=
  rereading.decodes (readable_toJson h) (readsBack (distinct_reread h))

/-- It is the document itself just where the numbers of that last. -/
theorem reread_eq_self_iff (h : Properties.Distinct d.properties) :
    d.reread = d ↔ d.toJson.Lasts :=
  rereading.eq_self_iff (readsBack h) (readsBack (distinct_reread h))

/-- The text of a document tells which it is. -/
theorem eq_of_text_eq (h : Properties.Distinct d.properties)
    (h' : Properties.Distinct d'.properties) (htext : d.text = d'.text) : d = d' := by
  have hjson : d.toJson = d'.toJson :=
    Json.eq_of_render_eq (readable_toJson h) (readable_toJson h') htext
  -- a reader with room for either finds both
  have hd := (readsBack h d.toJson.depth d).mpr ⟨Nat.le_refl _, rfl⟩
  rw [hjson] at hd
  exact ((readsBack h' _ d).mp hd).2

end Document

end Schemata

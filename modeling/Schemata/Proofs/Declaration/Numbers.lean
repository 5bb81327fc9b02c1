import Schemata.Declaration.Basic
import Schemata.Proofs.Fragment.Numbers

/-!
# Schemata — Proofs — Declaration — Numbers

Declarations with what each of their numbers is read as.  The numbers stand in the bounds and the
allowed values of kinds, and in defaults; all else stays, so what is written of such a declaration
is what the text of the declaration is read as.
-/

namespace Schemata

open Json (Rereading reread_object mapMembers_cons mapMembers_append mapMembers_member
  mapMembers_member_same)

namespace Kind

/-- The kind with what each of its numbers is read as. -/
def reread : Kind → Kind
  | .string limits              => .string limits.reread
  | .number limits              => .number limits.reread
  | .array (some item) limits   => .array (some item.reread) limits
  | .map (some value) pattern l => .map (some value.reread) pattern l
  | .choice values              => .choice (values.map Value.reread)
  | kind                        => kind

/-- **What is written of a kind with what its numbers are read as** is what its own text is read
as. -/
theorem rereading : ∀ kind : Kind, kind.reread.toJson = kind.toJson.reread
  | .boolean | .date | .binary | .objectId | .any => rfl
  | .string limits => by
      rw [reread, toJson, toJson, limits.members_reread]
      rfl
  | .number limits => by
      rw [reread, toJson, toJson, limits.members_reread]
      rfl
  | .array none limits => by
      rw [reread.eq_def, toJson, reread_object, mapMembers_cons, limits.members_reread]
      rfl
  | .array (some item) limits => by
      rw [reread, toJson, toJson, rereading item, reread_object, mapMembers_cons, mapMembers_cons,
        limits.members_reread]
      rfl
  | .object reference limits => by
      rw [reread.eq_def, toJson, reread_object, List.cons_append, mapMembers_cons,
        mapMembers_append, mapMembers_member_same Json.reread_string, limits.members_reread]
      rfl
  | .map none pattern limits => by
      rw [reread.eq_def, toJson, reread_object, List.cons_append, mapMembers_cons,
        mapMembers_append, mapMembers_member_same Json.reread_string, limits.members_reread]
      rfl
  | .map (some value) pattern limits => by
      rw [reread, toJson, toJson, rereading value, reread_object]
      simp only [List.cons_append, mapMembers_cons, mapMembers_append,
        mapMembers_member_same Json.reread_string, limits.members_reread]
      rfl
  | .choice values => by
      rw [reread, toJson, toJson, ← Json.reread_values]
      rfl

end Kind

/-- The options with what each of their numbers is read as. -/
def FieldOptions.reread (o : FieldOptions) : FieldOptions :=
  { o with kind := o.kind.map Kind.reread }

/-- Options are read again as their kind is. -/
theorem FieldOptions.rereading : Rereading toJson reread := by
  intro o
  rw [toJson, toJson, reread_object, mapMembers_append, mapMembers_member Kind.rereading]
  rfl

/-- The settings with what each of their numbers is read as. -/
def Settings.reread (s : Settings) : Settings :=
  { s with defaults := s.defaults.map Defaults.reread }

/-- No number is written of timestamps. -/
theorem Timestamps.reread_toJson (t : Timestamps) : t.toJson.reread = t.toJson := by
  cases t <;> rfl

/-- Of settings only the defaults have numbers. -/
theorem Settings.members_reread (s : Settings) :
    s.reread.members = Json.mapMembers Number.reread? s.members := by
  have hdefaults : Rereading Defaults.json Defaults.reread := fun _ => rfl
  simp only [members, List.cons_append, mapMembers_cons, mapMembers_append,
    s.timestamps.reread_toJson, mapMembers_member hdefaults]
  rfl

/-- Settings are read again as their defaults are. -/
theorem Settings.rereading : Rereading toJson reread := fun s => congrArg _ s.members_reread

namespace Declaration

theorem reread_hostType (t : HostType) : t.toJson.reread = t.toJson := rfl

/-- The field with what each of its numbers is read as. -/
def Field.reread (f : Field) : Field := { f with kind := f.kind.map Kind.reread }

/-- A field is read again as its kind is. -/
theorem Field.rereading : Rereading toJson reread := by
  intro f
  rw [toJson, toJson, reread_object]
  simp only [List.cons_append, mapMembers_cons, mapMembers_append,
    mapMembers_member_same reread_hostType, mapMembers_member Kind.rereading]
  rfl

/-- Fields are read again one by one. -/
theorem fieldsToJson_reread (fields : List Field) :
    fieldsToJson (fields.map Field.reread) = (fieldsToJson fields).reread := by
  rw [fieldsToJson, fieldsToJson, Json.reread, Json.mapNumbers, Json.mapItems_eq_map, List.map_map,
    List.map_map]
  exact congrArg _ (List.map_congr_left fun f _ => f.rereading)

/-- The object with what each of its numbers is read as. -/
def Object.reread (o : Object) : Object := { o with fields := o.fields.map Field.reread }

/-- An object is read again as its fields are. -/
theorem Object.rereading : Rereading toJson reread := fun o =>
  congrArg (fun j => Json.object [("name", .string o.name), ("fields", j)])
    (fieldsToJson_reread o.fields)

/-- The model with what each of its numbers is read as. -/
def Model.reread (m : Model) : Model :=
  { m with fields := m.fields.map Field.reread, settings := m.settings.reread }

/-- A model is read again as its fields and settings are. -/
theorem Model.rereading : Rereading toJson reread := by
  intro m
  rw [toJson, toJson, reread_object, mapMembers_cons, mapMembers_cons, ← fieldsToJson_reread,
    ← m.settings.members_reread]
  rfl

end Declaration

end Schemata

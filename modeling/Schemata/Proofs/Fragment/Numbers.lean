import Schemata.Proofs.Fragment.Reading
import Schemata.Proofs.Json.Numbers

/-!
# Schemata — Proofs — Fragment — Numbers

Fragments with what each of their numbers is read as (`Fragment.reread`).  The numbers stand in the
bounds of numbers and in allowed values, at any level of a fragment; all else stays, so what is
written of such a fragment is what the text of the fragment is read as
(`Fragment.rereading`), and its keys come once if those of the fragment do
(`Fragment.distinct_reread`).
-/

namespace Schemata

open Json (Rereading mapMembers_append mapMembers_member mapMembers_member_of
  mapMembers_member_same)

/-- The bounds with what the numbers among the allowed values are read as. -/
def StringLimits.reread (l : StringLimits) : StringLimits :=
  { l with allowed := l.allowed.map (·.map Value.reread) }

/-- The bounds with what each of their numbers is read as. -/
def NumberLimits.reread (l : NumberLimits) : NumberLimits where
  minimum := l.minimum.map Number.reread
  maximum := l.maximum.map Number.reread
  exclusiveMinimum := l.exclusiveMinimum.map Number.reread
  exclusiveMaximum := l.exclusiveMaximum.map Number.reread
  multipleOf := l.multipleOf.map Number.reread
  allowed := l.allowed.map (·.map Value.reread)

mutual
/-- The fragment with what each of its numbers is read as. -/
def Fragment.reread : Fragment → Fragment
  | ⟨type, bsonType, items, properties, patternProperties, required, additionalProperties, allowed,
      stringLimits, numberLimits, arrayLimits, objectLimits⟩ =>
    { type, bsonType, required, additionalProperties, arrayLimits, objectLimits
      items := match items with
        | none   => none
        | some f => some f.reread
      properties := match properties with
        | none    => none
        | some ps => some (Properties.reread ps)
      patternProperties := match patternProperties with
        | none    => none
        | some ps => some (Properties.reread ps)
      allowed := allowed.map (·.map Value.reread)
      stringLimits := stringLimits.reread
      numberLimits := numberLimits.reread }
/-- The properties with what each of their numbers is read as. -/
def Properties.reread : List (String × Fragment) → List (String × Fragment)
  | []                => []
  | (name, f) :: rest => (name, f.reread) :: Properties.reread rest
end

/-- Of a fragment only what its parts hold is read again. -/
theorem Fragment.reread_eq (f : Fragment) : f.reread =
    { f with
      items := f.items.map reread
      properties := f.properties.map Properties.reread
      patternProperties := f.patternProperties.map Properties.reread
      allowed := f.allowed.map (·.map Value.reread)
      stringLimits := f.stringLimits.reread
      numberLimits := f.numberLimits.reread } := by
  obtain ⟨_, _, items, properties, patternProperties, _, _, _, _, _, _, _⟩ := f
  rw [reread.eq_def]
  cases items <;> cases properties <;> cases patternProperties <;> rfl

/-! ### What is written -/

theorem JsonType.reread_toJson (t : JsonType) : t.toJson.reread = t.toJson := rfl

/-- No number is written of a BSON type. -/
theorem BsonType.reread_toJson (t : BsonType) : t.toJson.reread = t.toJson := by
  cases t with
  | one kind => rfl
  | many kinds =>
      rw [Json.reread, toJson, Json.mapNumbers, Json.mapItems_eq_map, List.map_map]
      rfl

theorem Json.reread_string (s : String) : (Json.string s).reread = .string s := rfl

theorem Json.reread_bool (b : Bool) : (Json.bool b).reread = .bool b := rfl

theorem Json.rereading_number : Rereading .number Number.reread := fun n => (reread_number n).symm

/-- Allowed values are read again one by one. -/
theorem Json.rereading_values : Rereading values (·.map Value.reread) := fun vs =>
  (reread_values vs).symm

/-- Of the bounds of a string only the allowed values have numbers that may be read as others. -/
theorem StringLimits.members_reread (l : StringLimits) :
    l.reread.members = Json.mapMembers Number.reread? l.members := by
  simp only [members, mapMembers_append, mapMembers_member_same Json.reread_count,
    mapMembers_member_same Json.reread_string, mapMembers_member Json.rereading_values]
  rfl

/-- Each bound of a number is read again. -/
theorem NumberLimits.members_reread (l : NumberLimits) :
    l.reread.members = Json.mapMembers Number.reread? l.members := by
  simp only [members, mapMembers_append, mapMembers_member Json.rereading_number,
    mapMembers_member Json.rereading_values]
  rfl

/-- Counts of items stay. -/
theorem ArrayLimits.members_reread (l : ArrayLimits) :
    Json.mapMembers Number.reread? l.members = l.members := by
  simp only [members, mapMembers_append, mapMembers_member_same Json.reread_count,
    mapMembers_member_same Json.reread_bool]

/-- Counts of properties stay. -/
theorem ObjectLimits.members_reread (l : ObjectLimits) :
    Json.mapMembers Number.reread? l.members = l.members := by
  simp only [members, mapMembers_append, mapMembers_member_same Json.reread_count]

/-- What is written of a fragment follows from what is written of the fragments in it. -/
theorem Fragment.rereading_of {f : Fragment}
    (hitems : ∀ g, f.items = some g → g.reread.toJson = g.toJson.reread)
    (hproperties : ∀ ps, f.properties = some ps →
      Properties.toJson (Properties.reread ps) = (Properties.toJson ps).reread)
    (hpatterns : ∀ ps, f.patternProperties = some ps →
      Properties.toJson (Properties.reread ps) = (Properties.toJson ps).reread) :
    f.reread.toJson = f.toJson.reread := by
  rw [f.reread_eq, toJson_eq, toJson_eq, Json.reread, Json.mapNumbers]
  simp only [mapMembers_append, mapMembers_member_same JsonType.reread_toJson,
    mapMembers_member_same BsonType.reread_toJson, mapMembers_member_same Json.reread_strings,
    mapMembers_member_same Json.reread_bool, mapMembers_member Json.rereading_values,
    mapMembers_member_of hitems, mapMembers_member_of hproperties, mapMembers_member_of hpatterns,
    ← StringLimits.members_reread, ← NumberLimits.members_reread, ArrayLimits.members_reread,
    ObjectLimits.members_reread]

mutual
/-- **What is written of a fragment with what its numbers are read as** is what its own text is read
as. -/
theorem Fragment.rereading (f : Fragment) : f.reread.toJson = f.toJson.reread := by
  refine Fragment.rereading_of (fun g hg => ?_) (fun ps hps => ?_) (fun ps hps => ?_)
  · exact g.rereading
  · exact Properties.rereading ps
  · exact Properties.rereading ps
termination_by sizeOf f
decreasing_by
  · exact Fragment.sizeOf_items hg
  · exact Fragment.sizeOf_properties hps
  · exact Fragment.sizeOf_patternProperties hps
/-- So it is with properties. -/
theorem Properties.rereading (ps : Properties) :
    Properties.toJson (Properties.reread ps) = (Properties.toJson ps).reread := by
  match ps with
  | [] => rfl
  | (name, f) :: rest =>
      have hrest := Json.object.inj (Properties.rereading rest)
      rw [Properties.toJson, Properties.reread, Properties.toMembers, f.rereading, hrest]
      rfl
termination_by sizeOf ps
end

/-! ### Keys -/

/-- Names stay. -/
theorem Properties.map_fst_reread (ps : Properties) :
    (Properties.reread ps).map Prod.fst = ps.map Prod.fst := by
  induction ps with
  | nil => rfl
  | cons p rest ih => rw [Properties.reread, List.map_cons, List.map_cons, ih]

mutual
/-- The keys of a fragment come once with other numbers too. -/
theorem Fragment.distinct_reread (f : Fragment) (h : f.Distinct) : f.reread.Distinct := by
  obtain ⟨⟨hstring, hnumber⟩, hitems, hproperties, hpatterns⟩ := f.distinct_iff.mp h
  rw [f.reread_eq]
  refine (Fragment.distinct_iff _).mpr ⟨⟨?_, ?_⟩, fun _ h => ?_, fun _ h => ?_, fun _ h => ?_⟩
  · rw [StringLimits.reread, hstring]
    rfl
  · rw [NumberLimits.reread, hnumber]
    rfl
  · obtain ⟨g, hg, rfl⟩ := Option.map_eq_some_iff.mp h
    exact g.distinct_reread (hitems g hg)
  · obtain ⟨ps, hps, rfl⟩ := Option.map_eq_some_iff.mp h
    exact Properties.distinct_reread ps (hproperties ps hps)
  · obtain ⟨ps, hps, rfl⟩ := Option.map_eq_some_iff.mp h
    exact Properties.distinct_reread ps (hpatterns ps hps)
termination_by sizeOf f
decreasing_by
  · exact Fragment.sizeOf_items hg
  · exact Fragment.sizeOf_properties hps
  · exact Fragment.sizeOf_patternProperties hps
/-- Where names come once they still do. -/
theorem Properties.distinct_reread (ps : Properties) (h : Properties.Distinct ps) :
    Properties.Distinct (Properties.reread ps) := by
  match ps, h with
  | [], _ => trivial
  | (name, f) :: rest, ⟨hnew, hf, hrest⟩ =>
      rw [Properties.reread]
      exact ⟨Properties.map_fst_reread rest ▸ hnew, f.distinct_reread hf,
        Properties.distinct_reread rest hrest⟩
termination_by sizeOf ps
end

end Schemata

import Schemata.Json.Value

/-!
# Schemata — Proofs — Json — Canonical

A value in canonical form is readable, and bringing it into that form changes nothing
(`Json.canonical_of_isCanonical`); so free-form values and defaults are made again from what is
written of them.
-/

namespace Schemata

namespace Json

/-- A member behind all others is put behind them. -/
theorem insertMember_last {key : String} {value : Json} {members : List (String × Json)}
    (h : ∀ m ∈ members, m.1 < key) :
    insertMember key value members = members ++ [(key, value)] := by
  induction members with
  | nil => rfl
  | cons m rest ih =>
      obtain ⟨k, v⟩ := m
      have hk : k < key := h (k, v) List.mem_cons_self
      have hne : key ≠ k := by
        rintro rfl
        exact String.lt_irrefl _ hk
      have hnlt : ¬ key < k := fun hlt => String.lt_irrefl _ (String.lt_trans hlt hk)
      rw [insertMember, if_neg hnlt, if_neg hne, ih fun m hm => h m (List.mem_cons_of_mem _ hm)]
      rfl

/-- Members that ascend are sorted already. -/
theorem sortMembers_of_ascending {members : List (String × Json)} (h : ascending members = true) :
    sortMembers members = members := by
  have hp : members.Pairwise (·.1 < ·.1) := by simpa [ascending, List.pairwise_map] using h
  -- each member comes to stand behind all that were put before it
  have hfold : ∀ before : List (String × Json), (before ++ members).Pairwise (·.1 < ·.1) →
      members.foldl (fun sorted m => insertMember m.1 m.2 sorted) before = before ++ members := by
    clear h hp
    induction members with
    | nil => exact fun before _ => (List.append_nil before).symm
    | cons m rest ih =>
        intro before h
        have hlast : ∀ m' ∈ before, m'.1 < m.1 := fun m' hm' =>
          (List.pairwise_append.mp h).2.2 m' hm' m List.mem_cons_self
        rw [List.foldl_cons, insertMember_last hlast, ih _ (by simpa using h)]
        simp
  exact hfold [] hp

mutual
/-- A value in canonical form stays as it is. -/
theorem canonical_of_isCanonical : ∀ j : Json, j.isCanonical = true → j.canonical = j
  | .null, _ | .bool _, _ | .number _, _ | .string _, _ => rfl
  | .array items, h => by
      rw [canonical, canonicalItems_of_itemsCanonical items h]
  | .object members, h => by
      rw [isCanonical, Bool.and_eq_true] at h
      rw [canonical, canonicalMembers_of_membersCanonical members h.2,
        sortMembers_of_ascending h.1]
theorem canonicalItems_of_itemsCanonical : ∀ items : List Json, itemsCanonical items = true →
    canonicalItems items = items
  | [], _ => rfl
  | j :: rest, h => by
      rw [itemsCanonical, Bool.and_eq_true] at h
      rw [canonicalItems, canonical_of_isCanonical j h.1,
        canonicalItems_of_itemsCanonical rest h.2]
theorem canonicalMembers_of_membersCanonical : ∀ members : List (String × Json),
    membersCanonical members = true → canonicalMembers members = members
  | [], _ => rfl
  | (k, j) :: rest, h => by
      rw [membersCanonical, Bool.and_eq_true] at h
      rw [canonicalMembers, canonical_of_isCanonical j h.1,
        canonicalMembers_of_membersCanonical rest h.2]
end

mutual
/-- A value in canonical form is readable. -/
theorem readable_of_isCanonical : ∀ j : Json, j.isCanonical = true → j.readable = true
  | .null, _ | .bool _, _ | .number _, _ | .string _, _ => rfl
  | .array items, h => itemsReadable_of_itemsCanonical items h
  | .object members, h => by
      rw [isCanonical, Bool.and_eq_true] at h
      exact membersReadable_of_membersCanonical members h.2
theorem itemsReadable_of_itemsCanonical : ∀ items : List Json, itemsCanonical items = true →
    itemsReadable items = true
  | [], _ => rfl
  | j :: rest, h => by
      rw [itemsCanonical, Bool.and_eq_true] at h
      rw [itemsReadable, readable_of_isCanonical j h.1, itemsReadable_of_itemsCanonical rest h.2]
      rfl
theorem membersReadable_of_membersCanonical : ∀ members : List (String × Json),
    membersCanonical members = true → membersReadable members = true
  | [], _ => rfl
  | (k, j) :: rest, h => by
      rw [membersCanonical, Bool.and_eq_true] at h
      rw [membersReadable, readable_of_isCanonical j h.1,
        membersReadable_of_membersCanonical rest h.2]
      rfl
end

end Json

/-- A free-form value is made again from its JSON. -/
theorem Value.ofJson?_json (v : Value) : ofJson? v.json = some v := by
  obtain ⟨j, h⟩ := v
  simp [ofJson?, j.readable_of_isCanonical h, j.canonical_of_isCanonical h]

/-- Defaults are made again from their members. -/
theorem Defaults.ofMembers?_members (d : Defaults) : ofMembers? d.members = some d := by
  obtain ⟨members, h⟩ := d
  have hsame : Json.sortMembers (Json.canonicalMembers members) = members := by
    have := (Json.object members).canonical_of_isCanonical h
    rwa [Json.canonical, Json.object.injEq] at this
  simp [ofMembers?, (Json.object members).readable_of_isCanonical h, hsame]

end Schemata

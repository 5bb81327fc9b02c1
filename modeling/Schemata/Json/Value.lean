import Schemata.Json.Basic

/-!
# Schemata — Json — Value

Free-form values: allowed values and defaults. Such a value is kept with the keys of every object in
ascending order, and of a repeated key the last value counts. `canonical` brings a readable value
into that form, and `isCanonical_canonical` says that it does.
-/

namespace Schemata

namespace Json

/-- Puts a member where its key belongs among ascending keys, in place of a member with that key. -/
def insertMember (key : String) (value : Json) : List (String × Json) → List (String × Json)
  | [] => [(key, value)]
  | (k, v) :: rest =>
    if key < k then (key, value) :: (k, v) :: rest
    else if key = k then (key, value) :: rest
    else (k, v) :: insertMember key value rest

/-- Members by ascending key; of a repeated key the last value. -/
def sortMembers (members : List (String × Json)) : List (String × Json) :=
  members.foldl (fun sorted m => insertMember m.1 m.2 sorted) []

/-- The keys ascend strictly. -/
def ascending (members : List (String × Json)) : Bool :=
  decide ((members.map Prod.fst).Pairwise (· < ·))

mutual
/-- The value with the keys of every object in ascending order. -/
def canonical : Json → Json
  | .array items    => .array (canonicalItems items)
  | .object members => .object (sortMembers (canonicalMembers members))
  | j               => j
/-- Every item in canonical form. -/
def canonicalItems : List Json → List Json
  | []        => []
  | j :: rest => j.canonical :: canonicalItems rest
/-- Every member's value in canonical form. -/
def canonicalMembers : List (String × Json) → List (String × Json)
  | []             => []
  | (k, j) :: rest => (k, j.canonical) :: canonicalMembers rest
end

mutual
/-- The value is readable, and the keys of every object in it ascend. -/
def isCanonical : Json → Bool
  | .unreadable     => false
  | .array items    => itemsCanonical items
  | .object members => ascending members && membersCanonical members
  | _               => true
/-- Every item is in canonical form. -/
def itemsCanonical : List Json → Bool
  | []        => true
  | j :: rest => j.isCanonical && itemsCanonical rest
/-- Every member's value is in canonical form. -/
def membersCanonical : List (String × Json) → Bool
  | []             => true
  | (_, j) :: rest => j.isCanonical && membersCanonical rest
end

theorem mem_insertMember {key k : String} {value v : Json} {members : List (String × Json)}
    (h : (k, v) ∈ insertMember key value members) : (k, v) = (key, value) ∨ (k, v) ∈ members := by
  induction members with
  | nil => simpa [insertMember] using h
  | cons m rest ih =>
    obtain ⟨k', v'⟩ := m
    simp only [insertMember] at h
    split at h
    · simpa using h
    · split at h
      · rcases List.mem_cons.1 h with h | h
        · exact .inl h
        · exact .inr (List.mem_cons_of_mem _ h)
      · rcases List.mem_cons.1 h with h | h
        · exact .inr (h ▸ List.mem_cons_self)
        · rcases ih h with h | h
          · exact .inl h
          · exact .inr (List.mem_cons_of_mem _ h)

theorem pairwise_insertMember (key : String) (value : Json) {members : List (String × Json)}
    (h : members.Pairwise (·.1 < ·.1)) : (insertMember key value members).Pairwise (·.1 < ·.1) := by
  induction members with
  | nil => simp [insertMember]
  | cons m rest ih =>
    obtain ⟨k, v⟩ := m
    rw [List.pairwise_cons] at h
    simp only [insertMember]
    split
    · next hlt =>
      refine List.pairwise_cons.2 ⟨fun m hm => ?_, List.pairwise_cons.2 h⟩
      rcases List.mem_cons.1 hm with rfl | hm
      · exact hlt
      · exact String.lt_trans hlt (h.1 m hm)
    · next hnlt =>
      split
      · next heq => exact List.pairwise_cons.2 ⟨fun m hm => heq ▸ h.1 m hm, h.2⟩
      · next hne =>
        have hgt : k < key := by
          rcases Decidable.em (k < key) with hk | hk
          · exact hk
          · exact absurd (String.le_antisymm (String.not_lt.1 hk) (String.not_lt.1 hnlt)) hne
        refine List.pairwise_cons.2 ⟨fun m hm => ?_, ih h.2⟩
        rcases mem_insertMember hm with hm | hm
        · rw [show m.1 = key from congrArg Prod.fst hm]
          exact hgt
        · exact h.1 m hm

theorem pairwise_sortMembers (members : List (String × Json)) :
    (sortMembers members).Pairwise (·.1 < ·.1) := by
  have go : ∀ (ms sorted : List (String × Json)), sorted.Pairwise (·.1 < ·.1) →
      (ms.foldl (fun sorted m => insertMember m.1 m.2 sorted) sorted).Pairwise (·.1 < ·.1) := by
    intro ms
    induction ms with
    | nil => exact fun _ h => h
    | cons m rest ih => exact fun sorted h => ih _ (pairwise_insertMember m.1 m.2 h)
  exact go members [] .nil

theorem ascending_sortMembers (members : List (String × Json)) :
    ascending (sortMembers members) = true := by
  simpa [ascending, List.pairwise_map] using pairwise_sortMembers members

theorem membersCanonical_iff {members : List (String × Json)} :
    membersCanonical members = true ↔ ∀ m ∈ members, m.2.isCanonical = true := by
  induction members with
  | nil => simp [membersCanonical]
  | cons m rest ih => obtain ⟨k, v⟩ := m; simp [membersCanonical, ih]

theorem mem_sortMembers {m : String × Json} {members : List (String × Json)}
    (h : m ∈ sortMembers members) : m ∈ members := by
  have go : ∀ (ms sorted : List (String × Json)),
      m ∈ ms.foldl (fun sorted m => insertMember m.1 m.2 sorted) sorted → m ∈ sorted ∨ m ∈ ms := by
    intro ms
    induction ms with
    | nil => exact fun _ h => .inl h
    | cons m' rest ih =>
      intro sorted h
      rcases ih _ h with h | h
      · rcases mem_insertMember h with h | h
        · exact .inr (List.mem_cons.2 (.inl h))
        · exact .inl h
      · exact .inr (List.mem_cons_of_mem _ h)
  simpa using go members [] h

theorem isCanonical_insertMember (key : String) {value : Json} {members : List (String × Json)}
    (hv : value.isCanonical = true) (h : (Json.object members).isCanonical = true) :
    (Json.object (insertMember key value members)).isCanonical = true := by
  rw [isCanonical, Bool.and_eq_true] at h ⊢
  refine ⟨?_, membersCanonical_iff.2 fun m hm => ?_⟩
  · have hp : members.Pairwise (·.1 < ·.1) := by simpa [ascending, List.pairwise_map] using h.1
    simpa [ascending, List.pairwise_map] using pairwise_insertMember key value hp
  · rcases mem_insertMember hm with hm | hm
    · rw [show m.2 = value from congrArg Prod.snd hm]
      exact hv
    · exact membersCanonical_iff.1 h.2 m hm

mutual
theorem isCanonical_canonical : (j : Json) → j.readable = true → j.canonical.isCanonical = true
  | .null, _ | .bool _, _ | .number _, _ | .string _, _ => rfl
  | .array items, h => by
    simpa [canonical, isCanonical] using
      itemsCanonical_canonicalItems items (by simpa [readable] using h)
  | .object members, h => by
    have hall := membersCanonical_iff.1
      (membersCanonical_canonicalMembers members (by simpa [readable] using h))
    simpa [canonical, isCanonical, ascending_sortMembers] using
      membersCanonical_iff.2 fun m hm => hall m (mem_sortMembers hm)
theorem itemsCanonical_canonicalItems :
    (items : List Json) → itemsReadable items = true → itemsCanonical (canonicalItems items) = true
  | [], _ => rfl
  | j :: rest, h => by
    rw [itemsReadable, Bool.and_eq_true] at h
    simp [canonicalItems, itemsCanonical, isCanonical_canonical j h.1,
      itemsCanonical_canonicalItems rest h.2]
theorem membersCanonical_canonicalMembers : (members : List (String × Json)) →
    membersReadable members = true → membersCanonical (canonicalMembers members) = true
  | [], _ => rfl
  | (k, j) :: rest, h => by
    rw [membersReadable, Bool.and_eq_true] at h
    simp [canonicalMembers, membersCanonical, isCanonical_canonical j h.1,
      membersCanonical_canonicalMembers rest h.2]
end

end Json

/-- A free-form value, its objects by ascending key. -/
structure Value where
  json : Json
  isCanonical : json.isCanonical = true
deriving Repr

namespace Value

/-- The free-form value of a readable JSON value. -/
def ofJson? (j : Json) : Option Value :=
  if h : j.readable = true then some ⟨j.canonical, j.isCanonical_canonical h⟩ else none

end Value

/-- Default values by field name, in ascending order of the names. -/
structure Defaults where
  members : List (String × Json)
  isCanonical : (Json.object members).isCanonical = true
deriving Repr

namespace Defaults

/-- The defaults that a readable JSON object gives. -/
def ofMembers? (members : List (String × Json)) : Option Defaults :=
  if h : (Json.object members).readable = true then
    some ⟨Json.sortMembers (Json.canonicalMembers members), by
      simpa [Json.canonical] using (Json.object members).isCanonical_canonical h⟩
  else none

/-- No defaults. -/
def empty : Defaults := ⟨[], rfl⟩

/-- Gives a name a default value, in place of the one it has. -/
def insert (d : Defaults) (name : String) (value : Value) : Defaults where
  members := Json.insertMember name value.json d.members
  isCanonical := Json.isCanonical_insertMember name value.isCanonical d.isCanonical

/-- The defaults as a JSON object. -/
def json (d : Defaults) : Json := .object d.members

/-- The names that have a default, ascending. -/
def names (d : Defaults) : List String := d.members.map Prod.fst

end Defaults

end Schemata

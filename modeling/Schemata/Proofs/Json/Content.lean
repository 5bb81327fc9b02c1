import Mathlib.Data.List.Induction
import Mathlib.Data.String.Basic
import Schemata.Proofs.Json.Slots

/-!
# Schemata — Proofs — Json — Content

What a free-form value says.  Two trees have the same content if they differ at most in the order of
keys and in values that a later one of the same key has replaced (`Json.Same`).  A value is kept
with its keys in order and each of them once, and has the content of the value that was given
(`Json.same_canonical`).
-/

namespace Schemata

namespace Json

/-- The same content: the same items in order, and under each key the same last value. -/
inductive Same : Json → Json → Prop
  | refl (j : Json) : Same j j
  | array {items items' : List Json} (length : items.length = items'.length)
      (item : ∀ p ∈ items.zip items', Same p.1 p.2) : Same (.array items) (.array items')
  | object {members members' : List (String × Json)}
      (keys : ∀ key, key ∈ members.map Prod.fst ↔ key ∈ members'.map Prod.fst)
      (value : ∀ key v v', (valuesOf members key).getLast? = some v →
        (valuesOf members' key).getLast? = some v' → Same v v') :
      Same (.object members) (.object members')

/-! ### Sorted members -/

variable {key : String} {members : List (String × Json)}

/-- The value that is put where its key belongs is the only one of that key. -/
theorem valuesOf_insertMember (k : String) (v : Json) (hsorted : members.Pairwise (·.1 < ·.1))
    (key : String) :
    valuesOf (insertMember k v members) key = if k = key then [v] else valuesOf members key := by
  induction members with
  | nil =>
      rw [insertMember, valuesOf_cons]
      rfl
  | cons m rest ih =>
      obtain ⟨hm, hrest⟩ := List.pairwise_cons.mp hsorted
      -- a key below all keys of the rest is none of them
      have hnone : ∀ j : String, j ≤ m.1 → valuesOf rest j = [] := by
        intro j hj
        rw [valuesOf_eq_nil]
        intro hmem
        obtain ⟨n, hn, rfl⟩ := List.mem_map.mp hmem
        exact lt_irrefl n.1 (lt_of_le_of_lt hj (hm n hn))
      simp only [insertMember]
      split
      · next hlt =>
          by_cases hk : k = key
          · subst hk
            have hne : m.1 ≠ k := hlt.ne'
            simp [valuesOf_cons, hne, hnone k (le_of_lt hlt)]
          · simp [valuesOf_cons, hk]
      · split
        · next heq =>
            subst heq
            by_cases hk : m.1 = key
            · simp [valuesOf_cons, hk, hnone key (hk ▸ le_refl _)]
            · simp [valuesOf_cons, hk]
        · next hne =>
            rw [valuesOf_cons, valuesOf_cons, ih hrest]
            by_cases hk : k = key
            · have hmk : m.1 ≠ key := fun h => hne (hk.trans h.symm)
              simp [hk, hmk]
            · simp [hk]

/-- Of each key sorted members have the last value, and no other. -/
theorem valuesOf_sortMembers (members : List (String × Json)) (key : String) :
    valuesOf (sortMembers members) key = (valuesOf members key).getLast?.toList := by
  induction members using List.reverseRecOn with
  | nil => rfl
  | append_singleton members m ih =>
      have hstep : sortMembers (members ++ [m]) = insertMember m.1 m.2 (sortMembers members) := by
        simp [sortMembers]
      rw [hstep, valuesOf_insertMember _ _ (pairwise_sortMembers members), ih, valuesOf_append,
        valuesOf_cons]
      by_cases hk : m.1 = key
      · simp [hk, valuesOf]
      · simp [hk, valuesOf]

theorem valuesOf_canonicalMembers (members : List (String × Json)) (key : String) :
    valuesOf (canonicalMembers members) key = (valuesOf members key).map canonical := by
  induction members with
  | nil => rfl
  | cons m rest ih =>
      obtain ⟨k, v⟩ := m
      rw [canonicalMembers, valuesOf_cons, valuesOf_cons, ih]
      by_cases hk : k = key <;> simp [hk]

/-! ### Canonical values -/

mutual
/-- **A value in canonical form has the content that it had.** -/
theorem same_canonical : ∀ j : Json, Same j j.canonical
  | .null | .bool _ | .number _ | .string _ | .unreadable => .refl _
  | .array items => .array (length_canonicalItems items) (same_canonicalItems items)
  | .object members => by
      have hlast : ∀ key, valuesOf (sortMembers (canonicalMembers members)) key
          = ((valuesOf members key).getLast?.map canonical).toList := fun key => by
        rw [valuesOf_sortMembers, valuesOf_canonicalMembers, List.getLast?_map]
      refine .object (fun key => ?_) fun key v v' hv hv' => ?_
      · rw [← not_iff_not, ← valuesOf_eq_nil, ← valuesOf_eq_nil, hlast]
        simp
      · rw [hlast, hv] at hv'
        obtain rfl : v.canonical = v' := Option.some.inj hv'
        exact same_canonicalMembers members (key, v) (mem_valuesOf.mp (List.mem_of_getLast? hv))
/-- Every item keeps its content. -/
theorem same_canonicalItems : ∀ items : List Json,
    ∀ p ∈ items.zip (canonicalItems items), Same p.1 p.2
  | [] => by simp [canonicalItems]
  | j :: rest => by
      rw [canonicalItems, List.zip_cons_cons, List.forall_mem_cons]
      exact ⟨same_canonical j, same_canonicalItems rest⟩
/-- Every member's value keeps its content. -/
theorem same_canonicalMembers : ∀ members : List (String × Json),
    ∀ m ∈ members, Same m.2 m.2.canonical
  | [] => by simp
  | (k, j) :: rest => by
      rw [List.forall_mem_cons]
      exact ⟨same_canonical j, same_canonicalMembers rest⟩
/-- There are as many items. -/
theorem length_canonicalItems : ∀ items : List Json, items.length = (canonicalItems items).length
  | [] => rfl
  | _ :: rest => congrArg Nat.succ (length_canonicalItems rest)
end

/-! ### Values that are read -/

theorem same_of_value? {room : Nat} {j : Json} {v : Value} (h : value? room j = some v) :
    Same j v.json := by
  unfold value? at h
  split at h
  · unfold Value.ofJson? at h
    split at h
    · obtain rfl := Option.some.inj h
      exact same_canonical j
    · cases h
  · cases h

theorem same_of_values? {room : Nat} {j : Json} {vs : List Value}
    (h : list? value? room j = some vs) : Same j (values vs) := by
  unfold list? at h
  split at h
  · next inner items =>
      have hall : List.Forall₂ Same items (vs.map Value.json) :=
        List.forall₂_map_right_iff.mpr ((forall₂_of_mapM h).imp fun _ _ => same_of_value?)
      exact .array hall.length_eq fun p hp => List.forall₂_zip hall hp
  · cases h

theorem same_of_defaults? {room : Nat} {j : Json} {d : Defaults} (h : defaults? room j = some d) :
    Same j d.json := by
  unfold defaults? at h
  split at h
  · next members =>
      split at h
      · unfold Defaults.ofMembers? at h
        split at h
        · obtain rfl := Option.some.inj h
          exact same_canonical (.object members)
        · cases h
      · cases h
  · cases h

/-- A count is written as it was given. -/
theorem count_of_count? {j : Json} {n : UInt64} (h : count? j = some n) : count n = j := by
  unfold count? at h
  split at h
  · next number =>
      unfold Number.toCount? at h
      split at h
      · next value low high =>
          split at h
          · obtain rfl := Option.some.inj h
            simp [count, Number.ofCount]
            omega
          · cases h
      · cases h
  · cases h

end Json

end Schemata

import Mathlib.Data.List.Forall2
import Mathlib.Data.List.Nodup
import Schemata.Json.Record

/-!
# Schemata — Proofs — Json — Slots

The slots that a reader finds in the members of an object.  The keys of a record that is read are
defined and given once each, and the slot of a key holds the value that is given for it
(`Json.record?_object`); a list is read item by item (`Json.forall₂_of_mapM`).
-/

namespace Schemata

namespace Json

/-! ### Values of a key -/

variable {key : String} {members : List (String × Json)}

/-- A member in front gives its key one more value in front. -/
theorem valuesOf_cons (m : String × Json) (members : List (String × Json)) (key : String) :
    valuesOf (m :: members) key = if m.1 = key then m.2 :: valuesOf members key
      else valuesOf members key := by
  by_cases h : m.1 = key <;> simp [valuesOf, h]

/-- The values of a key, over the members in order. -/
theorem valuesOf_append (members more : List (String × Json)) (key : String) :
    valuesOf (members ++ more) key = valuesOf members key ++ valuesOf more key := by
  simp [valuesOf]

/-- The values of a key are those of its members. -/
theorem mem_valuesOf {v : Json} : v ∈ valuesOf members key ↔ (key, v) ∈ members := by
  simp only [valuesOf, List.mem_map, List.mem_filter, decide_eq_true_eq]
  constructor
  · rintro ⟨m, ⟨hm, rfl⟩, rfl⟩
    exact hm
  · exact fun h => ⟨_, ⟨h, rfl⟩, rfl⟩

/-- A key without members has no value. -/
theorem valuesOf_eq_nil : valuesOf members key = [] ↔ key ∉ members.map Prod.fst := by
  rw [List.eq_nil_iff_forall_not_mem]
  simp [mem_valuesOf]

/-- To leave out a key leaves the others. -/
theorem valuesOf_filter_ne {key k : String} (hk : k ≠ key) (members : List (String × Json)) :
    valuesOf (members.filter (·.1 ≠ key)) k = valuesOf members k := by
  simp only [valuesOf, List.filter_filter]
  congr 1
  refine List.filter_congr fun m _ => ?_
  by_cases hm : m.1 = k <;> simp [hm, hk]

/-! ### Records -/

/-- A key that is given once is a slot in front of those of the other members. -/
theorem slots?_cons {key : String} {v : Json} {keys : List String}
    {members : List (String × Json)} (hkey : key ∉ keys) (hv : valuesOf members key = [v]) :
    slots? true (key :: keys) members =
      (slots? true keys (members.filter (·.1 ≠ key))).map (some v :: ·) := by
  have hothers : ∀ k ∈ keys, valuesOf (members.filter (·.1 ≠ key)) k = valuesOf members k :=
    fun k hk => valuesOf_filter_ne (fun he : k = key => hkey (he ▸ hk)) members
  have hknown : (members.all fun m => (key :: keys).contains m.1)
      = (members.filter (·.1 ≠ key)).all fun m => keys.contains m.1 := by
    rw [Bool.eq_iff_iff]
    simp [or_iff_not_imp_left]
  have honce : ((key :: keys).all fun k => (valuesOf members k).length ≤ 1)
      = keys.all fun k => (valuesOf (members.filter (·.1 ≠ key)) k).length ≤ 1 := by
    rw [List.all_cons, hv, Bool.eq_iff_iff]
    simp only [List.length_singleton, Nat.le_refl, decide_true, Bool.true_and, List.all_eq_true]
    exact forall₂_congr fun k hk => by rw [hothers k hk]
  have hslots : (keys.map fun k => (valuesOf members k).head?)
      = keys.map fun k => (valuesOf (members.filter (·.1 ≠ key)) k).head? :=
    List.map_congr_left fun k hk => by rw [hothers k hk]
  simp only [slots?, hknown, honce, List.map_cons, hv, hslots]
  split <;> rfl

/-- A record has a slot for each of its keys. -/
theorem length_record? {strict : Bool} {keys : List String} {j : Json}
    {slots : List (Option Json)} (h : record? strict keys j = some slots) :
    slots.length = keys.length := by
  unfold record? at h
  split at h
  · unfold slots? at h
    split at h
    · obtain rfl := Option.some.inj h
      exact List.length_map _
    · cases h
  · split at h
    · obtain rfl := Option.some.inj h
      simp
      omega
    · cases h
  · cases h

/-- What is done with the slots of a record need only agree where there is one for each key. -/
theorem bind_record? {β : Type} {keys : List String} {j : Json}
    {f g : List (Option Json) → Option β}
    (h : ∀ slots, slots.length = keys.length → f slots = g slots) :
    (record? true keys j).bind f = (record? true keys j).bind g := by
  cases hslots : record? true keys j with
  | none => rfl
  | some slots => exact h slots (length_record? hslots)

/-- A key has a value for each of its members. -/
theorem length_valuesOf (members : List (String × Json)) (key : String) :
    (valuesOf members key).length = (members.map Prod.fst).count key := by
  induction members with
  | nil => rfl
  | cons m rest ih =>
      rw [valuesOf_cons, List.map_cons, List.count_cons]
      by_cases hm : m.1 = key <;> simp [hm, ih]

/-- The keys of a record are defined and given once, and each slot holds what is given for its
key. -/
theorem record?_object {keys : List String} {members : List (String × Json)}
    {slots : List (Option Json)} (h : record? true keys (.object members) = some slots) :
    (members.map Prod.fst).Nodup ∧ (∀ m ∈ members, m.1 ∈ keys) ∧
      slots = keys.map fun k => (valuesOf members k).head? := by
  rw [record?, slots?] at h
  split at h
  · next hcond =>
      have hdefined : ∀ m ∈ members, m.1 ∈ keys := by simpa using hcond.1
      refine ⟨List.nodup_iff_count_le_one.mpr fun key => ?_, hdefined, (Option.some.inj h).symm⟩
      rw [← length_valuesOf]
      by_cases hkey : key ∈ keys
      · simpa using List.all_eq_true.mp hcond.2 key hkey
      · have hnone : key ∉ members.map Prod.fst := by
          intro hmem
          obtain ⟨m, hm, rfl⟩ := List.mem_map.mp hmem
          exact hkey (hdefined m hm)
        rw [valuesOf_eq_nil.mpr hnone]
        exact Nat.zero_le _
  · cases h

/-- The slot of a key that is given once holds its value. -/
theorem head?_valuesOf {members : List (String × Json)} (h : (members.map Prod.fst).Nodup)
    {key : String} {v : Json} : (valuesOf members key).head? = some v ↔ (key, v) ∈ members := by
  have honce : (valuesOf members key).length ≤ 1 := by
    rw [length_valuesOf]
    exact List.nodup_iff_count_le_one.mp h key
  rw [← mem_valuesOf]
  match valuesOf members key, honce with
  | [], _ => simp
  | [w], _ => simp [eq_comm]

/-! ### Lists -/

/-- What is read of a list is read item by item. -/
theorem forall₂_of_mapM {α β : Type} {f : α → Option β} {as : List α} {bs : List β}
    (h : as.mapM f = some bs) : List.Forall₂ (fun a b => f a = some b) as bs := by
  induction as generalizing bs with
  | nil =>
      obtain rfl : [] = bs := Option.some.inj h
      exact .nil
  | cons a rest ih =>
      simp only [List.mapM_cons, Option.bind_eq_bind, Option.bind_eq_some_iff, Option.pure_def] at h
      obtain ⟨b, hb, bs', hrest, hbs⟩ := h
      obtain rfl := Option.some.inj hbs
      exact .cons hb (ih hrest)

/-- Of each item something is read. -/
theorem exists_of_mem_mapM {α β : Type} {f : α → Option β} {as : List α} {bs : List β}
    (h : as.mapM f = some bs) {a : α} (ha : a ∈ as) : ∃ b ∈ bs, f a = some b := by
  have hall := forall₂_of_mapM h
  clear h
  induction hall with
  | nil => nomatch ha
  | cons hb _ ih =>
      rcases List.mem_cons.mp ha with rfl | ha
      · exact ⟨_, List.mem_cons_self, hb⟩
      · obtain ⟨b, hb, hf⟩ := ih ha
        exact ⟨b, List.mem_cons_of_mem _ hb, hf⟩

end Json

end Schemata

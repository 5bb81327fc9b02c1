import Schemata.Proofs.Json.Record

/-!
# Schemata — Proofs — Json — Fitting

What was read from a text is written within the same bounds.  A reader takes what it reads from a
tree no deeper than its room; what is written of it again may leave out keys that were ignored or
sort those of free-form values, and is no deeper either (`Json.Fits`).  So a value that is read in
some room and reads back is found again in what is written of it (`Json.FitsIn.reread`).
-/

namespace Schemata

namespace Json

/-! ### Depths -/

/-- Items fit where each of them does. -/
theorem itemsDepth_le {items : List Json} {room : Nat} :
    itemsDepth items ≤ room ↔ ∀ j ∈ items, j.depth ≤ room := by
  induction items with
  | nil => simp [itemsDepth]
  | cons j rest ih => rw [itemsDepth, Nat.max_le, ih, List.forall_mem_cons]

/-- Members fit where each of their values does. -/
theorem membersDepth_le {members : List (String × Json)} {room : Nat} :
    membersDepth members ≤ room ↔ ∀ m ∈ members, m.2.depth ≤ room := by
  induction members with
  | nil => simp [membersDepth]
  | cons m rest ih => rw [membersDepth, Nat.max_le, ih, List.forall_mem_cons]

mutual
/-- Sorting the keys of objects makes a value no deeper. -/
theorem depth_canonical_le : ∀ j : Json, j.canonical.depth ≤ j.depth
  | .null | .bool _ | .number _ | .string _ | .unreadable => Nat.le_refl _
  | .array items => Nat.succ_le_succ (itemsDepth_canonicalItems_le items)
  | .object members => by
      refine Nat.succ_le_succ (membersDepth_le.mpr fun m hm => ?_)
      have hmembers := membersDepth_canonicalMembers_le members
      exact membersDepth_le.mp hmembers m (mem_sortMembers hm)
/-- Items get no deeper in canonical form. -/
theorem itemsDepth_canonicalItems_le : ∀ items : List Json,
    itemsDepth (canonicalItems items) ≤ itemsDepth items
  | [] => Nat.le_refl _
  | j :: rest => by
      have hj := depth_canonical_le j
      have hrest := itemsDepth_canonicalItems_le rest
      simp only [canonicalItems, itemsDepth]
      omega
/-- Members get no deeper in canonical form, though of two of a key one is left. -/
theorem membersDepth_canonicalMembers_le : ∀ members : List (String × Json),
    membersDepth (canonicalMembers members) ≤ membersDepth members
  | [] => Nat.le_refl _
  | (k, j) :: rest => by
      have hj := depth_canonical_le j
      have hrest := membersDepth_canonicalMembers_le rest
      simp only [canonicalMembers, membersDepth]
      omega
end

/-! ### Readers -/

section Fits

variable {α : Type} {read : Nat → Json → Option α} {write : α → Json}

/-- What is read in some room is written no deeper than that. -/
def FitsIn (read : Nat → Json → Option α) (write : α → Json) (room : Nat) : Prop :=
  ∀ j a, read room j = some a → (write a).depth ≤ room

/-- What is read is written no deeper than the room that it was read in. -/
def Fits (read : Nat → Json → Option α) (write : α → Json) : Prop :=
  ∀ room, FitsIn read write room

/-- What is written without containers fits anywhere. -/
theorem fits_of_scalar (h : ∀ a, (write a).depth = 0) : Fits read write := by
  intro room j a _
  rw [h a]
  exact Nat.zero_le room

/-- What is in a list that is read was read of an item. -/
theorem exists_of_mapM {β γ : Type} {f : β → Option γ} {bs : List β} {cs : List γ}
    (h : bs.mapM f = some cs) {c : γ} (hc : c ∈ cs) : ∃ b ∈ bs, f b = some c := by
  induction bs generalizing cs with
  | nil =>
      obtain rfl : [] = cs := Option.some.inj h
      nomatch hc
  | cons b rest ih =>
      simp only [List.mapM_cons, Option.bind_eq_bind, Option.bind_eq_some_iff, Option.pure_def]
        at h
      obtain ⟨c', hb, cs', hrest, hcs⟩ := h
      obtain rfl := Option.some.inj hcs
      rcases List.mem_cons.mp hc with rfl | hc
      · exact ⟨b, List.mem_cons_self, hb⟩
      · obtain ⟨b', hb', hf⟩ := ih hrest hc
        exact ⟨b', List.mem_cons_of_mem _ hb', hf⟩

/-- A list fits if its items do. -/
theorem fits_list (h : Fits read write) :
    Fits (list? read) (fun as => .array (as.map write)) := by
  intro room j as hread
  unfold list? at hread
  split at hread
  · refine Nat.succ_le_succ (itemsDepth_le.mpr fun k hk => ?_)
    obtain ⟨a, ha, rfl⟩ := List.mem_map.mp hk
    obtain ⟨item, -, hitem⟩ := exists_of_mapM hread ha
    exact h _ item a hitem
  · nomatch hread

theorem fits_strings : Fits (list? fun _ => string?) strings :=
  fits_list (fits_of_scalar fun _ => rfl)

/-- A value fits. -/
theorem fits_value : Fits value? Value.json := by
  intro room j v h
  unfold value? at h
  split at h
  · next hdepth =>
      unfold Value.ofJson? at h
      split at h
      · obtain rfl := Option.some.inj h
        exact Nat.le_trans j.depth_canonical_le hdepth
      · cases h
  · cases h

theorem fits_values : Fits (list? value?) values := fits_list fits_value

/-- Default values fit. -/
theorem fits_defaults : Fits defaults? Defaults.json := by
  intro room j d h
  unfold defaults? at h
  split at h
  · next members =>
      split at h
      · next hdepth =>
          unfold Defaults.ofMembers? at h
          split at h
          · obtain rfl := Option.some.inj h
            exact Nat.le_trans (Json.object members).depth_canonical_le hdepth
          · cases h
      · cases h
  · cases h

variable {room : Nat} (h : FitsIn read write room)
include h

/-- What an optional field holds fits where the field was read. -/
theorem FitsIn.optional {slot : Option Json} {a : Option α}
    (hread : Json.optional (read room) slot = some a) : slotDepth (a.map write) ≤ room := by
  unfold Json.optional at hread
  split at hread
  · obtain rfl := Option.some.inj hread
    exact Nat.zero_le _
  · obtain rfl := Option.some.inj hread
    exact Nat.zero_le _
  · next j _ =>
      obtain ⟨x, hx, rfl⟩ := Option.map_eq_some_iff.mp hread
      exact h j x hx

/-- What a required field holds fits where the field was read. -/
theorem FitsIn.required {slot : Option Json} {a : α}
    (hread : Json.required (read room) slot = some a) : (write a).depth ≤ room := by
  obtain ⟨j, -, hj⟩ := Option.bind_eq_some_iff.mp hread
  exact h j a hj

/-- What reads back is found again in what is written of it, in the room that it was read in. -/
theorem FitsIn.reread {j : Json} {a : α} (hread : read room j = some a)
    (hback : ReadsBack read write a) : read room (write a) = some a :=
  (hback room a).mpr ⟨h j a hread, rfl⟩

end Fits

end Json

end Schemata

import Schemata.Json.Record
import Schemata.Proofs.Json.Canonical

/-!
# Schemata — Proofs — Json — Record

Records and lists that are written are read back.  The members of a record are given by its keys and
a slot for each, empty where a field is absent (`Json.given`); if no key comes twice the slots are
found again (`Json.slots?_given`).  A value reads back if a reader finds it in what is written of it
just where there is room for the containers in that (`Json.ReadsBack`); a list does if its items do.
-/

namespace Schemata

namespace Json

/-! ### Slots -/

/-- The members of the keys whose slots are filled. -/
def given : List String → List (Option Json) → List (String × Json)
  | key :: keys, some j :: slots => (key, j) :: given keys slots
  | _ :: keys, none :: slots     => given keys slots
  | _, _                         => []

theorem member_none {α : Type} (key : String) (write : α → Json) : member key write none = [] := rfl

/-- A member in front of the members of other keys. -/
theorem member_append_given {α : Type} (key : String) (write : α → Json) (a : Option α)
    (keys : List String) (slots : List (Option Json)) :
    member key write a ++ given keys slots = given (key :: keys) (a.map write :: slots) := by
  cases a <;> rfl

/-- A member is given by its key and one slot. -/
theorem member_eq_given {α : Type} (key : String) (write : α → Json) (a : Option α) :
    member key write a = given [key] [a.map write] := by
  cases a <;> rfl

variable {keys : List String} {slots : List (Option Json)}

/-- Only the keys have members. -/
theorem mem_keys_of_mem_given {m : String × Json} (h : m ∈ given keys slots) : m.1 ∈ keys := by
  induction keys generalizing slots with
  | nil => cases slots <;> nomatch h
  | cons key keys ih =>
      match slots, h with
      | some j :: slots, h =>
          rcases List.mem_cons.mp h with rfl | h
          · exact List.mem_cons_self
          · exact List.mem_cons_of_mem _ (ih h)
      | none :: slots, h => exact List.mem_cons_of_mem _ (ih h)

/-- Another key has no value. -/
theorem valuesOf_given_of_notMem {key : String} (h : key ∉ keys) :
    valuesOf (given keys slots) key = [] := by
  rw [valuesOf, List.map_eq_nil_iff, List.filter_eq_nil_iff]
  intro m hm hkey
  rw [decide_eq_true_eq] at hkey
  exact h (hkey ▸ mem_keys_of_mem_given hm)

/-- The values given for each key are those of its slot. -/
theorem map_valuesOf_given (hkeys : keys.Nodup) (hlen : keys.length = slots.length) :
    keys.map (valuesOf (given keys slots)) = slots.map Option.toList := by
  induction keys generalizing slots with
  | nil =>
      obtain rfl := List.eq_nil_of_length_eq_zero hlen.symm
      rfl
  | cons key keys ih =>
      obtain ⟨slot, slots, rfl⟩ := List.exists_cons_of_length_eq_add_one hlen.symm
      obtain ⟨hnew, hkeys⟩ := List.nodup_cons.mp hkeys
      have hrest := ih hkeys (Nat.succ.inj hlen)
      have hcons : ∀ k, valuesOf (given (key :: keys) (slot :: slots)) k
          = (if key = k then slot.toList else []) ++ valuesOf (given keys slots) k := by
        intro k
        cases slot <;> by_cases hk : key = k <;> simp [given, valuesOf, hk]
      rw [List.map_cons, List.map_cons, hcons, if_pos rfl, valuesOf_given_of_notMem hnew,
        List.append_nil, ← hrest]
      congr 1
      -- the new key adds nothing to the others, which are other keys
      refine List.map_congr_left fun k hk => ?_
      have hne : key ≠ k := fun he => hnew (he ▸ hk)
      rw [hcons, if_neg hne, List.nil_append]

/-- Each key has the value of its slot first. -/
theorem map_head?_given (hkeys : keys.Nodup) (hlen : keys.length = slots.length) :
    (keys.map fun k => (valuesOf (given keys slots) k).head?) = slots := by
  have h := congrArg (List.map List.head?) (map_valuesOf_given hkeys hlen)
  rw [List.map_map, List.map_map] at h
  refine h.trans ?_
  rw [List.map_congr_left fun slot _ => show (List.head? ∘ Option.toList) slot = id slot by
    cases slot <;> rfl, List.map_id]

/-- No key is given twice. -/
theorem all_length_valuesOf_given (hkeys : keys.Nodup) (hlen : keys.length = slots.length) :
    (keys.all fun k => (valuesOf (given keys slots) k).length ≤ 1) = true := by
  rw [List.all_eq_true]
  intro k hk
  have hmem : valuesOf (given keys slots) k ∈ slots.map Option.toList := by
    rw [← map_valuesOf_given hkeys hlen]
    exact List.mem_map_of_mem hk
  obtain ⟨slot, -, hslot⟩ := List.mem_map.mp hmem
  rw [← hslot]
  cases slot <;> rfl

/-- The slots of a record are found in its members. -/
theorem slots?_given (strict : Bool) (hkeys : keys.Nodup) (hlen : keys.length = slots.length) :
    slots? strict keys (given keys slots) = some slots := by
  have hknown : ((given keys slots).all fun m => keys.contains m.1) = true :=
    List.all_eq_true.mpr fun m hm => List.contains_iff_mem.mpr (mem_keys_of_mem_given hm)
  rw [slots?, if_pos ⟨fun _ => hknown, all_length_valuesOf_given hkeys hlen⟩,
    map_head?_given hkeys hlen]

/-- How many containers are open at once in the text of a slot. -/
def slotDepth : Option Json → Nat
  | none   => 0
  | some j => j.depth

@[simp] theorem slotDepth_some (j : Json) : slotDepth (some j) = j.depth := rfl

/-- In a count no container is open. -/
@[simp] theorem slotDepth_count (n : Option UInt64) : slotDepth (n.map count) = 0 := by
  cases n <;> rfl

@[simp] theorem slotDepth_number (n : Option Number) : slotDepth (n.map .number) = 0 := by
  cases n <;> rfl

@[simp] theorem slotDepth_string (s : Option String) : slotDepth (s.map .string) = 0 := by
  cases s <;> rfl

@[simp] theorem slotDepth_bool (b : Option Bool) : slotDepth (b.map .bool) = 0 := by
  cases b <;> rfl

/-- Members fit where each of their slots does. -/
theorem membersDepth_given_le {room : Nat} (hlen : keys.length = slots.length) :
    membersDepth (given keys slots) ≤ room ↔ ∀ slot ∈ slots, slotDepth slot ≤ room := by
  induction keys generalizing slots with
  | nil =>
      obtain rfl := List.eq_nil_of_length_eq_zero hlen.symm
      simp [given, membersDepth]
  | cons key keys ih =>
      obtain ⟨slot, slots, rfl⟩ := List.exists_cons_of_length_eq_add_one hlen.symm
      have hrest := ih (Nat.succ.inj hlen)
      cases slot with
      | none => simp [given, slotDepth, hrest]
      | some j => rw [given, membersDepth, Nat.max_le, hrest, List.forall_mem_cons, slotDepth]

/-- Nothing in a slot is unreadable. -/
def slotReadable : Option Json → Bool
  | none   => true
  | some j => j.readable

@[simp] theorem slotReadable_some (j : Json) : slotReadable (some j) = j.readable := rfl

/-- A slot is readable if all that it can be filled with is. -/
theorem slotReadable_map {α : Type} {write : α → Json} {a : Option α}
    (h : ∀ x, a = some x → (write x).readable = true) : slotReadable (a.map write) = true := by
  cases a with
  | none => rfl
  | some x => exact h x rfl

@[simp] theorem slotReadable_count (n : Option UInt64) : slotReadable (n.map count) = true :=
  slotReadable_map fun _ _ => rfl

@[simp] theorem slotReadable_number (n : Option Number) : slotReadable (n.map .number) = true :=
  slotReadable_map fun _ _ => rfl

@[simp] theorem slotReadable_string (s : Option String) : slotReadable (s.map .string) = true :=
  slotReadable_map fun _ _ => rfl

@[simp] theorem slotReadable_bool (b : Option Bool) : slotReadable (b.map .bool) = true :=
  slotReadable_map fun _ _ => rfl

/-- Members are readable where each of their slots is. -/
theorem membersReadable_given (hlen : keys.length = slots.length) :
    membersReadable (given keys slots) = slots.all slotReadable := by
  induction keys generalizing slots with
  | nil =>
      obtain rfl := List.eq_nil_of_length_eq_zero hlen.symm
      rfl
  | cons key keys ih =>
      obtain ⟨slot, slots, rfl⟩ := List.exists_cons_of_length_eq_add_one hlen.symm
      have hrest := ih (Nat.succ.inj hlen)
      cases slot with
      | none => rw [given, hrest, List.all_cons, slotReadable, Bool.true_and]
      | some j => rw [given, membersReadable, hrest, List.all_cons, slotReadable]

/-- Items are readable if all that is written as one is. -/
theorem itemsReadable_map {α : Type} {write : α → Json} {as : List α}
    (h : ∀ a ∈ as, (write a).readable = true) : itemsReadable (as.map write) = true := by
  induction as with
  | nil => rfl
  | cons a rest ih =>
      rw [List.map_cons, itemsReadable, h a List.mem_cons_self,
        ih fun b hb => h b (List.mem_cons_of_mem _ hb)]
      rfl

/-- Allowed values are readable. -/
theorem readable_values (vs : List Value) : (values vs).readable = true :=
  itemsReadable_map fun v _ => v.json.readable_of_isCanonical v.isCanonical

/-- Lists of texts are readable. -/
theorem readable_strings (names : List String) : (strings names).readable = true :=
  itemsReadable_map fun _ _ => rfl

/-- Default values are readable. -/
theorem readable_defaults (d : Defaults) : d.json.readable = true :=
  d.json.readable_of_isCanonical d.isCanonical

/-! ### Values that read back -/

section ReadsBack

variable {α : Type} {read : Nat → Json → Option α} {write : α → Json}

/-- A value is found in what is written of it, just where there is room for that. -/
def ReadsBack (read : Nat → Json → Option α) (write : α → Json) (a : α) : Prop :=
  ∀ room b, read room (write a) = some b ↔ (write a).depth ≤ room ∧ b = a

/-- What is no container reads back wherever it is. -/
theorem readsBack_of_scalar {a : α} (h : ∀ room, read room (write a) = some a)
    (hdepth : (write a).depth = 0) : ReadsBack read write a := by
  intro room b
  simp [h, hdepth, eq_comm]

/-- Items that read back are read back together. -/
theorem mapM_readsBack {as : List α} (h : ∀ a ∈ as, ReadsBack read write a) (room : Nat)
    (bs : List α) :
    (as.map write).mapM (read room) = some bs ↔ itemsDepth (as.map write) ≤ room ∧ bs = as := by
  induction as generalizing bs with
  | nil => simp [itemsDepth, eq_comm]
  | cons a rest ih =>
      have ha := h a List.mem_cons_self room
      have hrest := ih fun b hb => h b (List.mem_cons_of_mem _ hb)
      simp only [List.map_cons, List.mapM_cons, itemsDepth, Option.bind_eq_bind,
        Option.bind_eq_some_iff, Option.pure_def, Option.some.injEq, ha, hrest]
      constructor
      · rintro ⟨_, ⟨hroom, rfl⟩, _, ⟨hrooms, rfl⟩, rfl⟩
        exact ⟨Nat.max_le.mpr ⟨hroom, hrooms⟩, rfl⟩
      · rintro ⟨hroom, rfl⟩
        exact ⟨a, ⟨(Nat.max_le.mp hroom).1, rfl⟩, rest, ⟨(Nat.max_le.mp hroom).2, rfl⟩, rfl⟩

/-- A list reads back if its items do. -/
theorem readsBack_list {as : List α} (h : ∀ a ∈ as, ReadsBack read write a) :
    ReadsBack (list? read) (fun as => .array (as.map write)) as := by
  intro room bs
  cases room with
  | zero => simp [list?, depth]
  | succ room => rw [list?, mapM_readsBack h, depth, Nat.add_le_add_iff_right]

/-- A value reads back. -/
theorem readsBack_value (v : Value) : ReadsBack value? Value.json v := by
  intro room b
  simp [value?, v.ofJson?_json, eq_comm]

/-- Default values read back. -/
theorem readsBack_defaults (d : Defaults) : ReadsBack defaults? Defaults.json d := by
  intro room b
  simp [defaults?, Defaults.json, d.ofMembers?_members, eq_comm]

/-- Allowed values read back. -/
theorem readsBack_values (vs : List Value) : ReadsBack (list? value?) values vs :=
  readsBack_list fun v _ => readsBack_value v

/-- Lists of texts read back. -/
theorem readsBack_strings (names : List String) :
    ReadsBack (list? fun _ => string?) strings names :=
  readsBack_list fun _ _ => readsBack_of_scalar (fun _ => rfl) rfl

/-! ### Fields -/

theorem array_ne_null (items : List Json) : Json.array items ≠ .null := by
  intro h
  cases h

theorem object_ne_null (members : List (String × Json)) : Json.object members ≠ .null := by
  intro h
  cases h

theorem string_ne_null (s : String) : Json.string s ≠ .null := by
  intro h
  cases h

/-- An optional field is found in its slot if its value reads back. -/
theorem optional_readsBack {a : Option α} (h : ∀ x, a = some x → ReadsBack read write x)
    (hnull : ∀ x, write x ≠ .null) (room : Nat) (b : Option α) :
    optional (read room) (a.map write) = some b ↔ slotDepth (a.map write) ≤ room ∧ b = a := by
  cases a with
  | none => simp [optional, slotDepth, eq_comm]
  | some x =>
      -- only null is read as an absent field
      have hread : optional (read room) (some (write x)) = (read room (write x)).map some := by
        unfold optional
        split
        · next he => nomatch he
        · next he => exact absurd (Option.some.inj he) (hnull x)
        · next he => rw [Option.some.inj he]
      simp only [Option.map_some, hread, Option.map_eq_some_iff, h x rfl room, slotDepth]
      constructor
      · rintro ⟨_, ⟨hroom, rfl⟩, rfl⟩
        exact ⟨hroom, rfl⟩
      · rintro ⟨hroom, rfl⟩
        exact ⟨x, ⟨hroom, rfl⟩, rfl⟩

/-- What is made of one field reads back just where the field does. -/
theorem bind_eq_some_iff_of_reads {β : Type} {field : Option α} {x : α} {fits fits' : Prop}
    (h : ∀ a, field = some a ↔ fits ∧ a = x) (hfits : fits ↔ fits') {make : α → β} {b : β} :
    (field.bind fun a => some (make a)) = some b ↔ fits' ∧ b = make x := by
  rw [Option.bind_eq_some_iff]
  constructor
  · rintro ⟨a, ha, ⟨⟩⟩
    obtain ⟨hfit, rfl⟩ := (h a).mp ha
    exact ⟨hfits.mp hfit, rfl⟩
  · rintro ⟨hfit, rfl⟩
    exact ⟨x, (h x).mpr ⟨hfits.mpr hfit, rfl⟩, rfl⟩

/-- A count is read as itself. -/
theorem count?_count (n : UInt64) : count? (count n) = some n := by
  simp [count?, count, Number.ofCount, Number.toCount?]

/-- An optional count is found in the slot that it fills. -/
@[simp] theorem optional_count (n : Option UInt64) : optional count? (n.map count) = some n := by
  cases n with
  | none => rfl
  | some n => exact congrArg (Option.map some) (count?_count n)

/-- An optional text is found in the slot that it fills. -/
@[simp] theorem optional_string (s : Option String) :
    optional string? (s.map .string) = some s := by
  cases s <;> rfl

/-- An optional number is found in the slot that it fills. -/
@[simp] theorem optional_number (n : Option Number) :
    optional number? (n.map .number) = some n := by
  cases n <;> rfl

/-- An optional flag is found in the slot that it fills. -/
@[simp] theorem optional_bool (b : Option Bool) : optional bool? (b.map .bool) = some b := by
  cases b <;> rfl

end ReadsBack

end Json

end Schemata

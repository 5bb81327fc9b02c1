import Schemata.Proofs.Json.Record
import Schemata.Proofs.Number.Lasting

/-!
# Schemata — Proofs — Json — Numbers

The numbers of a tree (`Json.numbers`), and the tree with others in their place
(`Json.mapNumbers`), which is of the same shape but for numbers that nothing is in the place of.
What the text of a tree is read as is such a tree (`Json.reread`): integers stay, and a float
becomes what its text is read as.  A tree lasts if its numbers do (`Json.Lasts`), and only such a
tree is read back (`Json.reread_eq_self_iff`).

A value with what its numbers are read as is written as the tree that its own text is read as
(`Json.Rereading`); so it is with free-form values and defaults, and with members whose values are
such.
-/

namespace Schemata

namespace Json

mutual
/-- The numbers of a tree, in the order of its text. -/
def numbers : Json → List Number
  | .number n       => [n]
  | .array items    => itemsNumbers items
  | .object members => membersNumbers members
  | _               => []
/-- The numbers of items. -/
def itemsNumbers : List Json → List Number
  | []        => []
  | j :: rest => j.numbers ++ itemsNumbers rest
/-- The numbers of members. -/
def membersNumbers : List (String × Json) → List Number
  | []             => []
  | (_, j) :: rest => j.numbers ++ membersNumbers rest
end

/-- A number, or what is unreadable where there is none. -/
def ofNumber? : Option Number → Json
  | some n => .number n
  | none   => .unreadable

section

variable (r : Number → Option Number)

mutual
/-- The tree with `r n` in the place of every number `n`. -/
def mapNumbers : Json → Json
  | .number n       => ofNumber? (r n)
  | .array items    => .array (mapItems items)
  | .object members => .object (mapMembers members)
  | j               => j
/-- The items with other numbers. -/
def mapItems : List Json → List Json
  | []        => []
  | j :: rest => mapNumbers j :: mapItems rest
/-- The members with other numbers. -/
def mapMembers : List (String × Json) → List (String × Json)
  | []             => []
  | (k, j) :: rest => (k, mapNumbers j) :: mapMembers rest
end

/-- Items have their numbers replaced one by one. -/
theorem mapItems_eq_map (items : List Json) : mapItems r items = items.map (mapNumbers r) := by
  induction items with
  | nil => rfl
  | cons j rest ih => rw [mapItems, ih, List.map_cons]

/-- Members have the numbers of their values replaced one by one. -/
theorem mapMembers_eq_map (members : List (String × Json)) :
    mapMembers r members = members.map fun m => (m.1, m.2.mapNumbers r) := by
  induction members with
  | nil => rfl
  | cons m rest ih => rw [mapMembers, ih, List.map_cons]

variable {r} in
/-- A number stays just where it is replaced by itself. -/
theorem ofNumber?_eq_number_iff {n : Number} : ofNumber? (r n) = .number n ↔ r n = some n := by
  cases r n with
  | none => simp [ofNumber?]
  | some m => simp [ofNumber?]

mutual
/-- A tree stays the same just where each of its numbers does. -/
theorem mapNumbers_eq_self_iff : ∀ j : Json,
    mapNumbers r j = j ↔ ∀ n ∈ j.numbers, r n = some n
  | .null | .bool _ | .string _ | .unreadable => by simp [mapNumbers, numbers]
  | .number n => by simp [mapNumbers, numbers, ofNumber?_eq_number_iff]
  | .array items => by simp [mapNumbers, numbers, mapItems_eq_self_iff items]
  | .object members => by simp [mapNumbers, numbers, mapMembers_eq_self_iff members]
/-- Items stay just where each of their numbers does. -/
theorem mapItems_eq_self_iff : ∀ items : List Json,
    mapItems r items = items ↔ ∀ n ∈ itemsNumbers items, r n = some n
  | [] => by simp [mapItems, itemsNumbers]
  | j :: rest => by
      simp [mapItems, itemsNumbers, mapNumbers_eq_self_iff j, mapItems_eq_self_iff rest, or_imp,
        forall_and]
theorem mapMembers_eq_self_iff : ∀ members : List (String × Json),
    mapMembers r members = members ↔ ∀ n ∈ membersNumbers members, r n = some n
  | [] => by simp [mapMembers, membersNumbers]
  | (k, j) :: rest => by
      simp [mapMembers, membersNumbers, mapNumbers_eq_self_iff j, mapMembers_eq_self_iff rest,
        or_imp, forall_and]
end

theorem depth_ofNumber? (n : Option Number) : (ofNumber? n).depth = 0 := by
  cases n <;> rfl

mutual
/-- Numbers are no containers. -/
theorem depth_mapNumbers : ∀ j : Json, (mapNumbers r j).depth = j.depth
  | .null | .bool _ | .string _ | .unreadable => rfl
  | .number n => depth_ofNumber? (r n)
  | .array items => congrArg (· + 1) (itemsDepth_mapItems items)
  | .object members => congrArg (· + 1) (membersDepth_mapMembers members)
/-- Items are as deep as they were. -/
theorem itemsDepth_mapItems : ∀ items : List Json,
    itemsDepth (mapItems r items) = itemsDepth items
  | [] => rfl
  | j :: rest => by
      rw [mapItems, itemsDepth, itemsDepth, depth_mapNumbers j, itemsDepth_mapItems rest]
/-- Members are as deep as they were. -/
theorem membersDepth_mapMembers : ∀ members : List (String × Json),
    membersDepth (mapMembers r members) = membersDepth members
  | [] => rfl
  | (k, j) :: rest => by
      rw [mapMembers, membersDepth, membersDepth, depth_mapNumbers j,
        membersDepth_mapMembers rest]
end

end

/-! ### Trees that are read again -/

/-- What the text of a tree is read as: the tree with what each of its numbers is read as. -/
def reread (j : Json) : Json := j.mapNumbers Number.reread?

/-- The text of every number of the tree is read as that number. -/
def Lasts (j : Json) : Prop := ∀ n ∈ j.numbers, n.Lasts

instance (j : Json) : Decidable j.Lasts := inferInstanceAs (Decidable (∀ n ∈ j.numbers, n.Lasts))

/-- **A tree is read back just where its numbers last.** -/
theorem reread_eq_self_iff (j : Json) : j.reread = j ↔ j.Lasts :=
  mapNumbers_eq_self_iff Number.reread? j

/-- What is read of a tree is as deep as it is. -/
theorem depth_reread (j : Json) : j.reread.depth = j.depth := depth_mapNumbers _ j

/-! ### Canonical trees -/

/-- Keys stay. -/
theorem map_fst_mapMembers (r : Number → Option Number) (members : List (String × Json)) :
    (mapMembers r members).map Prod.fst = members.map Prod.fst := by
  rw [mapMembers_eq_map, List.map_map]
  rfl

mutual
/-- The keys of objects ascend as before, and no number is lost. -/
theorem isCanonical_reread : ∀ j : Json, j.isCanonical = true → j.reread.isCanonical = true
  | .null, _ | .bool _, _ | .string _, _ => rfl
  | .number n, _ => by
      rw [reread, mapNumbers, n.reread?_eq]
      rfl
  | .array items, h => itemsCanonical_reread items h
  | .object members, h => by
      rw [isCanonical, Bool.and_eq_true] at h
      rw [reread, mapNumbers, isCanonical, Bool.and_eq_true, ascending, map_fst_mapMembers]
      exact ⟨h.1, membersCanonical_reread members h.2⟩
/-- Items that are canonical stay so. -/
theorem itemsCanonical_reread : ∀ items : List Json, itemsCanonical items = true →
    itemsCanonical (mapItems Number.reread? items) = true
  | [], _ => rfl
  | j :: rest, h => by
      rw [itemsCanonical, Bool.and_eq_true] at h
      rw [mapItems, itemsCanonical, Bool.and_eq_true]
      exact ⟨isCanonical_reread j h.1, itemsCanonical_reread rest h.2⟩
theorem membersCanonical_reread : ∀ members : List (String × Json),
    membersCanonical members = true →
      membersCanonical (mapMembers Number.reread? members) = true
  | [], _ => rfl
  | (k, j) :: rest, h => by
      rw [membersCanonical, Bool.and_eq_true] at h
      rw [mapMembers, membersCanonical, Bool.and_eq_true]
      exact ⟨isCanonical_reread j h.1, membersCanonical_reread rest h.2⟩
end

end Json

/-- The value with what each of its numbers is read as. -/
def Value.reread (v : Value) : Value := ⟨v.json.reread, v.json.isCanonical_reread v.isCanonical⟩

/-- The defaults with what each of their numbers is read as. -/
def Defaults.reread (d : Defaults) : Defaults where
  members := Json.mapMembers Number.reread? d.members
  isCanonical := (Json.object d.members).isCanonical_reread d.isCanonical

namespace Json

/-! ### Members -/

/-- A number is read again. -/
theorem reread_number (n : Number) : (Json.number n).reread = .number n.reread := by
  rw [reread, mapNumbers, n.reread?_eq]
  rfl

/-- A count is an integer, and stays. -/
theorem reread_count (n : UInt64) : (count n).reread = count n :=
  (reread_eq_self_iff _).mpr fun _ hm =>
    List.mem_singleton.mp hm ▸ Number.lasts_integer _ _ _

/-- Allowed values are read again one by one. -/
theorem reread_values (vs : List Value) : (values vs).reread = values (vs.map Value.reread) := by
  rw [reread, values, mapNumbers, mapItems_eq_map, List.map_map, values, List.map_map]
  rfl

/-- Texts stay. -/
theorem reread_strings (names : List String) : (strings names).reread = strings names := by
  rw [reread, strings, mapNumbers, mapItems_eq_map, List.map_map]
  rfl

theorem reread_object (members : List (String × Json)) :
    (Json.object members).reread = .object (mapMembers Number.reread? members) := rfl

theorem mapMembers_cons (m : String × Json) (rest : List (String × Json)) :
    mapMembers Number.reread? (m :: rest) = (m.1, m.2.reread) :: mapMembers Number.reread? rest :=
  rfl

theorem mapMembers_append (r : Number → Option Number) (members more : List (String × Json)) :
    mapMembers r (members ++ more) = mapMembers r members ++ mapMembers r more := by
  simp only [mapMembers_eq_map, List.map_append]

section

variable {α : Type} {key : String} {write : α → Json} {again : α → α} {a : Option α}

/-- What is written of `again a` is what the text of `a` is read as. -/
def Rereading (write : α → Json) (again : α → α) : Prop := ∀ a, write (again a) = (write a).reread

theorem mapMembers_member_of (h : ∀ x, a = some x → write (again x) = (write x).reread) :
    mapMembers Number.reread? (member key write a) = member key write (a.map again) := by
  cases a with
  | none => rfl
  | some x => exact congrArg (fun j => [(key, j)]) (h x rfl).symm

/-- A member is read again as its value is. -/
theorem mapMembers_member (h : Rereading write again) (key : String) (a : Option α) :
    mapMembers Number.reread? (member key write a) = member key write (a.map again) :=
  mapMembers_member_of fun x _ => h x

/-- Values without numbers are written as before. -/
theorem mapMembers_member_same (h : ∀ a, (write a).reread = write a) (key : String)
    (a : Option α) : mapMembers Number.reread? (member key write a) = member key write a := by
  have hid : Rereading write id := fun a => (h a).symm
  rw [mapMembers_member hid, Option.map_id_apply]

end

end Json

end Schemata

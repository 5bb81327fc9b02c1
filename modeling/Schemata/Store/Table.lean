import Schemata.Store.Row

/-!
# Schemata — Store — Table

The rows of a store by name, in the order of the names' bytes. `put` sets the row of a name and
leaves the others: `get?_put_self`, `get?_put_of_ne`.
-/

namespace Schemata

/-- Rows by name, in ascending order of the names. -/
structure Table where
  rows : List (String × Row) := []
  ascending : rows.Pairwise (fun a b => a.1 < b.1) := by exact .nil
deriving Repr

namespace Table

/-- The table without rows. -/
def empty : Table := {}

/-- Rows with one set in its place by name. -/
def putIn (name : String) (r : Row) : List (String × Row) → List (String × Row)
  | []        => [(name, r)]
  | e :: rest =>
    if name = e.1 then (name, r) :: rest
    else if name < e.1 then (name, r) :: e :: rest
    else e :: putIn name r rest

/-- The rows are the one that is put and some of those before. -/
theorem mem_putIn {name : String} {r : Row} {rows : List (String × Row)} {e : String × Row}
    (h : e ∈ putIn name r rows) : e = (name, r) ∨ e ∈ rows := by
  induction rows with
  | nil => exact .inl (List.mem_singleton.1 h)
  | cons f rest ih =>
    unfold putIn at h
    split at h
    · rcases List.mem_cons.1 h with h | h
      · exact .inl h
      · exact .inr (List.mem_cons_of_mem _ h)
    · split at h
      · rcases List.mem_cons.1 h with h | h
        · exact .inl h
        · exact .inr h
      · rcases List.mem_cons.1 h with h | h
        · exact .inr (h ▸ List.mem_cons_self)
        · exact (ih h).imp id (List.mem_cons_of_mem _)

/-- A row is put where its name belongs. -/
theorem ascending_putIn {name : String} {r : Row} {rows : List (String × Row)}
    (h : rows.Pairwise fun a b => a.1 < b.1) :
    (putIn name r rows).Pairwise fun a b => a.1 < b.1 := by
  induction rows with
  | nil => exact List.pairwise_singleton _ _
  | cons f rest ih =>
    obtain ⟨hf, hrest⟩ := List.pairwise_cons.1 h
    unfold putIn
    split
    · rename_i he
      exact List.pairwise_cons.2 ⟨fun e m => he ▸ hf e m, hrest⟩
    · split
      · rename_i hlt
        refine List.pairwise_cons.2 ⟨fun e m => ?_, h⟩
        rcases List.mem_cons.1 m with rfl | m
        · exact hlt
        · exact String.lt_trans hlt (hf e m)
      · rename_i hne hnlt
        refine List.pairwise_cons.2 ⟨fun e m => ?_, ih hrest⟩
        rcases mem_putIn m with rfl | m
        · by_cases hlt : f.1 < name
          · exact hlt
          · exact absurd (String.le_antisymm (String.not_lt.1 hlt) (String.not_lt.1 hnlt)) hne
        · exact hf e m

/-- The row of a name. -/
def get? (t : Table) (name : String) : Option Row :=
  (t.rows.find? (·.1 = name)).map Prod.snd

/-- The table with the row of a name set. -/
def put (t : Table) (name : String) (r : Row) : Table :=
  ⟨putIn name r t.rows, ascending_putIn t.ascending⟩

/-- The row that is put is found. -/
theorem find?_putIn_self (name : String) (r : Row) (rows : List (String × Row)) :
    (putIn name r rows).find? (·.1 = name) = some (name, r) := by
  induction rows with
  | nil => simp [putIn]
  | cons e rest ih =>
    unfold putIn
    split
    · simp
    · split
      · simp
      · rename_i h _
        rw [List.find?_cons_of_neg (by simpa using Ne.symm h), ih]

/-- Rows of other names are found as before. -/
theorem find?_putIn_of_ne {name other : String} (r : Row) (rows : List (String × Row))
    (h : other ≠ name) :
    (putIn name r rows).find? (·.1 = other) = rows.find? (·.1 = other) := by
  induction rows with
  | nil => simp [putIn, Ne.symm h]
  | cons e rest ih =>
    unfold putIn
    split
    · rename_i he
      rw [List.find?_cons_of_neg (by simpa using Ne.symm h),
        List.find?_cons_of_neg (by simpa [← he] using Ne.symm h)]
    · split
      · rw [List.find?_cons_of_neg (by simpa using Ne.symm h)]
      · rw [List.find?_cons, List.find?_cons, ih]

@[simp] theorem get?_put_self (t : Table) (name : String) (r : Row) :
    (t.put name r).get? name = some r := by
  simp [get?, put, find?_putIn_self]

theorem get?_put_of_ne (t : Table) {name other : String} (r : Row) (h : other ≠ name) :
    (t.put name r).get? other = t.get? other := by
  simp [get?, put, find?_putIn_of_ne r t.rows h]

end Table

end Schemata

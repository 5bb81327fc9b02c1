import Schemata.Proofs.Session

/-!
# Schemata — Proofs — Session — Registering

What a session holds after models were registered with it, one after another.  A name that comes
again keeps its place and takes the new document.  So the session holds the names in the order of
their first occurrence, each once (`Session.names_registered`), and under each the last model of
that name (`Session.find?_registered`).

A report of what came of such models lists each name once (`Report.itemizes_ofEntries`).
-/

namespace Schemata

namespace Session

/-- The session that models were registered with, in order. -/
def registered (models : List Model) : Session := models.foldl register {}

variable {models : List Model} {m : Model}

theorem map_name_stage (m : Model) (ms : List Model) :
    (stage m ms).map Model.name =
      if m.name ∈ ms.map Model.name then ms.map Model.name else ms.map Model.name ++ [m.name] := by
  induction ms with
  | nil => rfl
  | cons n rest ih =>
      unfold stage
      by_cases hn : n.name = m.name
      · simp [hn]
      · rw [if_neg hn, List.map_cons, ih, List.map_cons]
        by_cases hm : m.name ∈ rest.map Model.name
        · rw [if_pos hm, if_pos (List.mem_cons_of_mem _ hm)]
        · rw [if_neg hm, if_neg (List.not_mem_cons_of_ne_of_not_mem (Ne.symm hn) hm)]
          rfl

/-- **A session holds the names that were registered**, each once, in the order in which they came
first. -/
theorem names_registered (models : List Model) :
    (registered models).names = (models.map Model.name).eraseDups :=
  keys_foldl register Model.name names (fun s m => map_name_stage m s.pending) rfl models

theorem pending_registered_ne_nil (h : models ≠ []) : (registered models).pending ≠ [] := by
  intro hnil
  have hnames := names_registered models
  rw [names, hnil] at hnames
  obtain ⟨m, rest, rfl⟩ := List.exists_cons_of_ne_nil h
  simp [List.eraseDups_cons] at hnames

theorem nodup_registered (models : List Model) : (registered models).names.Nodup :=
  names_registered models ▸ nodup_eraseDups _

/-- **Of every name a session holds the last model** that was registered. -/
theorem find?_registered (models : List Model) (name : String) :
    (registered models).pending.find? (·.name = name)
      = models.reverse.find? (·.name = name) := by
  have hlast := find_foldl register Model.name (fun s name => s.pending.find? (·.name = name)) id
    (fun s m => find?_stage m s.pending) models {} name
  simpa [registered] using hlast

end Session

/-! ### Reports -/

/-- An entry of a name tells of one change. -/
theorem Entry.count_changes (name : String) (es : List Entry) :
    count name .created es + count name .updated es + count name .unchanged es
      = (es.map (·.model.name)).count name := by
  induction es with
  | nil => rfl
  | cons e rest ih =>
      obtain ⟨m, now, c⟩ := e
      rw [List.map_cons, List.count_cons, ← ih]
      simp only [count, List.countP_cons, is]
      by_cases h : m.name = name
      · cases c <;> simp [h] <;> omega
      · simp [h]

namespace Report

/-- A report lists names: each of them under one change, and those under a change in order. -/
structure Itemizes (r : Report) (names : List String) : Prop where
  once : (r.created ++ r.updated ++ r.unchanged).Perm names
  ordered : ∀ c, (r.of c).Sublist names

/-- A report of entries lists their names. -/
theorem itemizes_ofEntries (es : List Entry) :
    (ofEntries es).Itemizes (es.map (·.model.name)) := by
  refine ⟨?_, fun c => ?_⟩
  · rw [List.perm_iff_count]
    intro name
    rw [List.count_append, List.count_append]
    change ((ofEntries es).of .created).count name + ((ofEntries es).of .updated).count name
      + ((ofEntries es).of .unchanged).count name = _
    rw [count_ofEntries, count_ofEntries, count_ofEntries]
    exact Entry.count_changes name es
  · rw [of_ofEntries]
    exact List.filter_sublist.map _

end Report

end Schemata

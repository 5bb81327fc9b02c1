import Schemata.FilePath
import Schemata.Proofs.FileTree.Name

/-!
# Schemata — Proofs — Path

Paths of names.  They are in the order of the bytes of their names, one after another
(`Path.le_iff_of_names`), and a path is as long as any that it goes on from, or longer
(`FilePath.size_ofNames_append`).
-/

namespace Schemata

/-! ### Pieces of a text -/

/-- A text has one piece at least. -/
theorem piecesAt_ne_nil (separator : Char) (text : List Char) : piecesAt separator text ≠ [] := by
  unfold piecesAt
  split
  · nofun
  · split
    · nofun
    · split <;> nofun

/-- No separator is left in a piece. -/
theorem separator_notMem (separator : Char) (text : List Char) :
    ∀ piece ∈ piecesAt separator text, separator ∉ piece := by
  induction text with
  | nil => simp [piecesAt]
  | cons c rest ih =>
      rw [piecesAt]
      by_cases hc : c = separator
      · rw [if_pos hc]
        exact List.forall_mem_cons.mpr ⟨List.not_mem_nil, ih⟩
      · obtain ⟨first, later, hpieces⟩ :=
          List.exists_cons_of_ne_nil (piecesAt_ne_nil separator rest)
        rw [hpieces, List.forall_mem_cons] at ih
        rw [if_neg hc, hpieces]
        refine List.forall_mem_cons.mpr ⟨?_, ih.2⟩
        rw [List.mem_cons, not_or]
        exact ⟨Ne.symm hc, ih.1⟩

namespace Path

variable {pattern : String}

/-- Names are compared by their bytes, one after another. -/
theorem piecesLe_iff_of_names {p q : List String} (hp : ∀ piece ∈ p, FileName.IsProper piece)
    (hq : ∀ piece ∈ q, FileName.IsProper piece) :
    piecesLe p q = true ↔ p.map FileName.bytes ≤ q.map FileName.bytes := by
  induction p generalizing q with
  | nil => simp [piecesLe]
  | cons a as ih =>
      cases q with
      | nil => simp [piecesLe]
      | cons b bs =>
          obtain ⟨ha, has⟩ := List.forall_mem_cons.mp hp
          obtain ⟨hb, hbs⟩ := List.forall_mem_cons.mp hq
          rw [piecesLe, List.map_cons, List.map_cons, List.cons_le_cons_iff]
          by_cases hab : a = b
          · subst hab
            rw [if_pos rfl, ih has hbs]
            simp [List.lt_irrefl]
          · have hne : FileName.bytes a ≠ FileName.bytes b := fun h => hab (ha.eq_of_bytes hb h)
            have hle : pieceLe a b = true ↔ FileName.bytes a ≤ FileName.bytes b := by
              simp [pieceLe, ha.ne_parent, hb.ne_parent]
            rw [if_neg hab, hle]
            refine ⟨fun h => .inl ?_, ?_⟩
            · exact Decidable.byContradiction fun hlt =>
                hne (List.le_antisymm h (List.not_lt.mp hlt))
            · rintro (hlt | ⟨heq, -⟩)
              · exact Std.le_of_lt hlt
              · exact absurd heq hne

/-- **Paths of names are in the order of the bytes of their names**, one after another. -/
theorem le_iff_of_names {p q : List String} (hp : ∀ piece ∈ p, FileName.IsProper piece)
    (hq : ∀ piece ∈ q, FileName.IsProper piece) :
    le p q = true ↔ p.map FileName.bytes ≤ q.map FileName.bytes := by
  have hkept : ∀ {p : List String}, (∀ piece ∈ p, FileName.IsProper piece) →
      p.filter (· ≠ current) = p := fun h =>
    List.filter_eq_self.mpr fun piece hpiece => decide_eq_true (h piece hpiece).ne_current
  rw [le, hkept hp, hkept hq]
  exact piecesLe_iff_of_names hp hq

end Path

namespace FilePath

/-! ### The length of a path -/

theorem intercalate_append {α : Type} {sep : List α} {front rest : List (List α)}
    (hfront : front ≠ []) (hrest : rest ≠ []) :
    sep.intercalate (front ++ rest) = sep.intercalate front ++ sep ++ sep.intercalate rest := by
  induction front with
  | nil => exact absurd rfl hfront
  | cons a later ih =>
      cases later with
      | nil => rw [List.singleton_append, List.intercalate_cons_of_ne_nil hrest,
          List.intercalate_singleton]
      | cons b later =>
          rw [List.cons_append, List.intercalate_cons_of_ne_nil (by simp),
            ih (List.cons_ne_nil _ _), List.intercalate_cons_of_ne_nil (List.cons_ne_nil _ _)]
          simp only [List.append_assoc]

/-- The bytes that names have in a path. -/
def span (names : List String) : Nat := ([slash].intercalate (names.map FileName.bytes)).length

/-- A path is as long as its names and the slashes before and between them. -/
theorem size_ofNames (isAbsolute : Bool) (names : List String) :
    (ofNames isAbsolute names).size = isAbsolute.toNat + span names := by
  rw [ofNames, size, List.length_append, span]
  cases isAbsolute <;> rfl

/-- Two stretches of names have a slash between them. -/
theorem span_append {front rest : List String} (hfront : front ≠ []) (hrest : rest ≠ []) :
    span (front ++ rest) = span front + 1 + span rest := by
  rw [span, List.map_append, intercalate_append (by simpa using hfront) (by simpa using hrest),
    List.length_append, List.length_append]
  rfl

/-- A path is as long as any that it goes on from, or longer. -/
theorem size_ofNames_append (isAbsolute : Bool) (front rest : List String) :
    (ofNames isAbsolute front).size ≤ (ofNames isAbsolute (front ++ rest)).size := by
  rw [size_ofNames, size_ofNames]
  refine Nat.add_le_add_left ?_ _
  by_cases hfront : front = []
  · rw [hfront]
    exact Nat.zero_le _
  by_cases hrest : rest = []
  · exact Nat.le_of_eq (by rw [hrest, List.append_nil])
  · rw [span_append hfront hrest]
    omega

/-- A path that goes on behind a slash is longer than one that ends in it. -/
theorem size_ofNames_slash (isAbsolute : Bool) (front : List String) {rest : List String}
    (hrest : rest ≠ []) :
    (ofNames isAbsolute (front ++ [""])).size ≤ (ofNames isAbsolute (front ++ rest)).size := by
  have hempty : span [""] = 0 := by decide +kernel
  rw [size_ofNames, size_ofNames]
  refine Nat.add_le_add_left ?_ _
  by_cases hfront : front = []
  · rw [hfront, List.nil_append, hempty]
    exact Nat.zero_le _
  · rw [span_append hfront hrest, span_append hfront (List.cons_ne_nil _ _), hempty]
    omega

end FilePath

end Schemata

import Schemata.Proofs.FileTree.Walking

/-!
# Schemata — Proofs — FileTree — Slashes

Places by paths that may end in a slash.  An empty piece of a path stays in a directory and leaves a
slash at the end, which goes once something follows (`Place.slashed`).  So what a place leads to
does not depend on that slash (`Place.children_bare`, `Place.below_bare`, `Place.step_bare`), and
places are compared by their paths without it (`Place.bare`).
-/

namespace Schemata

variable {α : Type}

namespace Place

/-- A place by its path without a slash at the end. -/
def bare (p : Place α) : Place α := { p with path := unslashed p.path }

/-- A place in a proper tree whose path has no empty piece, but one at its end if the place is a
directory. -/
structure IsTidy (p : Place α) : Prop where
  bare : p.bare.IsProper
  file : p.tree.isFile = true → p.bare = p

variable {p q : Place α} {name : String} {names : List String}

/-- A proper place has no slash at the end of its path. -/
theorem IsProper.bare_eq (h : p.IsProper) : p.bare = p := by
  rw [bare, unslashed_eq fun hempty => (h.path "" hempty).1 rfl]

/-- A proper place is tidy: there is no slash to leave out. -/
theorem IsProper.isTidy (h : p.IsProper) : p.IsTidy :=
  ⟨h.bare_eq.symm ▸ h, fun _ => h.bare_eq⟩

/-! ### What follows a slash -/

/-- Paths go on from the path without a slash. -/
theorem stem_eq_bare (hp : p.bare.IsProper) : p.stem = p.bare.path := by
  unfold stem
  split
  · next hhere =>
      have hall := List.all_eq_true.mp (Bool.and_eq_true_iff.mp hhere).2
      have hpath : p.bare.path = p.path := unslashed_eq fun hempty =>
        absurd (of_decide_eq_true (hall "" hempty)) (by decide)
      refine (List.eq_nil_iff_forall_not_mem.mpr fun piece hpiece => ?_).symm
      exact (hp.path piece hpiece).2 (of_decide_eq_true (hall piece (hpath ▸ hpiece)))
  · rfl

theorem stem_bare (hp : p.bare.IsProper) : p.bare.stem = p.stem :=
  hp.stem_eq.trans (stem_eq_bare hp).symm

/-- What is in a place does not depend on a slash at the end of its path. -/
theorem children_bare (hp : p.bare.IsProper) : p.bare.children = p.children := by
  rw [children, children, stem_bare hp]
  rfl

/-- Nor does what is below it. -/
theorem below_bare (hp : p.bare.IsProper) : p.bare.below = p.below := by
  rw [below, below, stem_bare hp]
  rfl

/-- Listing all that is below a place leads along names, whatever is at the end of its path. -/
theorem exists_leadsTo_of_mem_below (hp : p.bare.IsProper) (hq : q ∈ p.below) :
    ∃ names, p.bare.LeadsTo names q := by
  rw [← below_bare hp] at hq
  obtain ⟨names, -, hleads⟩ := leadsTo_of_mem_below hp hq
  exact ⟨names, hleads⟩

/-- Following a name does not depend on a slash in front of it. -/
theorem step_bare (hp : p.bare.IsProper) (hempty : name ≠ "") (hcurrent : name ≠ Path.current)
    (hparent : name ≠ Path.parent) : p.bare.step name = p.step name := by
  have hpath : p.bare.joined name = p.joined name := by
    rw [joined, joined, if_neg fun he => hempty he.1, if_neg fun he => hempty he.1, stem_bare hp]
  rw [step, step, hpath]
  cases htree : p.tree with
  | file => simp only [bare, htree]
  | directory entries =>
      simp only [bare, htree, if_neg hempty, if_neg hcurrent, if_neg hparent]

/-! ### The length of a path without its slash -/

/-- A path without its slash is not longer. -/
theorem isWithinReach_bare (h : p.isWithinReach = true) : p.bare.isWithinReach = true := by
  obtain ⟨rest, hrest⟩ : unslashed p.path <+: p.path := by
    unfold unslashed
    split
    · exact List.dropLast_prefix _
    · exact List.prefix_rfl
  have hreaches : p.bare.Reaches rest := by
    change (FilePath.ofNames _ (unslashed p.path ++ rest)).size < _
    rw [hrest]
    exact of_decide_eq_true h
  exact hreaches.isWithinReach

/-- A path that goes on behind a slash is longer than one that ends in it. -/
theorem Reaches.isWithinReach_of_bare (hne : names ≠ []) (h : p.bare.Reaches names) :
    p.isWithinReach = true := by
  change (FilePath.ofNames _ (unslashed p.path ++ names)).size < _ at h
  unfold unslashed at h
  split at h
  · next hlast =>
      obtain ⟨front, hfront⟩ := List.getLast?_eq_some_iff.mp hlast
      rw [hfront, List.dropLast_concat] at h
      refine decide_eq_true (Nat.lt_of_le_of_lt ?_ h)
      rw [filePath, hfront]
      exact FilePath.size_ofNames_slash _ front hne
  · exact Reaches.isWithinReach (p := p) h

/-! ### A slash at the end -/

/-- A directory by a path with a slash at the end; the root has one as it is. -/
def slashed (p : Place α) : Place α := { p with path := p.joined "", listed := false }

/-- A slash that is added is left out again. -/
theorem path_bare_slashed (hp : p.bare.IsProper) : p.slashed.bare.path = p.bare.path := by
  change unslashed (p.joined "") = p.bare.path
  unfold joined
  split
  · next hpath => rw [bare, hpath.2]
  · rw [stem_eq_bare hp, unslashed, if_pos List.getLast?_concat, List.dropLast_concat]

/-- A directory stays tidy with a slash. -/
theorem IsTidy.slashed (hp : p.IsTidy) (h : p.tree.isDirectory = true) : p.slashed.IsTidy := by
  refine ⟨⟨hp.bare.tree, ?_⟩, fun hfile => ?_⟩
  · rw [path_bare_slashed hp.bare]
    exact hp.bare.path
  · change (!p.tree.isDirectory) = true at hfile
    rw [h] at hfile
    nomatch hfile

/-- A slash leads nowhere else. -/
theorem leadsTo_slashed (hp : p.bare.IsProper) : p.bare.LeadsTo [] p.slashed.bare :=
  ⟨rfl, rfl, by rw [path_bare_slashed hp, List.append_nil]⟩

/-- A place by a path of names is not the working directory. -/
theorem isHere_of_path_ne_nil (hp : p.bare.IsProper) (hne : p.bare.path ≠ []) :
    p.isHere = false := by
  refine Bool.eq_false_iff.mpr fun hhere => hne ?_
  rw [← stem_eq_bare hp, stem, if_pos hhere]

theorem isHere_slashed (h : p.isHere = false) : p.slashed.isHere = false := by
  refine Bool.eq_false_iff.mpr fun hhere => Bool.eq_false_iff.mp h ?_
  obtain ⟨hrelative, hall⟩ := Bool.and_eq_true_iff.mp hhere
  -- a slash at the end is no piece that stays
  change (p.joined "").all _ = true at hall
  unfold joined at hall
  split at hall
  · next hpath => exact Bool.and_eq_true_iff.mpr ⟨hrelative, by rw [hpath.2]; rfl⟩
  · rw [List.all_append, Bool.and_eq_true] at hall
    exact absurd hall.2 (by decide)

end Place

end Schemata

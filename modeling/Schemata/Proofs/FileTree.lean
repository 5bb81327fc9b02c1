import Schemata.Workspace.Companion

/-!
# Schemata — Proofs — FileTree

What there is at a path stays as long as nothing is put at that path or at the path of a directory
above it, and nothing is deleted there, but that a directory is made if something is put below it
(`FileTree.kind?_put?`, `FileTree.kind?_delete`).  What is put below a file is not put at all.  So a
file stays, with its content, and so does a directory; and one that is made where nothing was makes
no file either (`FileTree.content?_putD_directory`).
-/

namespace Schemata

namespace FileTree

variable {α : Type} {t t' new : FileTree α} {content : α} {p q : List String}

/-! ### Entries of a directory -/

/-- An entry that is put is found. -/
theorem entryOf_putEntry_self (name : String) (t : FileTree α)
    (entries : List (String × FileTree α)) :
    entryOf (putEntry name t entries) name = some t := by
  unfold entryOf
  induction entries with
  | nil => simp [putEntry]
  | cons e rest ih =>
      unfold putEntry
      split
      · simp
      · next hne =>
          split
          · simp
          · rw [List.find?_cons_of_neg (by simpa using Ne.symm hne), ih]

/-- An entry that is put leaves the others. -/
theorem entryOf_putEntry_of_ne {name other : String} (h : other ≠ name) (t : FileTree α)
    (entries : List (String × FileTree α)) :
    entryOf (putEntry name t entries) other = entryOf entries other := by
  unfold entryOf
  induction entries with
  | nil => simp [putEntry, Ne.symm h]
  | cons e rest ih =>
      unfold putEntry
      split
      · next he =>
          rw [List.find?_cons_of_neg (by simpa using Ne.symm h),
            List.find?_cons_of_neg (by simpa [← he] using Ne.symm h)]
      · split
        · rw [List.find?_cons_of_neg (by simpa using Ne.symm h)]
        · rw [List.find?_cons, List.find?_cons]
          split
          · rfl
          · exact ih

/-- An entry that is left out leaves the others. -/
theorem entryOf_filter_of_ne {name other : String} (h : other ≠ name)
    (entries : List (String × FileTree α)) :
    entryOf (entries.filter (·.1 ≠ name)) other = entryOf entries other := by
  unfold entryOf
  rw [List.find?_filter]
  congr 2
  funext e
  by_cases he : e.1 = other
  · simp [he, h]
  · simp [he]

theorem get?_directory (entries : List (String × FileTree α)) (name : String)
    (rest : List String) :
    (directory entries).get? (name :: rest) = (entryOf entries name).bind (·.get? rest) := by
  simp [get?]

/-- What a path leads to is what the rest of it leads to from where its front does. -/
theorem get?_append (t : FileTree α) (p q : List String) :
    t.get? (p ++ q) = (t.get? p).bind (·.get? q) := by
  induction p generalizing t with
  | nil => simp [get?]
  | cons name rest ih =>
      cases t with
      | file c => simp [get?]
      | directory entries =>
          rw [List.cons_append, get?_directory, get?_directory]
          cases entryOf entries name with
          | none => rfl
          | some sub => exact ih sub

/-! ### Putting and deleting -/

/-- Whatever is there can be put again. -/
theorem put?_isSome (h : (t.get? p).isSome) (new : FileTree α) : (t.put? p new).isSome := by
  induction p generalizing t with
  | nil => rfl
  | cons name rest ih =>
      cases t with
      | file c => nomatch h
      | directory entries =>
          rw [get?_directory] at h
          cases he : entryOf entries name with
          | none => rw [he] at h; nomatch h
          | some sub =>
              rw [he] at h
              simpa [put?, he] using ih h

/-- What is put at a path is found there. -/
theorem get?_put?_self (h : t.put? p new = some t') : t'.get? p = some new := by
  induction p generalizing t t' with
  | nil =>
      obtain rfl := Option.some.inj h
      rfl
  | cons name rest ih =>
      cases t with
      | file c => nomatch h
      | directory entries =>
          obtain ⟨sub, hsub, rfl⟩ := Option.map_eq_some_iff.mp h
          rw [get?_directory, entryOf_putEntry_self]
          exact ih hsub

/-! ### What there is -/

/-- What there is at a path: a file with its content, or a directory. -/
def kind? (t : FileTree α) (p : List String) : Option (Option α) :=
  (t.get? p).map fun
    | .file content => some content
    | .directory _  => none

theorem kind?_directory (entries : List (String × FileTree α)) (name : String)
    (rest : List String) :
    (directory entries).kind? (name :: rest) = (entryOf entries name).bind (·.kind? rest) := by
  unfold kind?
  rw [get?_directory]
  cases entryOf entries name <;> rfl

theorem content?_eq (t : FileTree α) (p : List String) : t.content? p = (t.kind? p).join := by
  unfold content? kind?
  cases t.get? p with
  | none => rfl
  | some found => cases found <;> rfl

/-- There is a directory at a path just where what is there has no content. -/
theorem hasDirectory_iff : t.hasDirectory p = true ↔ t.kind? p = some none := by
  unfold hasDirectory kind?
  cases t.get? p with
  | none => simp
  | some found => cases found <;> simp

/-- Where there is content there is a file. -/
theorem get?_of_content? (h : t.content? p = some content) : t.get? p = some (.file content) := by
  unfold content? at h
  split at h
  · next c hc => exact hc.trans (congrArg (some ∘ file) (Option.some.inj h))
  · nomatch h

theorem kind?_empty_cons (name : String) (rest : List String) :
    (empty : FileTree α).kind? (name :: rest) = none := by
  rw [empty, kind?_directory]
  rfl

theorem content?_empty (p : List String) : (empty : FileTree α).content? p = none := by
  rw [content?_eq]
  cases p with
  | nil => rfl
  | cons name rest => rw [kind?_empty_cons]; rfl

/-- What is put at a path leaves everything else that is not below it, but makes the directories
above it that were missing. -/
theorem kind?_put? (hq : ¬ q <+: p) (h : t.put? q new = some t') :
    t'.kind? p = t.kind? p ∨ p <+: q ∧ t.kind? p = none ∧ t'.kind? p = some none := by
  induction q generalizing t t' p with
  | nil => exact absurd List.nil_prefix hq
  | cons b q ih =>
      cases t with
      | file c => nomatch h
      | directory entries =>
          obtain ⟨sub', hsub', rfl⟩ := Option.map_eq_some_iff.mp h
          cases p with
          | nil => exact .inl rfl
          | cons a p =>
              rw [kind?_directory, kind?_directory]
              by_cases hab : a = b
              · subst hab
                have hsub := ih (fun hpre => hq (List.cons_prefix_cons.mpr ⟨rfl, hpre⟩)) hsub'
                rw [entryOf_putEntry_self, Option.bind_some]
                cases hentry : entryOf entries a with
                | some sub =>
                    rw [hentry] at hsub
                    refine hsub.imp id fun ⟨hpre, hrest⟩ => ⟨?_, hrest⟩
                    exact List.cons_prefix_cons.mpr ⟨rfl, hpre⟩
                -- below a directory that was missing there was nothing
                | none =>
                    rw [hentry] at hsub
                    cases p with
                    | nil =>
                        refine .inr ⟨List.cons_prefix_cons.mpr ⟨rfl, List.nil_prefix⟩, rfl, ?_⟩
                        exact hsub.elim id fun h => h.2.2
                    | cons c p =>
                        rw [Option.getD_none, kind?_empty_cons] at hsub
                        refine hsub.imp id fun ⟨hpre, _, hmade⟩ => ⟨?_, rfl, hmade⟩
                        exact List.cons_prefix_cons.mpr ⟨rfl, hpre⟩
              · rw [entryOf_putEntry_of_ne hab]
                exact .inl rfl

/-- What is put apart from a path changes nothing there. -/
theorem kind?_putD_apart (hq : ¬ q <+: p) (hp : ¬ p <+: q) (new : FileTree α) :
    ((t.put? q new).getD t).kind? p = t.kind? p := by
  cases hput : t.put? q new with
  | none => rfl
  | some t' =>
      rcases kind?_put? hq hput with hsame | ⟨hpre, -⟩
      · exact hsame
      · exact absurd hpre hp

/-- A directory that is made where nothing was makes nothing else but what is above it. -/
theorem kind?_putD_directory (hq : t.get? q = none) (hp : ¬ p <+: q) :
    ((t.put? q .empty).getD t).kind? p = t.kind? p := by
  cases hput : t.put? q .empty with
  | none => rfl
  | some t' =>
      rw [Option.getD_some]
      by_cases hpre : q <+: p
      · obtain ⟨rest, rfl⟩ := hpre
        unfold kind?
        rw [get?_append, get?_append, hq, get?_put?_self hput, Option.bind_some]
        cases rest with
        | nil => exact absurd (show q ++ [] <+: q by simp) hp
        | cons name rest => rfl
      · rcases kind?_put? hpre hput with hsame | ⟨habove, -⟩
        · exact hsame
        · exact absurd habove hp

/-- What is deleted leaves everything else that is not below it. -/
theorem kind?_delete (hq : ¬ q <+: p) : (t.delete q).kind? p = t.kind? p := by
  induction q generalizing t p with
  | nil => exact absurd List.nil_prefix hq
  | cons b q ih =>
      cases t with
      | file c => rfl
      | directory entries =>
          cases p with
          | nil =>
              simp only [delete]
              split
              · rfl
              · split <;> rfl
          | cons a p =>
              simp only [delete]
              split
              -- at the end of the path an entry goes, which is none of the others
              · next hempty =>
                  have hab : a ≠ b := by
                    rintro rfl
                    refine hq (List.cons_prefix_cons.mpr ⟨rfl, ?_⟩)
                    rw [List.isEmpty_iff.mp hempty]
                    exact List.nil_prefix
                  rw [kind?_directory, kind?_directory, entryOf_filter_of_ne hab]
              · split
                · rfl
                · next sub hsub =>
                    rw [kind?_directory, kind?_directory]
                    by_cases hab : a = b
                    · subst hab
                      rw [entryOf_putEntry_self, hsub, Option.bind_some, Option.bind_some]
                      exact ih fun hpre => hq (List.cons_prefix_cons.mpr ⟨rfl, hpre⟩)
                    · rw [entryOf_putEntry_of_ne hab]

/-- Where something is deleted there is nothing afterwards. -/
theorem get?_delete_self (hp : p ≠ []) : (t.delete p).get? p = none := by
  induction p generalizing t with
  | nil => exact absurd rfl hp
  | cons name rest ih =>
      cases t with
      | file c => rfl
      | directory entries =>
          simp only [delete]
          split
          · have hgone : entryOf (entries.filter (·.1 ≠ name)) name = none := by
              unfold entryOf
              rw [List.find?_filter, Option.map_eq_none_iff, List.find?_eq_none]
              simp
            rw [get?_directory, hgone]
            rfl
          · next hrest =>
              split
              · next hnone => rw [get?_directory, hnone]; rfl
              · rw [get?_directory, entryOf_putEntry_self]
                exact ih fun hnil => hrest (List.isEmpty_iff.mpr hnil)

/-- Deleting makes nothing. -/
theorem kind?_delete_cases (hq : q ≠ []) (p : List String) :
    (t.delete q).kind? p = none ∨ (t.delete q).kind? p = t.kind? p := by
  by_cases hpre : q <+: p
  · obtain ⟨rest, rfl⟩ := hpre
    refine .inl ?_
    rw [kind?, get?_append, get?_delete_self hq]
    rfl
  · exact .inr (kind?_delete hpre)

/-- Putting a file makes nothing else, unless it is above the file. -/
theorem kind?_putD_file (hp : p <+: q → p = q) (content : α) :
    let t' := (t.put? q (.file content)).getD t
    t'.kind? p = t.kind? p ∨ t'.kind? p = none ∨ p = q ∧ t'.kind? p = some (some content) := by
  intro t'
  cases hput : t.put? q (.file content) with
  | none => exact .inl (by simp only [t', hput, Option.getD_none])
  | some made =>
      obtain rfl : t' = made := by simp only [t', hput, Option.getD_some]
      by_cases hpre : q <+: p
      · obtain ⟨rest, rfl⟩ := hpre
        have hbelow : t'.kind? (q ++ rest) = (file content).kind? rest := by
          unfold kind?
          rw [get?_append, get?_put?_self hput, Option.bind_some]
        rw [hbelow]
        cases rest with
        | nil => exact .inr (.inr ⟨List.append_nil q, rfl⟩)
        | cons name rest => exact .inr (.inl rfl)
      · rcases kind?_put? hpre hput with hsame | ⟨habove, -⟩
        · exact .inl hsame
        · exact absurd (hp habove ▸ List.prefix_refl p) hpre

/-! ### Contents -/

/-- What is put where no path to a file leads neither makes the file nor takes it away. -/
theorem content?_putD (hq : ¬ q <+: p) (new : FileTree α) :
    ((t.put? q new).getD t).content? p = t.content? p := by
  cases h : t.put? q new with
  | none => rfl
  | some t' =>
      rw [Option.getD_some, content?_eq, content?_eq]
      rcases kind?_put? hq h with hsame | ⟨-, hbefore, hafter⟩
      · rw [hsame]
      · rw [hbefore, hafter]
        rfl

/-- A file that is put in the place of something is read. -/
theorem content?_putD_self (h : (t.get? p).isSome) (content : α) :
    ((t.put? p (.file content)).getD t).content? p = some content := by
  obtain ⟨t', ht'⟩ := Option.isSome_iff_exists.mp (put?_isSome h (.file content))
  rw [ht', Option.getD_some, content?, get?_put?_self ht']

/-- A directory that is made where nothing was has no files, and there were none. -/
theorem content?_putD_directory (hq : t.get? q = none) :
    ((t.put? q .empty).getD t).content? p = t.content? p := by
  by_cases hpre : q <+: p
  · obtain ⟨rest, rfl⟩ := hpre
    cases h : t.put? q .empty with
    | none => rfl
    | some t' =>
        have hbelow : t'.content? (q ++ rest) = (empty : FileTree α).content? rest := by
          unfold content?
          rw [get?_append, get?_put?_self h, Option.bind_some]
        have hnone : t.content? (q ++ rest) = none := by
          unfold content?
          rw [get?_append, hq, Option.bind_none]
        rw [Option.getD_some, hbelow, content?_empty, hnone]
  · exact content?_putD hpre _

/-- What is deleted where no path to a file leads leaves the file. -/
theorem content?_delete (hq : ¬ q <+: p) : (t.delete q).content? p = t.content? p := by
  rw [content?_eq, content?_eq, kind?_delete hq]

/-! ### Directories -/

/-- Putting something takes no directory away that is not at its place or below. -/
theorem hasDirectory_putD (hq : ¬ q <+: p) (new : FileTree α) (h : t.hasDirectory p = true) :
    ((t.put? q new).getD t).hasDirectory p = true := by
  rw [hasDirectory_iff] at h ⊢
  cases hput : t.put? q new with
  | none => exact h
  | some t' =>
      rcases kind?_put? hq hput with hsame | ⟨-, hnone, -⟩
      · exact hsame.trans h
      · nomatch h.symm.trans hnone

/-- A directory that is made where nothing was takes none away. -/
theorem hasDirectory_putD_directory (hq : t.get? q = none) (h : t.hasDirectory p = true) :
    ((t.put? q .empty).getD t).hasDirectory p = true := by
  refine hasDirectory_putD (fun hpre => ?_) _ h
  obtain ⟨rest, rfl⟩ := hpre
  rw [hasDirectory_iff, kind?, get?_append, hq] at h
  nomatch h

/-- Putting something makes no directory but those above it. -/
theorem hasDirectory_of_putD (hq : ¬ q <+: p) (hp : ¬ p <+: q) {new : FileTree α}
    (h : ((t.put? q new).getD t).hasDirectory p = true) : t.hasDirectory p = true := by
  rw [hasDirectory_iff] at h ⊢
  cases hput : t.put? q new with
  | none => rwa [hput] at h
  | some t' =>
      rw [hput] at h
      rcases kind?_put? hq hput with hsame | ⟨hpre, -⟩
      · exact hsame.symm.trans h
      · exact absurd hpre hp

/-- Putting a file makes directories only above it. -/
theorem hasDirectory_of_putD_file (hp : p <+: q → p = q) {content : α}
    (h : ((t.put? q (.file content)).getD t).hasDirectory p = true) : t.hasDirectory p = true := by
  rw [hasDirectory_iff] at h ⊢
  rcases kind?_putD_file (t := t) hp content with hsame | hnone | ⟨-, hfile⟩
  · exact hsame.symm.trans h
  · nomatch hnone.symm.trans h
  · nomatch hfile.symm.trans h

/-- What is a directory after a deletion was one before. -/
theorem hasDirectory_of_delete (hq : q ≠ []) (h : (t.delete q).hasDirectory p = true) :
    t.hasDirectory p = true := by
  rw [hasDirectory_iff] at h ⊢
  rcases kind?_delete_cases (t := t) hq p with hnone | hsame
  · nomatch hnone.symm.trans h
  · exact hsame.symm.trans h

/-- Above a directory there are directories. -/
theorem hasDirectory_of_append (h : t.hasDirectory (p ++ q) = true) : t.hasDirectory p = true := by
  rw [hasDirectory_iff, kind?, get?_append] at h
  obtain ⟨found, hfound, hkind⟩ := Option.map_eq_some_iff.mp h
  obtain ⟨sub, hsub, hq⟩ := Option.bind_eq_some_iff.mp hfound
  cases sub with
  | directory entries => rw [hasDirectory, hsub]
  | file c =>
      cases q with
      | nil =>
          obtain rfl := Option.some.inj hq
          nomatch hkind
      | cons name rest => nomatch hq

/-- In a directory something can be put. -/
theorem put?_append_isSome (h : t.hasDirectory p = true) (name : String) (new : FileTree α) :
    (t.put? (p ++ [name]) new).isSome := by
  induction p generalizing t with
  | nil =>
      cases t with
      | file c => nomatch h
      | directory entries => rfl
  | cons a p ih =>
      cases t with
      | file c => nomatch h
      | directory entries =>
          rw [hasDirectory_iff, kind?_directory] at h
          obtain ⟨sub, hsub, hkind⟩ := Option.bind_eq_some_iff.mp h
          simpa [put?, hsub] using ih (hasDirectory_iff.mpr hkind)

/-- Where one moves to from a directory a directory can be made. -/
theorem hasDirectory_putD_move {piece : String} (h : t.hasDirectory p = true)
    (hmove : Path.move? p piece = some q) (hnone : t.get? q = none) :
    ((t.put? q .empty).getD t).hasDirectory q = true := by
  unfold Path.move? at hmove
  split at hmove
  · obtain rfl := Option.some.inj hmove
    obtain ⟨t', ht'⟩ := Option.isSome_iff_exists.mp (put?_append_isSome h piece .empty)
    rw [ht', Option.getD_some, hasDirectory, get?_put?_self ht']
    rfl
  -- the directory above is there already
  · split at hmove
    · nomatch hmove
    · next hne =>
        obtain rfl := Option.some.inj hmove
        have habove : t.hasDirectory p.dropLast = true := by
          obtain ⟨front, last, rfl⟩ :=
            (List.eq_nil_or_concat p).resolve_left (by simpa using hne)
          rw [List.concat_eq_append] at h ⊢
          rw [List.dropLast_concat]
          exact hasDirectory_of_append h
        rw [hasDirectory, hnone] at habove
        nomatch habove

/-- A deletion leaves the directories that are not below it. -/
theorem hasDirectory_delete (hq : ¬ q <+: p) :
    (t.delete q).hasDirectory p = t.hasDirectory p := by
  rw [Bool.eq_iff_iff, hasDirectory_iff, hasDirectory_iff, kind?_delete hq]

end FileTree

end Schemata

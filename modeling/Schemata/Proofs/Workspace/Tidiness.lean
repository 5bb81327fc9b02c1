import Schemata.Proofs.Workspace.Opening

/-!
# Schemata — Proofs — Workspace — Tidiness

A workspace is tidy around a store when nothing stands beside the store's file that keeps it from
being opened or read: no directory in the place of its journal or its log, and no journal that was
not finished.  Using a tidy store leaves it tidy, and so does opening it along paths that lead
through none of its files (`Site.IsClear`).

* `Lasting`: a property of the files that all of this keeps.
* `lasting_isTidy`, `lasting_keepsLog`, `lasting_hasDirectory`: a store stays tidy, keeps its log if
  it keeps one, and the directories apart from it stay.
* `sweep_isTidyAt`: who sweeps the journal away makes a file tidy that has no directory beside it.
-/

namespace Schemata

namespace Companion

/-- The companions of a file have different names. -/
theorem names_injective {c d : Companion} {names : List String}
    (h : c.names names = d.names names) : c = d := by
  have he := List.append_cancel_left h
  rw [List.cons.injEq] at he
  have hext := he.1
  unfold FileName.extend at hext
  split at hext
  · have hl := congrArg String.toList hext
    rw [String.toList_append, String.toList_append, List.append_cancel_left_eq] at hl
    revert hl
    cases c <;> cases d <;> decide
  · have hl := congrArg String.toList hext
    rw [String.toList_append, String.toList_append, List.append_cancel_left_eq,
      String.toList_ofList, String.toList_ofList] at hl
    revert hl
    cases c <;> cases d <;> decide +kernel

/-- No file beside a store is in another. -/
theorem not_prefix_of_ne {c d : Companion} (h : c ≠ d) (names : List String) :
    ¬ c.names names <+: d.names names := fun hpre =>
  h (names_injective (hpre.eq_of_length (by simp [Companion.names])))

end Companion

/-- A path leads neither to the file of a store nor to one of its companions, nor below. -/
def Site.IsClear (site : Site) (q : List String) : Prop :=
  ∀ names, site = .file names → ¬ names <+: q ∧ ∀ c : Companion, ¬ c.names names <+: q

/-- Nothing stands beside a file that keeps it from being opened. -/
structure FileTree.IsTidyAt (t : FileTree Content) (names : List String) : Prop where
  journal : t.hasDirectory (Companion.journal.names names) = false
  log : t.hasDirectory (Companion.log.names names) = false
  finished : ∀ content, t.content? (Companion.journal.names names) = some content →
    content.isBlank = true

/-- There is a store in a file, and it keeps a log. -/
def FileTree.KeepsLogAt (t : FileTree Content) (names : List String) : Prop :=
  ∃ v, t.content? names = some (.store v) ∧ v.keepsLog = true

/-- The file of a site is tidy; sites that are in no file are. -/
def FileTree.IsTidy (t : FileTree Content) (site : Site) : Prop :=
  ∀ names, site = .file names → t.IsTidyAt names

/-- The store at a site keeps a log if it is to be in a file. -/
def FileTree.KeepsLog (t : FileTree Content) (site : Site) : Prop :=
  ∀ names, site = .file names → t.KeepsLogAt names

namespace Workspace

/-! ### Properties of the files -/

/-- A property of the files that is kept when a store is used and opened.  Directories may be made
at paths that are clear of the store. -/
structure Lasting (site : Site) (F : FileTree Content → Prop) : Prop where
  put : ∀ {t : FileTree Content} {names : List String} {c : Companion} {new : FileTree Content},
    site = .file names → c ≠ .journal → (new.isDirectory = true → c = .lock) → F t →
      F ((t.put? (c.names names) new).getD t)
  delete : ∀ {t : FileTree Content} {names : List String} (c : Companion), site = .file names →
    F t → F (t.delete (c.names names))
  store : ∀ {t : FileTree Content} {names : List String} {v : Volume}, site = .file names →
    (t.KeepsLogAt names → v.keepsLog = true) → F t →
      F ((t.put? names (.file (.store v))).getD t)
  directory : ∀ {t : FileTree Content} {path : List String}, site.IsClear path →
    t.get? path = none → F t → F ((t.put? path .empty).getD t)
  plain : ∀ {t : FileTree Content} {names : List String} (bytes : ByteArray), site = .file names →
    t.get? names = none → F t → F ((t.put? names (.file (.plain bytes))).getD t)

variable {w : Workspace} {site : Site} {F G : FileTree Content → Prop} {names : List String}

namespace Lasting

/-- What lasts among files is kept whatever connections do. -/
theorem stable (h : Lasting site F) : Stable site (F ·.files) where
  adjust _ _ _ _ hw := hw
  apart _ _ hw := hw
  spare _ hw := hw
  put hs hc hnew _ hw := h.put hs hc hnew hw
  delete c hs hw := h.delete c hs hw

/-- It is kept when a store is written that keeps its log. -/
theorem volume (h : Lasting site F) {v : Volume}
    (hv : (w.volumeAt site).keepsLog = true → v.keepsLog = true) (hw : F w.files) :
    F (w.setVolumeAt site v).files := by
  cases hs : site with
  | own => exact hw
  | apart number => exact hw
  | file names =>
      subst hs
      refine h.store rfl (fun ⟨v', hcontent, hlog⟩ => hv ?_) hw
      rw [volumeAt_of_content? hcontent, hlog]

theorem writable (h : Lasting site F) : Writable site (F ·.files) where
  toStable := h.stable
  inform _ _ _ hw := hw
  volume hv hw := h.volume (fun hlog => hv.trans hlog) hw

theorem closable (h : Lasting site F) (number : Nat) : Closable site number (F ·.files) where
  toStable := h.stable
  filter hw := hw
  settle hw := h.volume id hw

theorem openable (h : Lasting site F) : Openable site site.IsClear (F ·.files) where
  toStable := h.stable
  attach _ hw := hw
  directory hpath hnone hw := h.directory hpath hnone hw
  plain bytes hs hnone hw := h.plain bytes hs hnone hw
  logged {_ v} _ hlog hw := by
    cases hs : site with
    | own => exact hw
    | apart number => exact hw
    | file names => subst hs; exact h.volume (fun _ => hlog _ rfl) hw

theorem and (hF : Lasting site F) (hG : Lasting site G) : Lasting site fun t => F t ∧ G t where
  put hs hc hnew h := ⟨hF.put hs hc hnew h.1, hG.put hs hc hnew h.2⟩
  delete c hs h := ⟨hF.delete c hs h.1, hG.delete c hs h.2⟩
  store hs hv h := ⟨hF.store hs hv h.1, hG.store hs hv h.2⟩
  directory hpath hnone h := ⟨hF.directory hpath hnone h.1, hG.directory hpath hnone h.2⟩
  plain bytes hs hnone h := ⟨hF.plain bytes hs hnone h.1, hG.plain bytes hs hnone h.2⟩

end Lasting

/-- Directories that are clear of a store stay. -/
theorem lasting_hasDirectory {qs : List (List String)} (hclear : ∀ q ∈ qs, site.IsClear q) :
    Lasting site fun t => ∀ q ∈ qs, t.hasDirectory q = true where
  put hs _ _ h q hq := FileTree.hasDirectory_putD ((hclear q hq _ hs).2 _) _ (h q hq)
  delete c hs h q hq := (FileTree.hasDirectory_delete ((hclear q hq _ hs).2 c)).trans (h q hq)
  store hs _ h q hq := FileTree.hasDirectory_putD (hclear q hq _ hs).1 _ (h q hq)
  directory _ hnone h q hq := FileTree.hasDirectory_putD_directory hnone (h q hq)
  plain _ hs _ h q hq := FileTree.hasDirectory_putD (hclear q hq _ hs).1 _ (h q hq)

/-- A store that keeps a log keeps it. -/
theorem lasting_keepsLog (site : Site) :
    Lasting site (·.KeepsLog site) where
  put {t names c new} hs _ _ h names' hn := by
    obtain rfl : names' = names := Site.file.inj (hn.symm.trans hs)
    obtain ⟨v, hv, hlog⟩ := h _ hs
    exact ⟨v, (FileTree.content?_putD (c.not_prefix names') _).trans hv, hlog⟩
  delete {t names} c hs h names' hn := by
    obtain rfl : names' = names := Site.file.inj (hn.symm.trans hs)
    obtain ⟨v, hv, hlog⟩ := h _ hs
    exact ⟨v, (FileTree.content?_delete (c.not_prefix names')).trans hv, hlog⟩
  store {t names v} hs hlog h names' hn := by
    obtain rfl : names' = names := Site.file.inj (hn.symm.trans hs)
    obtain ⟨v', hv', hlog'⟩ := h _ hs
    have hthere : (t.get? names').isSome := by rw [FileTree.get?_of_content? hv']; rfl
    exact ⟨v, FileTree.content?_putD_self hthere _, hlog ⟨v', hv', hlog'⟩⟩
  directory _ hnone h names hn := by
    obtain ⟨v, hv, hlog⟩ := h _ hn
    exact ⟨v, (FileTree.content?_putD_directory hnone).trans hv, hlog⟩
  plain {t names} _ hs hnone h names' hn := by
    obtain rfl : names' = names := Site.file.inj (hn.symm.trans hs)
    obtain ⟨v, hv, -⟩ := h _ hs
    nomatch hnone.symm.trans (FileTree.get?_of_content? hv)

end Workspace

namespace FileTree.IsTidyAt

variable {t t' : FileTree Content} {names : List String}

/-- What changes neither the place of the journal nor that of the log, but that a file may come into
the place of the log and either may be empty afterwards, leaves a file tidy. -/
theorem of_kind? (h : t.IsTidyAt names)
    (hjournal : t'.kind? (Companion.journal.names names) = none ∨
      t'.kind? (Companion.journal.names names) = t.kind? (Companion.journal.names names))
    (hlog : t'.hasDirectory (Companion.log.names names) = true →
      t.hasDirectory (Companion.log.names names) = true) : t'.IsTidyAt names where
  journal := by
    refine Bool.eq_false_iff.mpr fun hd => Bool.eq_false_iff.mp h.journal ?_
    rw [hasDirectory_iff] at hd ⊢
    rcases hjournal with hnone | hsame
    · nomatch hnone.symm.trans hd
    · exact hsame.symm.trans hd
  log := Bool.eq_false_iff.mpr fun hd => Bool.eq_false_iff.mp h.log (hlog hd)
  finished content hc := by
    refine h.finished content ?_
    rw [content?_eq] at hc ⊢
    rcases hjournal with hnone | hsame
    · rw [hnone] at hc
      nomatch hc
    · rwa [hsame] at hc

/-- Where no journal is open the files beside a store are tidy. -/
theorem of_hasOpenJournal {w : Workspace} (hjournal : w.hasDirectory names .journal = false)
    (hlog : w.hasDirectory names .log = false) (hopen : w.hasOpenJournal names = false) :
    w.files.IsTidyAt names where
  journal := hjournal
  log := hlog
  finished content hc := by simpa [Workspace.hasOpenJournal, hc] using hopen

/-- Putting the file itself leaves it tidy. -/
theorem putD_self (h : t.IsTidyAt names) (content : Content) :
    ((t.put? names (.file content)).getD t).IsTidyAt names := by
  have habove : ∀ c : Companion, c.names names <+: names → c.names names = names :=
    fun c hpre => absurd hpre (c.not_prefix names)
  refine h.of_kind? ?_ fun hd => ?_
  · rcases kind?_putD_file (t := t) (habove .journal) content with hsame | hnone | ⟨he, -⟩
    · exact .inr hsame
    · exact .inl hnone
    · exact absurd he (Companion.names_ne .journal names)
  · exact hasDirectory_of_putD_file (habove .log) hd

/-- Beside a tidy store no journal is open. -/
theorem hasOpenJournal {w : Workspace} (h : w.files.IsTidyAt names) :
    w.hasOpenJournal names = false := by
  unfold Workspace.hasOpenJournal
  cases hcontent : w.files.content? (Companion.journal.names names) with
  | none => rfl
  | some content => simp [h.finished content hcontent]

end FileTree.IsTidyAt

namespace Workspace

/-- Files stay tidy. -/
theorem lasting_isTidy (site : Site) :
    Lasting site (·.IsTidy site) where
  put {t names c new} hs hc hnew h names' hn := by
    obtain rfl : names' = names := Site.file.inj (hn.symm.trans hs)
    refine (h _ hs).of_kind? ?_ fun hd => ?_
    · cases hput : t.put? (c.names names') new with
      | none => exact .inr rfl
      | some t' =>
          rcases FileTree.kind?_put? (Companion.not_prefix_of_ne hc names') hput with
            hsame | ⟨hpre, -⟩
          · exact .inr hsame
          · exact absurd hpre (Companion.not_prefix_of_ne (Ne.symm hc) names')
    · by_cases hlog : c = .log
      -- what comes into the place of the log is a file
      · subst hlog
        cases new with
        | directory entries => nomatch hnew rfl
        | file content => exact FileTree.hasDirectory_of_putD_file (fun _ => rfl) hd
      · exact FileTree.hasDirectory_of_putD (Companion.not_prefix_of_ne hlog names')
          (Companion.not_prefix_of_ne (Ne.symm hlog) names') hd
  delete {t names} c hs h names' hn := by
    obtain rfl : names' = names := Site.file.inj (hn.symm.trans hs)
    have hne := c.names_ne_nil names'
    exact (h _ hs).of_kind? (FileTree.kind?_delete_cases hne _)
      (FileTree.hasDirectory_of_delete hne)
  store {t names v} hs _ h names' hn := by
    obtain rfl : names' = names := Site.file.inj (hn.symm.trans hs)
    exact (h _ hs).putD_self _
  directory {t path} hpath hnone h names hn := by
    have hclear := (hpath names hn).2
    refine (h _ hn).of_kind? (.inr ?_) fun hd => ?_
    · exact FileTree.kind?_putD_directory hnone (hclear .journal)
    · rw [FileTree.hasDirectory_iff] at hd ⊢
      exact (FileTree.kind?_putD_directory hnone (hclear .log)).symm.trans hd
  plain {t names} bytes hs _ h names' hn := by
    obtain rfl : names' = names := Site.file.inj (hn.symm.trans hs)
    exact (h _ hs).putD_self _

/-! ### A file that becomes tidy -/

variable {w : Workspace} {names : List String}

/-- What is a directory beside a store after sweeping was one before. -/
theorem hasDirectory_sweep {c d : Companion} (h : (w.sweep names c).hasDirectory names d = true) :
    w.hasDirectory names d = true := by
  unfold hasDirectory at h ⊢
  rcases files_sweep w names c with ⟨-, hsame⟩ | hdelete
  · rwa [hsame] at h
  · rw [hdelete] at h
    exact FileTree.hasDirectory_of_delete (c.names_ne_nil names) h

/-- There is something beside a store if it is a directory or has content. -/
theorem has_iff {c : Companion} : w.has names c = true ↔
    ∃ k, w.files.kind? (c.names names) = some k ∧
      ∀ content, k = some content → content.isEmpty = false := by
  unfold has hasDirectory FileTree.hasDirectory FileTree.content? FileTree.kind?
  cases w.files.get? (c.names names) with
  | none => simp
  | some found => cases found <;> simp

/-- What is not put in the place of a companion is not there. -/
theorem has_of_kind? {w' : Workspace} {c : Companion}
    (hkind : w'.files.kind? (c.names names) = none ∨
      w'.files.kind? (c.names names) = w.files.kind? (c.names names))
    (h : w'.has names c = true) : w.has names c = true := by
  rw [has_iff] at h ⊢
  obtain ⟨k, hk, hcontent⟩ := h
  rcases hkind with hnone | hsame
  · nomatch hnone.symm.trans hk
  · exact ⟨k, hsame.symm.trans hk, hcontent⟩

/-- What is beside a store after sweeping was there before. -/
theorem has_sweep {c d : Companion} (h : (w.sweep names c).has names d = true) :
    w.has names d = true := by
  refine has_of_kind? ?_ h
  rcases files_sweep w names c with ⟨-, hsame⟩ | hdelete
  · exact .inr (by rw [hsame])
  · rw [hdelete]
    exact FileTree.kind?_delete_cases (c.names_ne_nil names) _

/-- A file that is put is no directory. -/
theorem hasDirectory_putFile {content : Content} {c : Companion}
    (h : (w.putFile names content).hasDirectory names c = true) : w.hasDirectory names c = true :=
  FileTree.hasDirectory_of_putD_file (fun hpre => absurd hpre (c.not_prefix names)) h

/-- No journal is open after it is swept away. -/
theorem hasOpenJournal_sweep : (w.sweep names .journal).hasOpenJournal names = false := by
  rw [hasOpenJournal]
  rcases files_sweep w names .journal with ⟨hnone, hsame⟩ | hdelete
  · rw [hsame, hnone]
    rfl
  · rw [hdelete, FileTree.content?, FileTree.get?_delete_self (Companion.names_ne_nil _ names)]
    rfl

/-- **Sweeping the journal away makes a file tidy** that has no directory beside it. -/
theorem sweep_isTidyAt (hjournal : ¬ w.hasDirectory names .journal = true)
    (hlog : ¬ w.hasDirectory names .log = true) :
    (w.sweep names .journal).files.IsTidyAt names :=
  .of_hasOpenJournal (Bool.eq_false_iff.mpr fun h => hjournal (hasDirectory_sweep h))
    (Bool.eq_false_iff.mpr fun h => hlog (hasDirectory_sweep h)) hasOpenJournal_sweep

end Workspace

end Schemata

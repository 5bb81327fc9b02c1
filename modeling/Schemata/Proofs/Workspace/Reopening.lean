import Schemata.Proofs.Store.Locating
import Schemata.Proofs.Workspace.Rereading

/-!
# Schemata — Proofs — Workspace — Reopening

A store that was opened along a path can be opened along it again, whoever uses it meanwhile and
whoever holds it.  Opening it left the directories there that the path leads through, and a tidy
store that keeps a log (`Held.openPath_paves`); where these are, opening it succeeds
(`Held.openPath_goes`).
-/

namespace Schemata

/-- The directories that the path of a location leads through from the working directory on. -/
def Location.stops (l : Location) : List (List String) :=
  Path.trail (if l.isAbsolute then none else some [])
    (l.names.filter fun s => s ≠ "" ∧ s ≠ Path.current).dropLast

/-- The directories on the way to a store that opening it does not make. -/
def Location.unmade (l : Location) (path : String) : List (List String) :=
  (Path.stops path ++ l.stops).filter fun q => q = [] ∨ q ∉ Path.stops path

theorem Location.stops_plain (path : String) : (plain path).stops = Path.stops path := by
  rw [stops, Path.stops, Path.moves, names_plain, isAbsolute_plain]

/-- On the way of a plain path all but the working directory is made. -/
theorem Location.unmade_plain {path : String} {q : List String}
    (h : q ∈ (plain path).unmade path) : q = [] := by
  rw [unmade, stops_plain, List.mem_filter] at h
  rcases of_decide_eq_true h.2 with hroot | hmade
  · exact hroot
  · exact absurd ((List.mem_append.mp h.1).elim id id) hmade

namespace Workspace

variable {w w' : Workspace} {site : Site}

/-! ### Where a location leads -/

theorem move?_of_stay {piece : String} (h : piece = "" ∨ piece = Path.current) (w : Workspace)
    (site : Site) : w.move? site piece = some site := by
  cases site with
  | own => rfl
  | apart n => rfl
  | file names => simp only [move?]; rw [if_pos h]

theorem moves_filter (w : Workspace) (pieces : List String) (site : Site) :
    (pieces.filter fun s => s ≠ "" ∧ s ≠ Path.current).foldlM w.move? site
      = pieces.foldlM w.move? site := by
  induction pieces generalizing site with
  | nil => rfl
  | cons piece rest ih =>
      by_cases hstay : piece = "" ∨ piece = Path.current
      · rw [List.filter_cons_of_neg (by simpa [or_iff_not_imp_left] using hstay), ih,
          List.foldlM_cons, move?_of_stay hstay]
        rfl
      · rw [List.filter_cons_of_pos (by simpa [not_or] using hstay), List.foldlM_cons,
          List.foldlM_cons]
        cases w.move? site piece with
        | none => rfl
        | some s => exact ih s

/-- From a directory a piece leads to the same place, whatever else there is. -/
theorem move?_congr {names : List String} (h : w.files.hasDirectory names = true)
    (h' : w'.files.hasDirectory names = true) (piece : String) :
    w'.move? (.file names) piece = w.move? (.file names) piece := by
  unfold FileTree.hasDirectory at h h'
  split at h
  · next entries hentries =>
      split at h'
      · next entries' hentries' => simp only [move?, hentries, hentries']
      · cases h'
  · cases h

/-- A piece that leads on leads to the directory above or to a name, or out. -/
theorem move?_eq {names : List String} {piece : String} {s : Site}
    (hstay : ¬ (piece = "" ∨ piece = Path.current)) (h : w.move? (.file names) piece = some s) :
    s = .own ∨ ∃ next, s = .file next ∧ Path.move? names piece = some next := by
  unfold move? at h
  unfold Path.move?
  simp only [if_neg hstay] at h
  by_cases hup : piece = Path.parent
  · rw [if_pos hup] at h
    rw [if_neg (not_not.mpr hup)]
    split at h
    · exact .inl (Option.some.inj h).symm
    · next hne => exact .inr ⟨_, (Option.some.inj h).symm, by rw [if_neg hne]⟩
  · rw [if_neg hup] at h
    refine .inr ⟨names ++ [piece], ?_, if_pos hup⟩
    split at h
    · nomatch h
    · split at h
      · nomatch h
      · split at h
        · nomatch h
        · exact (Option.some.inj h).symm
      · exact (Option.some.inj h).symm

theorem moves_own (w : Workspace) (pieces : List String) :
    pieces.foldlM w.move? .own = some .own := by
  induction pieces with
  | nil => rfl
  | cons piece rest ih => exact ih

theorem moves_congr {pieces : List String} {names : List String}
    (hstay : ∀ piece ∈ pieces, ¬ (piece = "" ∨ piece = Path.current))
    (hdirs : ∀ q ∈ Path.trail (some names) pieces.dropLast,
      w.files.hasDirectory q = true ∧ w'.files.hasDirectory q = true) :
    pieces.foldlM w'.move? (.file names) = pieces.foldlM w.move? (.file names) := by
  induction pieces generalizing names with
  | nil => rfl
  | cons piece rest ih =>
      obtain ⟨h, h'⟩ := hdirs names (Path.mem_trail_self names _)
      rw [List.foldlM_cons, List.foldlM_cons, move?_congr h h']
      cases hmove : w.move? (.file names) piece with
      | none => rfl
      | some s =>
          change rest.foldlM w'.move? s = rest.foldlM w.move? s
          rcases move?_eq (hstay piece List.mem_cons_self) hmove with rfl | ⟨next, rfl, hnext⟩
          · rw [moves_own, moves_own]
          · cases rest with
            | nil => rfl
            | cons other rest =>
                refine ih (fun p hp => hstay p (List.mem_cons_of_mem _ hp)) fun q hq => hdirs q ?_
                rw [List.dropLast_cons_cons, Path.trail, hnext]
                exact List.mem_cons_of_mem _ hq

/-- **Where a location leads** depends on no more than that the directories on its way are
there. -/
theorem siteOf?_congr {l : Location} (hdirs : ∀ q ∈ l.stops,
    w.files.hasDirectory q = true ∧ w'.files.hasDirectory q = true) :
    w'.siteOf? l = w.siteOf? l := by
  unfold siteOf?
  unfold Location.stops at hdirs
  split
  · rfl
  · next hrelative =>
      rw [if_neg hrelative] at hdirs
      rw [← moves_filter w, ← moves_filter w', moves_congr (fun piece hp => ?_) hdirs]
      have := (List.mem_filter.mp hp).2
      simpa [not_or] using this

end Workspace

/-! ### What is on the way -/

/-- A store that is there keeps a log, or it is certain not to be taken for one that does: nothing
stands in the place of the log.  Some directories are there. -/
structure Workspace.Passable (w : Workspace) (site : Site) (qs : List (List String)) : Prop where
  unstrayed : ∀ names, site = .file names →
    w.files.LogsAt names ∨ ¬ w.has names .log = true
  stops : ∀ q ∈ qs, w.files.hasDirectory q = true

/-- A path states a location that is opened in a way that uses a log, and leads through no file of
the store at a site. -/
structure Path.Reaches (path : String) (l : Location) (site : Site) : Prop where
  location : Location.ofPath? path = some l
  logging : l.IsLogging
  clear : ∀ q ∈ Path.stops path ++ l.stops, site.IsClear q

/-- A path was followed to a site: it can be followed wherever the directories on its way are. -/
structure Path.IsFollowed (path : String) (l : Location) (site : Site) : Prop where
  makeable : Path.IsMakeable path
  named : path.toList.contains '\x00' = false
  leads : ∃ w : Workspace, (∀ q ∈ l.stops, w.files.hasDirectory q = true) ∧ w.siteOf? l = some site

/-- A store was opened along a path: it is tidy, is there and keeps a log, and so are the
directories on the way. -/
structure FileTree.Paved (path : String) (l : Location) (site : Site) (t : FileTree Content) :
    Prop where
  tidy : t.IsTidy site
  log : t.KeepsLog site
  stops : ∀ q ∈ Path.stops path ++ l.stops, t.hasDirectory q = true
  followed : Path.IsFollowed path l site

namespace Workspace

open Attempt

variable {w w' : Workspace} {site : Site} {qs : List (List String)} {path : String} {l : Location}
  {c : Connection} {names : List String} {t : Table}

/-- What is put in a file is in it, or there is no such place and nothing changes. -/
theorem content?_putFile_self (w : Workspace) (names : List String) (content : Content) :
    (w.putFile names content).files.content? names = some content ∨
      w.putFile names content = w := by
  unfold putFile
  cases hput : w.files.put? names (.file content) with
  | none => exact .inr rfl
  | some t => exact .inl (by rw [Option.getD_some, FileTree.content?, FileTree.get?_put?_self hput])

theorem lasting_paved (hclear : ∀ q ∈ Path.stops path ++ l.stops, site.IsClear q) :
    Lasting site (FileTree.Paved path l site) := by
  have heq : FileTree.Paved path l site = fun t =>
      t.IsTidy site ∧
      t.KeepsLog site ∧
      (∀ q ∈ Path.stops path ++ l.stops, t.hasDirectory q = true) ∧ Path.IsFollowed path l site :=
    funext fun t => propext
      ⟨fun h => ⟨h.tidy, h.log, h.stops, h.followed⟩, fun h => ⟨h.1, h.2.1, h.2.2.1, h.2.2.2⟩⟩
  have hfollowed : Lasting site fun _ => Path.IsFollowed path l site :=
    ⟨fun _ _ _ h => h, fun _ _ h => h, fun _ _ h => h, fun _ _ h => h, fun _ _ _ h => h⟩
  rw [heq]
  exact (lasting_isTidy site).and ((lasting_keepsLog site).and
    ((lasting_hasDirectory hclear).and hfollowed))

/-- Opening a store puts no log beside a store that keeps none, and makes no such store. -/
theorem openable_unstrayed (site : Site) : Openable site site.IsClear fun w =>
    ∀ names, site = .file names → w.files.LogsAt names ∨ ¬ w.has names .log = true where
  adjust _ _ _ _ h := h
  apart _ _ h := h
  spare _ h := h
  put {w names c new} hs _ _ hlog h names' hn := by
    obtain rfl : names' = names := Site.file.inj (hn.symm.trans hs)
    have hcontent := FileTree.content?_putD (t := w.files) (c.not_prefix names') new
    by_cases hc : c = .log
    · exact .inl fun v hv => hlog hc v (hcontent.symm.trans hv)
    · refine (h _ hs).imp (fun hlogs v hv => hlogs v (hcontent.symm.trans hv)) fun hno hhas => ?_
      refine hno (has_of_kind? (.inr ?_) hhas)
      exact FileTree.kind?_putD_apart (Companion.not_prefix_of_ne hc names')
        (Companion.not_prefix_of_ne (Ne.symm hc) names') new
  delete {w names} c hs h names' hn := by
    obtain rfl : names' = names := Site.file.inj (hn.symm.trans hs)
    have hcontent := FileTree.content?_delete (t := w.files) (c.not_prefix names')
    exact (h _ hs).imp (fun hlogs v hv => hlogs v (hcontent.symm.trans hv)) fun hno hhas =>
      hno (has_of_kind? (FileTree.kind?_delete_cases (c.names_ne_nil names') _) hhas)
  attach _ h := h
  directory hclear hnone h names hn :=
    (h names hn).imp
      (fun hlogs v hv => hlogs v ((FileTree.content?_putD_directory hnone).symm.trans hv))
      fun hno hhas => hno (has_of_kind?
        (.inr (FileTree.kind?_putD_directory hnone ((hclear names hn).2 .log))) hhas)
  plain {w names} bytes hs _ h names' hn := by
    obtain rfl : names' = names := Site.file.inj (hn.symm.trans hs)
    rcases content?_putFile_self w names' (.plain bytes) with hput | hkept
    · refine .inl fun v hv => ?_
      cases hput.symm.trans hv
    · rw [hkept]
      exact h _ hs
  logged {w v} _ hlog h names hn := by
    subst hn
    rcases content?_putFile_self w names (.store v) with hput | hkept
    · refine .inl fun v' hv' => ?_
      obtain rfl : v = v' := by simpa using hput.symm.trans hv'
      exact hlog names rfl
    · change (w.putFile names (.store v)).files.LogsAt names ∨
        ¬ (w.putFile names (.store v)).has names .log = true
      rw [hkept]
      exact h _ rfl

theorem openable_passable (hclear : ∀ q ∈ qs, site.IsClear q) :
    Openable site site.IsClear (Passable · site qs) := by
  have heq : (Passable · site qs) = fun w : Workspace =>
      (∀ names, site = .file names → w.files.LogsAt names ∨ ¬ w.has names .log = true) ∧
        ∀ q ∈ qs, w.files.hasDirectory q = true :=
    funext fun w => propext ⟨fun h => ⟨h.unstrayed, h.stops⟩, fun h => ⟨h.1, h.2⟩⟩
  rw [heq]
  exact (openable_unstrayed site).and (lasting_hasDirectory hclear).openable

/-! ### Opening a store for the first time -/

/-- What a journal beside a file tells of is rolled back: then there is none left to finish. -/
theorem rollBack_ends (hdotted : c.isDotted = false) (w : Workspace) :
    (rollBack names c).Ends (fun _ => True) (fun _ w' =>
      w'.files.content? names = w.files.content? names ∧
      (w'.has names .log = true → w.has names .log = true) ∧
      w'.hasDirectory names .journal = false ∧ w'.hasOpenJournal names = false) w := by
  refine ends_get (ends_ite (fun h => nomatch hdotted.symm.trans h) fun _ => ?_)
  refine ends_guard trivial fun hdir => ends_ite (fun _ => ?_) fun hopen => ?_
  · refine ends_guard trivial fun _ => ends_guard trivial fun _ => ends_set trivial fun _ => ?_
    exact ⟨content?_sweep .journal, has_sweep,
      Bool.eq_false_iff.mpr fun h => hdir (hasDirectory_sweep h), hasOpenJournal_sweep⟩
  · exact ends_pure trivial ⟨rfl, id, Bool.eq_false_iff.mpr hdir, Bool.eq_false_iff.mpr hopen⟩

/-- Clearing the places beside an empty file leaves no directory in the place of the log. -/
theorem clear_ends (names : List String) (c : Connection) (w : Workspace) :
    (clear names c).Ends (fun _ => True) (fun _ w' =>
      w'.files.content? names = w.files.content? names ∧
      ¬ w'.hasDirectory names .log = true) w := by
  let swept := if w.has names .journal && !(c.isDotted || (c.readOnly && c.isLogging)) then
    w.sweep names .journal else w
  have hswept : swept.files.content? names = w.files.content? names := by
    unfold swept
    split
    · exact content?_sweep .journal
    · rfl
  refine ends_get (ends_bind (Q := fun _ w' => w' = swept) (ends_set trivial fun _ => rfl) ?_)
  rintro _ _ - rfl
  refine ends_guard trivial fun hdir => ends_ite (fun _ => ?_) fun _ => ?_
  · exact ends_set trivial fun _ =>
      ⟨(content?_sweep .log).trans hswept, fun h => hdir (hasDirectory_sweep h)⟩
  · exact ends_pure trivial ⟨hswept, hdir⟩

/-- A file that is no store is rejected. -/
theorem reject_ends (names : List String) (c : Connection) (w : Workspace) :
    (reject names c).Ends (fun _ => True) (fun _ _ => False) w := by
  refine ends_get (ends_ite (fun _ => ends_guard trivial fun _ =>
    ends_ite (fun _ => ?_) fun _ => ?_) fun _ => ends_throw trivial)
  · exact ends_bind (Q := fun _ _ => True) (ends_set trivial fun _ => trivial)
      fun _ _ _ _ => ends_throw trivial
  · exact ends_bind (Q := fun _ _ => True) (ends_set trivial fun _ => trivial)
      fun _ _ _ _ => ends_throw trivial

/-- A file that is made a store keeps a log and is tidy, if no directory is in the place of the
log. -/
theorem keepLog_ends {content : Content} (hcontent : w.files.content? names = some content)
    (hlog : ¬ w.hasDirectory names .log = true) (c : Connection) (v : Volume) :
    (keepLog names c v).Ends (fun _ => True)
      (fun _ w' => w'.files.KeepsLogAt names ∧ w'.files.IsTidyAt names) w := by
  refine ends_get (ends_guard trivial fun _ => ends_guard trivial fun hnamed =>
    ends_set trivial fun _ => ⟨⟨v.logged true, ?_, Bool.or_true _⟩, ?_⟩)
  · have hthere : (w.files.get? names).isSome := by
      rw [FileTree.get?_of_content? hcontent]
      rfl
    exact (content?_sweep .journal).trans (FileTree.content?_putD_self hthere _)
  · have hjournal : ¬ w.hasDirectory names .journal = true := fun h =>
      hnamed (by simp [isUnjournaled, h])
    exact sweep_isTidyAt (fun h => hjournal (hasDirectory_putFile h))
      fun h => hlog (hasDirectory_putFile h)

/-- **A store that was readied keeps a log and is tidy**, if it is opened in a way that uses a log
and no log strayed to it. -/
theorem start_paves (hc : c.Leads site) (hlogging : c.isLogging = true)
    (hlog : ∀ names, site = .file names →
      w.files.LogsAt names ∨ ¬ w.has names .log = true) :
    (start c).Ends (fun _ => True)
      (fun _ w' => w'.files.KeepsLog site ∧ w'.files.IsTidy site) w := by
  have hdotted := Connection.isDotted_of_isLogging hlogging
  refine ends_get (ends_guard trivial fun _ => ?_)
  rw [hc.site]
  cases hs : site with
  | apart n => exact ends_pure trivial ⟨nofun, nofun⟩
  | own => exact ends_set trivial fun _ => ⟨nofun, nofun⟩
  | file names =>
      dsimp only
      cases hcontent : w.files.content? names with
      | none => exact ends_throw trivial
      | some content =>
          rw [hc.live]
          suffices hfile : (startFile names c content).Ends (fun _ => True) (fun _ w' =>
              w'.files.KeepsLogAt names ∧ w'.files.IsTidyAt names) w from
            hfile.imp (fun _ => id) fun _ _ _ hw =>
              ⟨fun _ hn => Site.file.inj hn ▸ hw.1, fun _ hn => Site.file.inj hn ▸ hw.2⟩
          cases content with
          | store v =>
              refine ends_bind (rollBack_ends hdotted w) fun _ w' _ hrolled => ?_
              obtain ⟨hsame, hhas, hjournal, hopen⟩ := hrolled
              refine ends_get (ends_guard trivial fun hdir => ends_get ?_)
              simp only [hlogging, Bool.not_true, Bool.false_eq_true, if_false]
              cases hkeeps : v.keepsLog with
              | true =>
                  simp only [Bool.not_true, Bool.and_false, Bool.false_eq_true, if_false]
                  exact ends_pure trivial ⟨⟨v, hsame.trans hcontent, hkeeps⟩,
                    .of_hasOpenJournal hjournal (Bool.eq_false_iff.mpr hdir) hopen⟩
              -- the store begins to keep a log, as no log has strayed to it
              | false =>
                  have hno : w'.has names .log = false := Bool.eq_false_iff.mpr fun h =>
                    ((hlog names hs).resolve_left fun hlogs =>
                      nomatch hkeeps.symm.trans (hlogs v hcontent)) (hhas h)
                  simp only [hno, Bool.false_and, Bool.not_false, Bool.false_eq_true, if_false,
                    if_true]
                  exact keepLog_ends (hsame.trans hcontent) hdir c v
          | plain bytes =>
              refine ends_ite (fun _ => ?_) fun _ => ?_
              · refine ends_bind (rollBack_ends hdotted w) fun _ w' _ _ =>
                  ends_get (ends_guard trivial fun _ => ?_)
                exact (reject_ends names c w').imp (fun _ => id) fun _ _ _ => False.elim
              · refine ends_bind (clear_ends names c w) fun _ w' _ hcleared => ?_
                obtain ⟨hsame, hdir⟩ := hcleared
                refine ends_ite (fun _ => ?_) fun hno => absurd hlogging hno
                exact keepLog_ends (hsame.trans hcontent) hdir c {}

/-- **A path along which a store was opened is paved** afterwards. -/
theorem Held.openPath_paves (hp : Path.Reaches path l site) (ha : (Address.path path).LeadsTo site)
    (h : Held site (Passable · site (l.unmade path)) w) :
    (Workspace.openPath path).Ends (fun _ => True)
      (fun _ w' => w'.files.Paved path l site) w := by
  obtain ⟨hl, hlog, hclear⟩ := hp
  have hunmade : ∀ q ∈ l.unmade path, site.IsClear q := fun q hq =>
    hclear q (List.mem_filter.mp hq).1
  have hpassable := openable_passable hunmade
  have hmake : ∀ {w : Workspace} {path : List String}, site.IsClear path →
      w.files.get? path = none → Held site (Passable · site (l.unmade _)) w →
        Held site (Passable · site (l.unmade _)) (w.putDirectory path) :=
    fun hpath hnone h => h.directory hpassable hpath hnone
  have hway := openable_passable hclear
  refine ends_bind (makeDirectories_ends hmake
    (fun q hq => hclear q (List.mem_append_left _ hq)) h).both fun _ w₁ _ hmade => ?_
  obtain ⟨hw₁, hmakeable, hstops⟩ := hmade
  -- what was not there before was made
  have hdirs : ∀ q ∈ Path.stops path ++ l.stops, w₁.files.hasDirectory q = true := by
    intro q hq
    by_cases hmem : q ∈ Path.stops path
    · refine hstops (fun hroot => ?_) q hmem
      refine h.holds.stops [] (List.mem_filter.mpr ⟨List.mem_append_left _ hroot, ?_⟩)
      simp
    · exact hw₁.holds.stops q (List.mem_filter.mpr ⟨hq, by simp [hmem]⟩)
  have hheld : Held site (Passable · site (Path.stops path ++ l.stops)) w₁ :=
    ⟨hw₁.leads, hw₁.holds.unstrayed, hdirs⟩
  refine ends_guard trivial fun hnul => ?_
  obtain ⟨l', hl', hloose, hmemory, hfixed, w₀, hsite⟩ := ha
  obtain rfl : l = l' := Option.some.inj (hl.symm.trans hl')
  rw [hl]
  have hreach : reach l = Workspace.openFile l := by simp [reach, hloose, hmemory]
  change (reach l >>= Workspace.accept).Ends _ _ w₁
  rw [hreach]
  refine ends_bind (hheld.openFile hway hfixed fun s hs => siteOf?_unique hs hsite).both
    fun c w₂ _ hc => ?_
  obtain ⟨hw₂, hleads, hfound, hlogging⟩ := hc
  obtain ⟨hlogging, hcache⟩ := hlogging hlog
  have hfollowed : Path.IsFollowed path l site :=
    ⟨hmakeable, Bool.eq_false_iff.mpr hnul, w₁,
      fun q hq => hdirs q (List.mem_append_right _ hq), hfound⟩
  let Q (w' : Workspace) : Prop := w'.files.KeepsLog site ∧ w'.files.IsTidy site
  have hQ : Openable site site.IsClear Q :=
    ((lasting_keepsLog site).and (lasting_isTidy site)).openable
  have hstart : (Workspace.start c).Ends (Held site (Passable · site _))
      (fun _ => Q) w₂ :=
    ⟨(hw₂.start hway hleads).1, (start_paves hleads hlogging hw₂.holds.unstrayed).2⟩
  have hnone : (w₂.joined? c.cache).isSome = true → Q w₂ := by
    rw [hcache]
    exact fun h => absurd h Bool.false_ne_true
  refine (hw₂.accept hway hQ hleads hnone hstart).imp (fun _ _ => trivial) fun _ _ hw hpaved => ?_
  exact ⟨hpaved.2, hpaved.1, hw.holds.stops, hfollowed⟩

/-! ### Opening a store again -/

theorem enterDirectory_goes {names : Option (List String)} {piece : String}
    (hlength : ¬ longestName < piece.utf8ByteSize)
    (hdir : ∀ q, names.bind (Path.move? · piece) = some q → w.files.hasDirectory q = true) :
    (enterDirectory names piece).Goes
      (fun next w' => next = names.bind (Path.move? · piece) ∧ w' = w) w := by
  unfold enterDirectory
  dsimp only
  refine goes_guard hlength ?_
  split
  · next hnone => exact goes_pure ⟨hnone.symm, rfl⟩
  · next q hq =>
      refine goes_get ?_
      have hthere := hdir q hq
      unfold FileTree.hasDirectory at hthere
      split at hthere
      · next entries hentries =>
          rw [hentries]
          exact goes_pure ⟨hq.symm, rfl⟩
      · nomatch hthere

/-- Through directories that are there one goes without making any. -/
theorem enterDirectories_goes {names : Option (List String)} {pieces : List String}
    (hlength : ∀ piece ∈ pieces, ¬ longestName < piece.utf8ByteSize)
    (hdirs : ∀ q ∈ Path.trail names pieces, w.files.hasDirectory q = true) :
    (pieces.foldlM enterDirectory names).Goes (fun _ w' => w' = w) w := by
  induction pieces generalizing names with
  | nil => exact goes_pure rfl
  | cons piece rest ih =>
      have htrail : ∀ q ∈ Path.trail (names.bind (Path.move? · piece)) rest,
          q ∈ Path.trail names (piece :: rest) := by
        intro q hq
        cases names with
        | none => simp [Path.trail] at hq
        | some n => exact List.mem_cons_of_mem _ hq
      rw [List.foldlM_cons]
      refine goes_bind (enterDirectory_goes (hlength piece List.mem_cons_self) fun q hq => ?_) ?_
      · exact hdirs q (htrail q (by rw [hq]; exact Path.mem_trail_self q rest))
      · rintro _ _ ⟨rfl, rfl⟩
        exact ih (fun p hp => hlength p (List.mem_cons_of_mem _ hp)) fun q hq =>
          hdirs q (htrail q hq)

theorem makeDirectories_goes (hmakeable : Path.IsMakeable path)
    (hdirs : ∀ q ∈ Path.stops path, w.files.hasDirectory q = true) :
    (makeDirectories path).Goes (fun _ w' => w' = w) w := by
  unfold makeDirectories
  dsimp only
  refine goes_guard hmakeable.short ?_
  exact goes_bind (enterDirectories_goes hmakeable.pieces hdirs) fun _ _ hw => goes_pure hw

theorem reachFile_goes {content : Content} (hmodel : l.model = none)
    (h : w.files.content? names = some content) :
    (reachFile names l).Goes (fun _ w' => ∃ spares, w' = { w with spares }) w := by
  refine goes_get ?_
  split
  · exact goes_set ⟨_, rfl⟩
  · refine goes_guard (by simp [hmodel]) ?_
    rw [FileTree.get?_of_content? h]
    exact goes_pure ⟨w.spares, rfl⟩

/-- The connection that opening a location makes, if the store in a file is there. -/
theorem openFile_goes (hlog : l.IsLogging) (hsite : w.siteOf? l = some site)
    (hthere : w.files.KeepsLog site)
    (htable : HasTable site (some t) w) :
    (openFile l).Goes (fun c w' => (∃ spares, w' = { w with spares }) ∧ c.Leads site ∧
      c.IsSteady ∧ c.cache = none ∧ c.isAware = true) w := by
  refine goes_get ?_
  rw [hsite]
  refine goes_get ?_
  rw [hlog.apart]
  have hmake : ∀ w' : Workspace, (∃ spares, w' = { w with spares }) →
      (get >>= fun w => pure {
        site, system := l.system, readOnly := l.isReading
        lockless := l.lockless || decide (l.system = FileSystem.lockless)
        frozen := if l.fixed = true then some (w.volumeAt site).settled else none
        cache := none, isAware := (w.volumeAt site).table.isSome } : Attempt Connection).Goes
      (fun c w' => (∃ spares, w' = { w with spares }) ∧ c.Leads site ∧ c.IsSteady ∧
        c.cache = none ∧ c.isAware = true) w' := by
    rintro _ ⟨spares, rfl⟩
    have htable' : (Workspace.volumeAt { w with spares } site).table = some t :=
      htable.congr rfl rfl rfl
    refine goes_get (goes_pure ⟨⟨spares, rfl⟩, ⟨rfl, by simp [hlog.live]⟩, ?_, rfl, ?_⟩)
    · rcases hlog.system with hsystem | hsystem
      · exact ⟨by simp [hsystem],
          fun _ _ => by simp [Connection.isLogging, hsystem, hlog.locks, hlog.live]⟩
      · exact ⟨by simp [hsystem],
          fun _ _ => by simp [Connection.isLogging, hsystem, hlog.locks, hlog.live]⟩
    · simp [htable']
  cases hs : site with
  | own => subst hs; exact hmake w ⟨w.spares, rfl⟩
  | apart n => subst hs; exact hmake w ⟨w.spares, rfl⟩
  | file names =>
      subst hs
      obtain ⟨v, hv, -⟩ := hthere names rfl
      exact goes_bind (reachFile_goes hlog.model hv) fun _ w' hw' => hmake w' hw'

/-- A tidy store that keeps a log needs no readying. -/
theorem start_goes (htidy : w.files.IsTidy site)
    (hlog : w.files.KeepsLog site) (hc : c.Leads site)
    (hsteady : c.IsSteady) :
    (start c).Goes (fun _ w' => w'.connections = w.connections ∧ w'.opened = w.opened) w := by
  have hseal : w.seal? w.opened c = none := seal?_eq_none htidy hc hsteady
  refine goes_get (goes_guard (by simp [hseal]) ?_)
  rw [hc.site]
  cases hs : site with
  | apart n => exact goes_pure ⟨rfl, rfl⟩
  | own => exact goes_set ⟨rfl, rfl⟩
  | file names =>
      obtain ⟨v, hv, hkeeps⟩ := hlog names hs
      have hat := htidy names hs
      have hlogging := hsteady.logging names (hc.site.trans hs)
      have hjournal : ¬ w.hasDirectory names .journal = true := Bool.eq_false_iff.mp hat.journal
      have hplace : ¬ w.hasDirectory names .log = true := Bool.eq_false_iff.mp hat.log
      have hrollBack : (rollBack names c).Goes (fun _ w' => w' = w) w := by
        refine goes_get ?_
        simp only [Connection.isDotted_of_isLogging hlogging, Bool.false_eq_true, if_false]
        refine goes_guard hjournal ?_
        simp only [hat.hasOpenJournal, Bool.false_eq_true, if_false]
        exact goes_pure rfl
      dsimp only
      rw [hv, hc.live]
      refine goes_bind hrollBack fun _ w' hw' => ?_
      rw [hw']
      refine goes_get (goes_guard hplace (goes_get ?_))
      simp only [hlogging, hkeeps, Bool.not_true, Bool.and_false, Bool.false_eq_true, if_false]
      exact goes_pure ⟨rfl, rfl⟩

/-- A connection that is added has the next number. -/
theorem has_attach {G : Connection → Prop} (hnumbers : w.IsNumbered)
    (hG : G c) : Has w.opened G (w.attach c).2 := by
  have hnew : w.connections.lookup w.opened = none := by
    rw [List.lookup_eq_none_iff]
    intro e he
    simpa using Nat.ne_of_gt (hnumbers e he)
  refine ⟨c, ?_, hG⟩
  unfold connection? attach
  rw [List.lookup_append, hnew, Option.none_or, List.lookup_cons, beq_self_eq_true]

theorem accept_goes {G : Connection → Prop} (hG : ∀ c d : Connection, c.IsLike d → G d → G c)
    (htidy : w.files.IsTidy site)
    (hlog : w.files.KeepsLog site) (hled : w.Led site)
    (hnumbers : w.IsNumbered) (hc : c.Leads site) (hsteady : c.IsSteady)
    (hcache : c.cache = none) (hGc : G c) :
    (accept c).Goes (fun number w' => Has number G w') w := by
  have hnone : (w.joined? c.cache).isSome = false := by rw [hcache]; rfl
  refine goes_get ?_
  simp only [hnone, Bool.false_eq_true, if_false]
  refine goes_get (goes_bind (goes_tryCatch (start_goes htidy hlog hc hsteady)) ?_)
  rintro _ w' ⟨hconnections, hopened⟩
  have hnumbers' : w'.IsNumbered := by rwa [IsNumbered, hconnections, hopened]
  have hattached : Held site (Has w'.opened G) (w'.attach c).2 := by
    refine ⟨fun e he => ?_, has_attach hnumbers' hGc⟩
    rcases List.mem_append.mp he with he | he
    · exact hled e (hconnections ▸ he)
    · exact List.mem_singleton.mp he ▸ hc
  have hentered := hattached.enter (stable_has site w'.opened hG) w'.opened
  refine goes_get (goes_bind (Q := fun _ => Has w'.opened G) (goes_set ?_) fun _ _ h => goes_pure h)
  split
  · exact hentered.holds
  · exact hattached.holds

/-- **Along a path that is paved a store is opened**, over a steady connection that knows of its
table. -/
theorem Held.openPath_goes (hp : Path.Reaches path l site) (ha : (Address.path path).LeadsTo site)
    (h : Held site (FileTree.Paved path l site ·.files) w) (hnumbers : w.IsNumbered)
    (htable : HasTable site (some t) w) :
    (Workspace.openPath path).Goes
      (fun number w' => Has number (fun c => c.IsSteady ∧ c.isAware = true) w') w := by
  obtain ⟨hl, hlog, -⟩ := hp
  have hfollowed := h.holds.followed
  have hstops := h.holds.stops
  refine goes_bind (makeDirectories_goes hfollowed.makeable
    fun q hq => hstops q (List.mem_append_left _ hq)) fun _ w₁ hw₁ => ?_
  rw [hw₁]
  refine goes_guard (Bool.eq_false_iff.mp hfollowed.named) ?_
  obtain ⟨l', hl', hloose, hmemory, -⟩ := ha
  obtain rfl : l = l' := Option.some.inj (hl.symm.trans hl')
  obtain ⟨w₀, hdirs, hfound⟩ := hfollowed.leads
  have hsite : w.siteOf? l = some site := (siteOf?_congr fun q hq =>
    ⟨hdirs q hq, hstops q (List.mem_append_right _ hq)⟩).trans hfound
  have hreach : reach l = Workspace.openFile l := by simp [reach, hloose, hmemory]
  rw [hl]
  change (reach l >>= Workspace.accept).Goes _ w
  rw [hreach]
  refine goes_bind (openFile_goes hlog hsite h.holds.log htable) ?_
  rintro c _ ⟨⟨spares, rfl⟩, hc, hsteady, hcache, haware⟩
  exact accept_goes (fun _ _ hlike hd => ⟨hlike.isSteady hd.1, hlike.isAware.trans hd.2⟩)
    h.holds.tidy h.holds.log h.leads hnumbers hc hsteady hcache ⟨hsteady, haware⟩

end Workspace

end Schemata

import Schemata.Proofs.Workspace.Attempts
import Schemata.Proofs.Workspace.Keeping

/-!
# Schemata — Proofs — Workspace — Opening

What stays true of a workspace while a store in it is opened, whether that succeeds or fails half
way.  To the small changes that go with using a store come those of a connection that is added, of
directories and an empty file that are made for it, and of a store that keeps a log from then on
(`Openable`).

An address that always leads to the same store, if it leads to any, is one that may be opened and
locked while the store is in use (`Address.LeadsTo`).  The directories on the way of its path are
those that may be made (`Path.stops`).

* `Held.openStore`, `Held.lock`: opening and locking keep every property that those changes keep.
* `openMigrated_ends`: so does opening a store and giving it its table, if using it keeps it too.
-/

namespace Schemata

/-! ### Directories on the way of a path -/

namespace Path

/-- The names that one moves through from some names, with the start, as long as that is not
outside. -/
def trail : Option (List String) → List String → List (List String)
  | none, _                  => []
  | some names, []            => [names]
  | some names, piece :: rest => names :: trail (move? names piece) rest

/-- The directories that a path leads through from the working directory on. -/
def stops (path : String) : List (List String) :=
  trail (if isAbsolute path then none else some []) (moves path).dropLast

/-- The directories of a path can be made, as far as that depends on the path. -/
structure IsMakeable (path : String) : Prop where
  short : ¬ ((ofPieces (directory path)).toList.contains '\x00' = true ∨
    longestPath ≤ (ofPieces (directory path)).utf8ByteSize)
  pieces : ∀ piece ∈ (moves path).dropLast, ¬ longestName < piece.utf8ByteSize

theorem mem_trail_self (names : List String) (pieces : List String) :
    names ∈ trail (some names) pieces := by
  cases pieces <;> simp [trail]

end Path

/-- A location is opened in a way that uses the log of a store in a file: in a file system that
other processes can share the store in, or one that has it for this process alone, with locks, and
with nothing that is shared with another connection or made after another file. -/
structure Location.IsLogging (l : Location) : Prop where
  system : l.system = .standard ∨ l.system = .exclusive
  locks : l.lockless = false
  live : l.fixed = false
  apart : l.shared = false
  model : l.model = none

namespace Workspace

open Attempt

/-- The workspace with an empty directory made at a path. -/
def putDirectory (w : Workspace) (path : List String) : Workspace :=
  { w with files := (w.files.put? path .empty).getD w.files }

/-- A property that is also kept when connections come, for which directories may be made at paths
of a kind, and an empty file, and when a store begins to keep a log. -/
structure Openable (site : Site) (A : List String → Prop) (P : Workspace → Prop) : Prop
    extends Stable site P where
  attach : ∀ {w : Workspace} {c : Connection}, c.Leads site → P w → P (w.attach c).2
  directory : ∀ {w : Workspace} {path : List String}, A path → w.files.get? path = none → P w →
    P (w.putDirectory path)
  plain : ∀ {w : Workspace} {names : List String} (bytes : ByteArray), site = .file names →
    w.files.get? names = none → P w → P (w.putFile names (.plain bytes))
  logged : ∀ {w : Workspace} {v : Volume}, v.table = (w.volumeAt site).table →
    (∀ names, site = .file names → v.keepsLog = true) → P w → P (w.setVolumeAt site v)

variable {w : Workspace} {site : Site} {A : List String → Prop} {P Q : Workspace → Prop}
  {names : List String}

/-- So it is when connections come, too. -/
theorem Openable.and (hP : Openable site A P) (hQ : Openable site A Q) :
    Openable site A fun w => P w ∧ Q w where
  toStable := hP.toStable.and hQ.toStable
  attach hc h := ⟨hP.attach hc h.1, hQ.attach hc h.2⟩
  directory hpath hnone h := ⟨hP.directory hpath hnone h.1, hQ.directory hpath hnone h.2⟩
  plain bytes hs hnone h := ⟨hP.plain bytes hs hnone h.1, hQ.plain bytes hs hnone h.2⟩
  logged hv hlog h := ⟨hP.logged hv hlog h.1, hQ.logged hv hlog h.2⟩

/-- Wherever directories are made, the table of the store stays. -/
theorem openable_hasTable (site : Site) (A : List String → Prop) (o : Option Table) :
    Openable site A (HasTable site o) where
  toStable := stable_hasTable site o
  attach _ h := h.congr rfl rfl rfl
  directory _ hnone h := by
    cases site with
    | own => exact h
    | apart number => exact h
    | file names => exact h.of_content? (FileTree.content?_putD_directory hnone)
  -- a file that is made has no store in it, and there was none
  plain {w names} bytes hs hnone h := by
    subst hs
    have hbefore : w.volumeAt (.file names) = {} := by simp [volumeAt, hnone]
    rw [HasTable, ← h, hbefore]
    cases hfiles : w.files.put? names (.file (.plain bytes)) with
    | none => simp [putFile, volumeAt, hfiles, hnone]
    | some files => simp [putFile, volumeAt, hfiles, FileTree.get?_put?_self hfiles]
  logged hv _ h := h.setVolumeAt (hv.trans h)

/-! ### Making directories -/

/-- A step into a directory that makes it keeps what making directories keeps; from a directory it
leads to one. -/
theorem enterDirectory_ends {names : Option (List String)} {piece : String}
    (hP : ∀ {w : Workspace} {path : List String}, A path → w.files.get? path = none → P w →
      P (w.putDirectory path))
    (hA : ∀ q, names.bind (Path.move? · piece) = some q → A q) (h : P w) :
    (enterDirectory names piece).Ends P (fun next w' =>
      next = names.bind (Path.move? · piece) ∧ ¬ longestName < piece.utf8ByteSize ∧
      ((∀ n, names = some n → w.files.hasDirectory n = true) →
        ∀ q, next = some q → w'.files.hasDirectory q = true)) w := by
  unfold enterDirectory
  dsimp only
  refine ends_guard h fun hlength => ?_
  split
  · next hnone => exact ends_pure h ⟨hnone.symm, hlength, nofun⟩
  · next next hnext =>
      refine ends_get ?_
      split
      · next entries hentries =>
          refine ends_pure h ⟨hnext.symm, hlength, fun _ q hq => ?_⟩
          rw [← Option.some.inj hq, FileTree.hasDirectory, hentries]
      · exact ends_bind (Q := fun _ _ => False) (ends_throw h) fun _ _ _ hf => hf.elim
      · next hnone =>
          refine ends_bind (Q := fun _ w' => w' = w.putDirectory next)
            (ends_set (hP (hA next hnext) hnone h) fun _ => rfl) fun _ w' hw' he => ?_
          refine ends_pure hw' ⟨hnext.symm, hlength, fun hdirs q hq => ?_⟩
          obtain rfl := Option.some.inj hq
          rw [he]
          obtain ⟨n, rfl, hmove⟩ := Option.bind_eq_some_iff.mp hnext
          exact FileTree.hasDirectory_putD_move (hdirs n rfl) hmove hnone

/-- Steps into directories keep what making directories keeps; from a directory on, all that is
gone through is directories afterwards. -/
theorem enterDirectories_ends {names : Option (List String)} {pieces : List String}
    (hP : ∀ {w : Workspace} {path : List String}, A path → w.files.get? path = none → P w →
      P (w.putDirectory path))
    (hA : ∀ q ∈ Path.trail names pieces, A q) (h : P w) :
    (pieces.foldlM enterDirectory names).Ends P (fun _ w' =>
      (∀ piece ∈ pieces, ¬ longestName < piece.utf8ByteSize) ∧
      ((∀ n, names = some n → w.files.hasDirectory n = true) →
        ∀ q ∈ Path.trail names pieces, w'.files.hasDirectory q = true)) w := by
  induction pieces generalizing names w P with
  | nil =>
      refine ends_pure h ⟨nofun, fun hdirs q hq => ?_⟩
      cases names with
      | none => nomatch hq
      | some n => exact List.mem_singleton.mp hq ▸ hdirs n rfl
  | cons piece rest ih =>
      have hnext : ∀ q, names.bind (Path.move? · piece) = some q → A q := by
        intro q hq
        obtain ⟨n, rfl, hmove⟩ := Option.bind_eq_some_iff.mp hq
        exact hA q (List.mem_cons_of_mem _ (by rw [hmove]; exact Path.mem_trail_self q rest))
      have hrest : ∀ q ∈ Path.trail (names.bind (Path.move? · piece)) rest, A q := by
        intro q hq
        cases names with
        | none => simp [Path.trail] at hq
        | some n => exact hA q (List.mem_cons_of_mem _ hq)
      -- the directory the steps start from stays one
      let P' (w' : Workspace) : Prop :=
        P w' ∧ ∀ n, names = some n → w.files.hasDirectory n = true → w'.files.hasDirectory n = true
      have hP' : ∀ {w : Workspace} {path : List String}, A path → w.files.get? path = none → P' w →
          P' (w.putDirectory path) := fun hpath hnone h =>
        ⟨hP hpath hnone h.1, fun n hn hd =>
          FileTree.hasDirectory_putD_directory hnone (h.2 n hn hd)⟩
      rw [List.foldlM_cons]
      refine Ends.imp (ends_bind (enterDirectory_ends hP' hnext ⟨h, fun _ _ => id⟩)
        fun next w' hw' hQ => ?_) (fun _ hw' => hw'.1) fun _ _ _ hQ => hQ
      obtain ⟨rfl, hlength, hdirs⟩ := hQ
      refine (ih hP' hrest hw').imp (fun _ => id) fun _ w'' hw'' hreached =>
        ⟨List.forall_mem_cons.mpr ⟨hlength, hreached.1⟩, fun hstart q hq => ?_⟩
      cases names with
      | none => nomatch hq
      | some n =>
          rcases List.mem_cons.mp hq with rfl | hq
          · exact hw''.2 q rfl (hstart q rfl)
          · exact hreached.2 (hdirs hstart) q hq

/-- Making the directories of a path keeps what making each of them keeps, and makes them.  It only
succeeds if the path is not too long for that, and none of its names. -/
theorem makeDirectories_ends {path : String}
    (hP : ∀ {w : Workspace} {path : List String}, A path → w.files.get? path = none → P w →
      P (w.putDirectory path))
    (hA : ∀ q ∈ Path.stops path, A q) (h : P w) :
    (makeDirectories path).Ends P (fun _ w' => Path.IsMakeable path ∧
      (([] ∈ Path.stops path → w.files.hasDirectory [] = true) →
        ∀ q ∈ Path.stops path, w'.files.hasDirectory q = true)) w := by
  unfold makeDirectories
  dsimp only
  refine ends_guard h fun hpath => ?_
  refine ends_bind (enterDirectories_ends hP hA h) fun _ w' hw' hQ =>
    ends_pure hw' ⟨⟨hpath, hQ.1⟩, fun hroot => hQ.2 fun n hn => ?_⟩
  unfold Path.stops at hroot
  split at hn
  · nomatch hn
  · next hrelative =>
      obtain rfl := Option.some.inj hn
      exact hroot (by rw [if_neg hrelative]; exact Path.mem_trail_self _ _)

namespace Held

/-! ### Reaching a store -/

/-- A directory is made where nothing is. -/
theorem directory (hP : Openable site A P) {w : Workspace} {path : List String} (hpath : A path)
    (hnone : w.files.get? path = none) (h : Held site P w) : Held site P (w.putDirectory path) :=
  ⟨h.leads, hP.directory hpath hnone h.holds⟩

/-- A connection comes. -/
theorem attach (hP : Openable site A P) (h : Held site P w) {c : Connection} (hc : c.Leads site) :
    Held site P (w.attach c).2 := by
  refine ⟨fun e he => ?_, hP.attach hc h.holds⟩
  rcases List.mem_append.mp he with he | he
  · exact h.leads e he
  · exact List.mem_singleton.mp he ▸ hc

/-- The file of a store is reached, or made. -/
theorem reachFile (hP : Openable (.file names) A P) (h : Held (.file names) P w) (l : Location) :
    (Workspace.reachFile names l).Ends (Held (.file names) P) (fun _ _ => True) w := by
  refine ends_get (ends_ite (fun _ => ?_) fun _ => ends_guard h fun _ => ?_)
  · exact ends_set ⟨h.leads, hP.spare _ h.holds⟩ fun _ => trivial
  · split
    · exact ends_pure h trivial
    · exact ends_throw h
    · next hnone =>
        exact ends_ite (fun _ => ends_set ⟨h.leads, hP.plain .empty rfl hnone h.holds⟩
          fun _ => trivial) fun _ => ends_throw h

theorem leads_of_joined? (h : w.Led site) {cache : Option Cache} {c : Connection}
    (hc : w.joined? cache = some c) : c.Leads site := by
  unfold Workspace.joined? at hc
  obtain ⟨cache, -, hc⟩ := Option.bind_eq_some_iff.mp hc
  obtain ⟨d, hd, rfl⟩ := Option.map_eq_some_iff.mp hc
  obtain ⟨e, he, rfl⟩ := List.mem_map.mp (List.mem_of_find?_eq_some hd)
  exact ⟨(h e he).site, (h e he).live⟩

/-- **A file is opened.** -/
theorem openFile (hP : Openable site A P) (h : Held site P w) {l : Location}
    (hfixed : l.fixed = false) (hsite : ∀ s, w.siteOf? l = some s → s = site) :
    (Workspace.openFile l).Ends (Held site P) (fun c _ => c.Leads site ∧
      w.siteOf? l = some site ∧ (l.IsLogging → c.isLogging = true ∧ c.cache = none)) w := by
  refine ends_get ?_
  cases hs : w.siteOf? l with
  | none => exact ends_throw h
  | some s =>
      obtain rfl := hsite s hs
      refine ends_get ?_
      split
      · next c hc =>
          refine ends_pure h ⟨leads_of_joined? h.leads hc, rfl, fun hlog => ?_⟩
          rw [hlog.apart] at hc
          nomatch hc
      · have hmake : ∀ w', Held s P w' →
            (get >>= fun w => pure {
              site := s, system := l.system, readOnly := l.isReading
              lockless := l.lockless || decide (l.system = FileSystem.lockless)
              frozen := if l.fixed = true then some (w.volumeAt s).settled else none
              cache := if l.shared = true then some (Cache.ofSite l.system s) else none
              isAware := (w.volumeAt s).table.isSome } : Attempt Connection).Ends
            (Held s P) (fun c _ => c.Leads s ∧ some s = some s ∧
              (l.IsLogging → c.isLogging = true ∧ c.cache = none)) w' := by
          refine fun w' h' => ends_get (ends_pure h' ⟨⟨rfl, by simp [hfixed]⟩, rfl, fun hlog => ?_⟩)
          rcases hlog.system with hsystem | hsystem
          · simp [Connection.isLogging, hsystem, hlog.locks, hfixed, hlog.apart]
          · simp [Connection.isLogging, hsystem, hlog.locks, hfixed, hlog.apart]
        cases s with
        | own => exact hmake w h
        | apart n => exact hmake w h
        | file names => exact ends_bind (h.reachFile hP l) fun _ w' h' _ => hmake w' h'

/-! ### Readying a store -/

theorem rollBack (hP : Stable (.file names) P) (h : Held (.file names) P w) (c : Connection) :
    (Workspace.rollBack names c).Ends (Held (.file names) P) (fun _ _ => True) w := by
  refine ends_get (ends_ite (fun _ => ends_pure h trivial) fun _ => ends_guard h fun _ => ?_)
  refine ends_ite (fun _ => ?_) fun _ => ends_pure h trivial
  refine ends_guard h fun _ => ends_guard h fun _ => ?_
  exact ends_set (h.sweep hP .journal) fun _ => trivial

/-- A store begins to keep a log. -/
theorem keepLog (hP : Openable (.file names) A P) (h : Held (.file names) P w) (c : Connection)
    {v : Volume} (hv : v.table = (w.volumeAt (.file names)).table) :
    (Workspace.keepLog names c v).Ends (Held (.file names) P) (fun _ _ => True) w := by
  refine ends_get (ends_guard h fun _ => ends_guard h fun _ => ?_)
  have hput : Held (.file names) P (w.putFile names (.store (v.logged true))) :=
    ⟨h.leads, hP.logged (v := v.logged true) hv (fun _ _ => Bool.or_true _) h.holds⟩
  exact ends_set (hput.sweep hP.toStable .journal) fun _ => trivial

theorem clear (hP : Stable (.file names) P) (h : Held (.file names) P w) (c : Connection) :
    (Workspace.clear names c).Ends (Held (.file names) P) (fun _ _ => True) w := by
  have hjournal : Held (.file names) P
      (if w.has names .journal && !(c.isDotted || (c.readOnly && c.isLogging)) then
        w.sweep names .journal else w) := .ite (h.sweep hP .journal) h
  refine ends_get (ends_bind (Q := fun _ _ => True) (ends_set hjournal fun _ => trivial) ?_)
  refine fun _ w h _ => ends_guard h fun _ => ends_ite (fun _ => ?_) fun _ => ends_pure h trivial
  exact ends_set (hjournal.sweep hP .log) fun _ => trivial

theorem reject (hP : Stable (.file names) P) (h : Held (.file names) P w)
    (hlogs : w.files.LogsAt names) (c : Connection) :
    (Workspace.reject names c).Ends (Held (.file names) P) (fun _ _ => False) w := by
  refine ends_get (ends_ite (fun _ => ends_guard h fun _ => ends_ite (fun _ => ?_) fun _ => ?_)
    fun _ => ends_throw h)
  · exact ends_bind (Q := fun _ _ => True) (ends_set (h.putLog hP hlogs false) fun _ => trivial)
      fun _ _ h _ => ends_throw h
  · have hlog := h.sweep hP .log
    exact ends_bind (Q := fun _ _ => True)
      (ends_set (.ite hlog (hlog.sweep hP .index)) fun _ => trivial) fun _ _ h _ => ends_throw h

/-- Of a file that is readied it is known what its table is, however it goes on. -/
theorem startFile (hP : Openable (.file names) A P) (h : Held (.file names) P w) (c : Connection)
    {content : Content} (hcontent : w.files.content? names = some content) :
    (Workspace.startFile names c content).Ends (Held (.file names) P) (fun _ _ => True) w := by
  have hboth := hP.and (openable_hasTable (.file names) A (w.volumeAt (.file names)).table)
  let P' (w' : Workspace) : Prop :=
    P w' ∧ HasTable (.file names) (w.volumeAt (.file names)).table w'
  suffices hends : (Workspace.startFile names c content).Ends (Held (.file names) P')
      (fun _ _ => True) w from hends.imp (fun _ h => ⟨h.leads, h.holds.1⟩) fun _ _ _ => id
  have h' : Held (.file names) P' w := ⟨h.leads, h.holds, rfl⟩
  cases content with
  | store v =>
      have hv : v.table = (w.volumeAt (.file names)).table := by rw [volumeAt_of_content? hcontent]
      refine ends_bind (h'.rollBack hboth.toStable c) fun _ w h _ =>
        ends_get (ends_guard h fun _ => ?_)
      refine ends_get (ends_ite (fun _ => ?_) fun _ => ends_ite (fun _ => ?_) fun _ => ?_)
      · exact ends_ite (fun _ => ends_throw h) fun _ => ends_pure h trivial
      · exact ends_ite (fun _ => ends_set (h.sweep hboth.toStable .log) fun _ => trivial)
          fun _ => ends_pure h trivial
      · exact ends_ite (fun _ => h.keepLog hboth c (hv.trans h.holds.2.symm))
          fun _ => ends_pure h trivial
  | plain bytes =>
      have hnone : (none : Option Table) = (w.volumeAt (.file names)).table := by
        rw [volumeAt_file, hcontent]
      refine ends_ite (fun _ => ?_) fun _ => ?_
      -- a file that is rejected is no store that keeps no log
      · have hplain := hboth.toStable.and (stable_content? names (some (.plain bytes)))
        have h'' : Held (.file names) (fun w' => P' w' ∧
            w'.files.content? names = some (.plain bytes)) w := ⟨h'.leads, h'.holds, hcontent⟩
        refine ((ends_bind (h''.rollBack hplain c) fun _ w h _ =>
          ends_get (ends_guard h fun _ => ?_)) : Ends _ _ (fun _ _ => False) w).imp
          (fun _ h => ⟨h.leads, h.holds.1⟩) fun _ _ _ => False.elim
        exact h.reject hplain (fun v hv => nomatch h.holds.2.symm.trans hv) c
      · refine ends_bind (h'.clear hboth.toStable c)
          fun _ w h _ => ends_ite (fun _ => ?_) fun _ => ends_pure h trivial
        exact h.keepLog hboth c (v := {}) (hnone.trans h.holds.2.symm)

/-- A connection starts to use its store. -/
theorem start (hP : Openable site A P) (h : Held site P w) {c : Connection} (hc : c.Leads site) :
    (Workspace.start c).Ends (Held site P) (fun _ _ => True) w := by
  obtain ⟨rfl, hlive⟩ := hc
  refine ends_get (ends_guard h fun _ => ?_)
  cases hs : c.site with
  | apart n => exact ends_pure (hs ▸ h) trivial
  | own =>
      rw [hs] at h hP
      exact ends_set ⟨h.leads, hP.logged (v := w.own.logged _) rfl nofun h.holds⟩ fun _ => trivial
  | file names =>
      rw [hs] at h hP
      dsimp only
      cases hcontent : w.files.content? names with
      | none => exact ends_throw h
      | some content =>
          rw [hlive]
          exact h.startFile hP c hcontent

/-- What is so after a store was readied, or when it need not be, is so after the connection was
added. -/
theorem accept (hP : Openable site A P) (hQ : Openable site A Q) (h : Held site P w)
    {c : Connection} (hc : c.Leads site) (hjoined : (w.joined? c.cache).isSome = true → Q w)
    (hstart : (Workspace.start c).Ends (Held site P) (fun _ w' => Q w') w) :
    (Workspace.accept c).Ends (Held site P) (fun _ w' => Q w') w := by
  refine ends_get (ends_ite (fun hcache => ends_get ?_) fun _ => ends_get ?_)
  · exact ends_bind (ends_set (h.attach hP hc) fun _ => hQ.attach hc (hjoined hcache))
      fun _ _ h hQ => ends_pure h hQ
  · refine ends_bind (ends_tryCatch hstart fun e w h => ?_) fun _ w h hQ' => ends_get ?_
    -- a store that cannot be readied is let go of, and the fault stays
    · exact ends_get (ends_bind (Q := fun _ _ => True)
        (ends_set (h.setAside hP.toStable c) fun _ => trivial) fun _ _ h _ => ends_throw h)
    · have hboth := hP.and hQ
      have hattach := Held.attach hboth ⟨h.leads, h.holds, hQ'⟩ hc
      refine Ends.imp (P := Held site fun w => P w ∧ Q w) (Q := fun _ _ => True)
        (ends_bind (Q := fun _ _ => True)
          (ends_set (.ite (hattach.enter hboth.toStable _) hattach) fun _ => trivial)
          fun _ _ h _ => ends_pure h trivial) (fun _ h => ⟨h.leads, h.holds.1⟩) ?_
      exact fun _ _ h _ => h.holds.2

end Held

end Workspace

/-! ### Addresses -/

namespace Workspace

/-- A piece of a path leads to one place, if it leads to any. -/
theorem move?_cases (site : Site) (piece : String) :
    ∃ s, ∀ w : Workspace, w.move? site piece = none ∨ w.move? site piece = some s := by
  cases site with
  | own => exact ⟨.own, fun _ => .inr rfl⟩
  | apart n => exact ⟨.apart n, fun _ => .inr rfl⟩
  | file names =>
      by_cases hstay : piece = "" ∨ piece = Path.current
      · exact ⟨.file names, fun w => .inr (by simp [move?, hstay])⟩
      by_cases hup : piece = Path.parent
      · refine ⟨if names.isEmpty then .own else .file names.dropLast, fun w => .inr ?_⟩
        rw [apply_ite some]
        simp only [move?]
        rw [if_neg hstay, if_pos hup]
      · refine ⟨.file (names ++ [piece]), fun w => ?_⟩
        simp only [move?, hstay, hup, if_false]
        split
        · exact .inl rfl
        · split
          · exact .inl rfl
          · split
            · exact .inl rfl
            · exact .inr rfl
          · exact .inr rfl

variable {w w' : Workspace} {s s' : Site}

/-- A step leads to one site at most, whatever is there. -/
theorem move?_unique {site : Site} {piece : String} (h : w.move? site piece = some s)
    (h' : w'.move? site piece = some s') : s = s' := by
  obtain ⟨x, hx⟩ := move?_cases site piece
  have hs : some s = some x := h ▸ (hx w).resolve_left (by simp [h])
  have hs' : some s' = some x := h' ▸ (hx w').resolve_left (by simp [h'])
  exact Option.some.inj (hs.trans hs'.symm)

/-- So do several. -/
theorem moves_unique {pieces : List String} {site : Site} (h : pieces.foldlM w.move? site = some s)
    (h' : pieces.foldlM w'.move? site = some s') : s = s' := by
  induction pieces generalizing site with
  | nil => exact Option.some.inj (h.symm.trans h')
  | cons piece rest ih =>
      rw [List.foldlM_cons] at h h'
      obtain ⟨x, hx, hrest⟩ := Option.bind_eq_some_iff.mp h
      obtain ⟨x', hx', hrest'⟩ := Option.bind_eq_some_iff.mp h'
      -- the workspaces may differ, but both moves lead to the one place there is
      obtain rfl := move?_unique hx hx'
      exact ih hrest hrest'

/-- The site of a location depends on no file, though there may be none for the files there are. -/
theorem siteOf?_unique {l : Location} (h : w.siteOf? l = some s) (h' : w'.siteOf? l = some s') :
    s = s' := by
  have hsite : ∀ {w : Workspace} {s : Site}, l.isAbsolute = false → w.siteOf? l = some s →
      l.names.foldlM w.move? (.file []) = some s := by
    intro w s habsolute hs
    simp only [siteOf?, habsolute, Bool.false_eq_true, if_false] at hs
    split at hs
    · next names hnames =>
        rw [hnames]
        split at hs
        · nomatch hs
        · exact hs
    · exact hs
  cases habsolute : l.isAbsolute with
  | true =>
      simp only [siteOf?, habsolute, if_true] at h h'
      exact Option.some.inj (h.symm.trans h')
  | false => exact moves_unique (hsite habsolute h) (hsite habsolute h')

end Workspace

/-- An address leads to a site: a store in a file, or outside of the working directory, that is not
said to stay as it is. -/
def Address.LeadsTo : Address → Site → Prop
  | .own, site    => site = .own
  | .path p, site => ∃ l, Location.ofPath? p = some l ∧ l.isLoose = false ∧ l.system ≠ .memory ∧
      l.fixed = false ∧ ∃ w : Workspace, w.siteOf? l = some site

/-- The directories on the way of an address. -/
def Address.stops : Address → List (List String)
  | .own    => []
  | .path p => Path.stops p

namespace Workspace

open Attempt

variable {w : Workspace} {site : Site} {A : List String → Prop} {P : Workspace → Prop}
  {a : Address}

namespace Held

/-- **A path is opened**, with the directories to it made. -/
theorem openPath (hP : Openable site A P) (h : Held site P w) {path : String}
    (ha : (Address.path path).LeadsTo site) (hA : ∀ q ∈ Path.stops path, A q) :
    (Workspace.openPath path).Ends (Held site P) (fun _ _ => True) w := by
  have hdirectory : ∀ {w : Workspace} {path : List String}, A path → w.files.get? path = none →
      Held site P w → Held site P (w.putDirectory path) :=
    fun hpath hnone h => h.directory hP hpath hnone
  refine ends_bind (makeDirectories_ends hdirectory hA h) fun _ w h _ => ends_guard h fun _ => ?_
  obtain ⟨l, hl, hloose, hmemory, hfixed, w₀, hsite⟩ := ha
  rw [hl]
  refine ends_bind (Q := fun c _ => c.Leads site) ?_ fun c w h hc => ?_
  · simp only [Workspace.reach, hloose, hmemory, Bool.false_eq_true, if_false]
    exact (h.openFile hP hfixed fun s hs => siteOf?_unique hs hsite).imp (fun _ => id)
      fun _ _ _ hc => hc.1
  · have hstart := (h.start hP hc).imp (fun _ => id) fun _ _ h _ => h.holds
    exact (h.accept hP hP hc (fun _ => h.holds) hstart).imp (fun _ => id) fun _ _ _ _ => trivial

/-- **Opening a store**, whether it succeeds or not, keeps what its small changes keep. -/
theorem openStore (hP : Openable site A P) (h : Held site P w) (ha : a.LeadsTo site)
    (hA : ∀ q ∈ a.stops, A q) : Held site P (w.openStore a).2 := by
  cases a with
  | own =>
      obtain rfl : site = .own := ha
      have hlogged : Held .own P { w with own := w.own.logged true } :=
        ⟨h.leads, hP.logged (v := w.own.logged true) rfl nofun h.holds⟩
      exact hlogged.attach hP ⟨rfl, rfl⟩
  | path path => exact (h.openPath hP ha hA).1

/-- A store is locked. -/
theorem lock (hP : Openable site A P) (h : Held site P w) (ha : a.LeadsTo site)
    (hA : ∀ q ∈ a.stops, A q) : Held site P (w.lock a).2 := by
  have hopen := h.openStore hP ha hA
  unfold Workspace.lock
  split
  · next he => rw [he] at hopen; exact hopen.hold hP.toStable _
  · next he => rw [he] at hopen; exact hopen

end Held

/-- What migrating and closing keep is so after a store was opened and migrated, if it is so once
the store is open; what opening leaves when it fails is so in any case. -/
theorem openMigrated_ends {P Q : Workspace → Prop} {w : Workspace} {a : Address}
    (hfails : ∀ e, (w.openStore a).1 = .error e → P (w.openStore a).2)
    (hopens : ∀ number, (w.openStore a).1 = .ok number → Q (w.openStore a).2)
    (hmigrate : ∀ w number, Q w → Q (w.migrate number).2)
    (hclose : ∀ w number, Q w → Q (w.close number)) (hP : ∀ w, Q w → P w) :
    P (w.openMigrated a).2 ∧
      ∀ number, (w.openMigrated a).1 = .ok number → Q (w.openMigrated a).2 := by
  unfold openMigrated
  split
  · next he => rw [he] at hfails; exact ⟨hfails _ rfl, nofun⟩
  · next number w' he =>
      rw [he] at hopens
      have hmigrated := hmigrate w' number (hopens number rfl)
      split
      · next hm => rw [hm] at hmigrated; exact ⟨hP _ hmigrated, fun _ _ => hmigrated⟩
      · next hm => rw [hm] at hmigrated; exact ⟨hP _ (hclose _ number hmigrated), nofun⟩

/-- To open and migrate is to open, to migrate and maybe to close. -/
theorem openMigrated_induction {P : Workspace → Prop} {w : Workspace} {a : Address}
    (hopen : P (w.openStore a).2) (hmigrate : ∀ w number, P w → P (w.migrate number).2)
    (hclose : ∀ w number, P w → P (w.close number)) : P (w.openMigrated a).2 :=
  (openMigrated_ends (fun _ _ => hopen) (fun _ _ => hopen) hmigrate hclose fun _ => id).1

end Workspace

end Schemata

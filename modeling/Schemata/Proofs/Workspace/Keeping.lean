import Schemata.Proofs.FileTree
import Schemata.Workspace.Connection

/-!
# Schemata — Proofs — Workspace — Keeping

What stays true of a workspace while a store in it is used.  All connections of the workspace lead
to the one site and see the store there as it is (`Workspace.Led`).  Then whatever is done through
them or around them is made of a few small changes: a connection is changed in place, a file beside
the store's file is put or deleted, a connection goes.  A property that each of these changes keeps
is kept by everything made of them.

* `Stable`, `Usable`, `Writable`, `Closable`: the small changes that a property keeps.
* `Held.enter`, `Held.hold`, `Held.release`, `Held.look`, `Held.use`, `Held.close`: what keeps such
  a property.
-/

namespace Schemata

/-! ### Paths beside a path -/

namespace Companion

/-- The name of a file beside another is not the name of that. -/
theorem extend_ne (c : Companion) (name : String) : FileName.extend name c.ending ≠ name := by
  have hne : ∀ s : String, s.toList ≠ [] → name ++ s ≠ name := by
    intro s hs he
    have hl := congrArg String.toList he
    rw [String.toList_append, List.append_right_eq_self] at hl
    exact hs hl
  unfold FileName.extend
  split
  · exact hne _ (by cases c <;> decide)
  · exact hne _ (by rw [String.toList_ofList]; cases c <;> decide +kernel)

/-- A path beside a path is not the root. -/
theorem names_ne_nil (c : Companion) (names : List String) : c.names names ≠ [] := by
  simp [Companion.names]

/-- No companion of a file is at the path of the file or of a directory above it. -/
theorem not_prefix (c : Companion) (names : List String) : ¬ c.names names <+: names := by
  intro h
  rcases List.eq_nil_or_concat names with rfl | ⟨front, last, rfl⟩
  · exact c.names_ne_nil [] (List.prefix_nil.mp h)
  · have he := h.eq_of_length (by simp [Companion.names])
    rw [Companion.names, List.concat_eq_append, List.dropLast_concat,
      List.getLastD_concat, List.append_cancel_left_eq, List.cons.injEq] at he
    exact c.extend_ne last he.1

/-- A path beside a path is another path. -/
theorem names_ne (c : Companion) (names : List String) : c.names names ≠ names :=
  fun h => c.not_prefix names (h.symm ▸ List.prefix_refl names)

end Companion

/-- A store that is in a file keeps a log. -/
def FileTree.LogsAt (t : FileTree Content) (names : List String) : Prop :=
  ∀ v, t.content? names = some (.store v) → v.keepsLog = true

/-- A connection leads to a site and sees the store there as it is. -/
structure Connection.Leads (c : Connection) (site : Site) : Prop where
  site : c.site = site
  live : c.frozen = none

/-- A connection that may hold the store or use its log where another does not, and is otherwise the
same. -/
structure Connection.IsLike (c d : Connection) : Prop where
  eq : c = { d with hold := c.hold, hasLog := c.hasLog }

/-- A connection leads where one that is like it does. -/
theorem Connection.IsLike.leads {c d : Connection} {site : Site} (h : c.IsLike d)
    (hd : d.Leads site) : c.Leads site :=
  ⟨by rw [h.eq]; exact hd.site, by rw [h.eq]; exact hd.live⟩

/-- To write to a store does not change whether it keeps a log. -/
@[simp] theorem Volume.keepsLog_write (v : Volume) (table : Option Table) :
    (v.write table).keepsLog = v.keepsLog := by
  unfold write
  split <;> rfl

@[simp] theorem Volume.table_write (v : Volume) (table : Option Table) :
    (v.write table).table = table := by
  unfold write
  split <;> rfl

namespace Workspace

/-- A connection that is found by its number is one of the workspace. -/
theorem mem_of_connection? {w : Workspace} {number : Nat} {c : Connection}
    (h : w.connection? number = some c) : (number, c) ∈ w.connections := by
  obtain ⟨_, _, he, -⟩ := List.lookup_eq_some_iff.mp h
  rw [he]
  simp

/-- The store of a site depends on the files and on the stores that have none. -/
theorem volumeAt_congr {w w' : Workspace} (hfiles : w'.files = w.files) (hown : w'.own = w.own)
    (hapart : w'.apart = w.apart) (site : Site) : w'.volumeAt site = w.volumeAt site := by
  cases site <;> simp [volumeAt, hfiles, hown, hapart]

/-- The store in a file is what the file has in it. -/
theorem volumeAt_file (w : Workspace) (names : List String) :
    w.volumeAt (.file names) = match w.files.content? names with
      | some (.store v) => v
      | _               => {} := by
  simp only [volumeAt, FileTree.content?]
  cases w.files.get? names with
  | none => rfl
  | some found =>
      cases found with
      | directory entries => rfl
      | file content => cases content <;> rfl

/-- The store of a file is what the file holds. -/
theorem volumeAt_of_content? {w : Workspace} {names : List String} {v : Volume}
    (h : w.files.content? names = some (.store v)) : w.volumeAt (.file names) = v := by
  rw [volumeAt_file, h]

/-- A volume is put at a site, or there is no such place and nothing changes. -/
theorem volumeAt_setVolumeAt_cases (w : Workspace) (site : Site) (v : Volume) :
    (w.setVolumeAt site v).volumeAt site = v ∨ w.setVolumeAt site v = w := by
  cases site with
  | own => exact .inl rfl
  | apart number =>
      rcases Nat.lt_or_ge number w.apart.length with hlt | hge
      · exact .inl (by simp [setVolumeAt, volumeAt, hlt])
      · exact .inr (by simp [setVolumeAt, List.set_eq_of_length_le hge])
  | file names =>
      cases hfiles : w.files.put? names (.file (.store v)) with
      | none => exact .inr (by simp [setVolumeAt, hfiles])
      | some files =>
          refine .inl ?_
          simp [setVolumeAt, volumeAt, hfiles, FileTree.get?_put?_self hfiles]

/-- A site has a place for a table if it has a table already. -/
theorem volumeAt_setVolumeAt {w : Workspace} {site : Site} {t : Table}
    (h : (w.volumeAt site).table = some t) (v : Volume) :
    (w.setVolumeAt site v).volumeAt site = v := by
  cases site with
  | own => rfl
  | apart number =>
      have hlt : number < w.apart.length := by
        rcases Nat.lt_or_ge number w.apart.length with hlt | hge
        · exact hlt
        · rw [volumeAt, List.getElem?_eq_none hge] at h
          nomatch h
      simp [setVolumeAt, volumeAt, hlt]
  | file names =>
      have hthere : (w.files.get? names).isSome := by
        simp only [volumeAt] at h
        split at h
        · next hv => rw [hv]; rfl
        · nomatch h
      obtain ⟨files, hfiles⟩ :=
        Option.isSome_iff_exists.mp (FileTree.put?_isSome hthere (.file (.store v)))
      simp [setVolumeAt, volumeAt, hfiles, FileTree.get?_put?_self hfiles]

theorem connections_setVolumeAt (w : Workspace) (site : Site) (v : Volume) :
    (w.setVolumeAt site v).connections = w.connections := by
  cases site <;> rfl

/-- Every connection leads to a site. -/
def Led (w : Workspace) (site : Site) : Prop := ∀ e ∈ w.connections, e.2.Leads site

/-- Where all connections lead to a site, so does the one of a number. -/
theorem Led.connection? {w : Workspace} {site : Site} (h : w.Led site) {number : Nat}
    {c : Connection} (hc : w.connection? number = some c) : c.Leads site :=
  h _ (mem_of_connection? hc)

/-- Connections lead where they did when a store is written. -/
theorem Led.setVolumeAt {w : Workspace} {site : Site} (h : w.Led site) (v : Volume) :
    (w.setVolumeAt site v).Led site :=
  fun e he => h e (connections_setVolumeAt w site v ▸ he)

/-- Connections changed, each by itself, where a test says so. -/
def adjust (w : Workspace) (p : Nat × Connection → Prop) [DecidablePred p]
    (f : Connection → Connection) : Workspace :=
  { w with connections := w.connections.map fun e => if p e then (e.1, f e.2) else e }

/-- The connection of a number, after connections were changed in place. -/
theorem connection?_adjust (w : Workspace) (p : Nat × Connection → Prop) [DecidablePred p]
    (f : Connection → Connection) (number : Nat) :
    (w.adjust p f).connection? number
      = (w.connection? number).map fun c => if p (number, c) then f c else c := by
  unfold connection? adjust
  dsimp only
  induction w.connections with
  | nil => rfl
  | cons e rest ih =>
      have hfst : (if p e then (e.1, f e.2) else e).1 = e.1 := by split <;> rfl
      rw [List.map_cons, List.lookup_cons, List.lookup_cons, ih, hfst]
      cases hnumber : number == e.1 with
      | false => rfl
      | true =>
          obtain rfl : number = e.1 := beq_iff_eq.mp hnumber
          simp only [Option.map_some]
          split <;> rfl

/-- To change a connection and those that share its store is to change connections in place, or
nothing. -/
theorem modifyShared_cases (w : Workspace) (number : Nat) (f : Connection → Connection) :
    w.connection? number = none ∧ w.modifyShared number f = w ∨
    ∃ c : Connection, w.modifyShared number f
      = w.adjust (fun e : Nat × Connection => (e.1 = number || c.isBeside e.2) = true) f := by
  unfold modifyShared
  split
  · next hc => exact .inl ⟨hc, rfl⟩
  · next c _ => exact .inr ⟨c, rfl⟩

/-- A file beside that of a store is taken from no one who has the store open. -/
theorem detach_of_led {w : Workspace} {names path : List String} (h : w.Led (.file names))
    (hpath : path ≠ names) (left : Volume) :
    w.detach path left
      = { w with apart := w.apart ++ [left], spares := w.spares.filter (·.1 ≠ path) } := by
  have hsame : ∀ e ∈ w.connections, e.2.site ≠ .file path := fun e he hs =>
    hpath (Site.file.inj (hs.symm.trans (h e he).site))
  have hmap : ∀ site : Site, w.connections.map (fun e => (e.1, if e.2.site = .file path then
      { e.2 with site, readOnly := e.2.readOnly || !e.2.hasLog } else e.2)) = w.connections := by
    intro site
    refine (List.map_congr_left fun e he => ?_).trans (List.map_id _)
    rw [if_neg (hsame e he)]
    rfl
  simp only [detach, addApart, hmap]

/-- Sweeping leaves the files as they are, where there is none to sweep, or deletes one. -/
theorem files_sweep (w : Workspace) (names : List String) (c : Companion) :
    (w.files.content? (c.names names) = none ∧ (w.sweep names c).files = w.files) ∨
      (w.sweep names c).files = w.files.delete (c.names names) := by
  unfold sweep
  dsimp only
  split
  · next hnone => exact .inl ⟨Option.isNone_iff_eq_none.mp hnone, rfl⟩
  · exact .inr rfl

/-- Sweeping beside a store leaves its file. -/
theorem content?_sweep {w : Workspace} {names : List String} (c : Companion) :
    (w.sweep names c).files.content? names = w.files.content? names := by
  rcases files_sweep w names c with ⟨-, hsame⟩ | hdelete
  · rw [hsame]
  · rw [hdelete]
    exact FileTree.content?_delete (c.not_prefix names)

/-- A store that keeps a log has a file that says so. -/
theorem logsAt_of_keepsLog {w : Workspace} {names : List String}
    (h : (w.volumeAt (.file names)).keepsLog = true) : w.files.LogsAt names :=
  fun _ hv => volumeAt_of_content? hv ▸ h

/-- What is written to a store that keeps a log is in a store that does. -/
theorem logsAt_write {w : Workspace} {names : List String}
    (h : (w.volumeAt (.file names)).keepsLog = true) (table : Option Table) :
    (w.setVolumeAt (.file names) ((w.volumeAt (.file names)).write table)).files.LogsAt names := by
  refine logsAt_of_keepsLog ?_
  rcases volumeAt_setVolumeAt_cases w (.file names) ((w.volumeAt (.file names)).write table) with
    hput | hkept
  · rw [hput, Volume.keepsLog_write, h]
  · rw [hkept, h]

/-- Through a connection that is closed nothing is migrated, and through one that cannot write what
it has to nothing but the store is looked at. -/
theorem migrate_cases (w : Workspace) (number : Nat) :
    (w.migrate number).2 = w ∨ (w.migrate number).2 = w.enter number ∨
      (w.migrate number).2 = (w.use number Store.migrate).2 := by
  unfold migrate
  split
  · exact .inl rfl
  · split
    · exact .inr (.inl rfl)
    · exact .inr (.inr rfl)

/-! ### Changes that a property keeps -/

variable {site : Site} {P Q : Workspace → Prop}

/-- A property that is kept when connections hold the store or begin to use its log, and when what
is beside its file changes.  Of what may be put there only the lock is a directory, and a log is put
beside no store that keeps none. -/
structure Stable (site : Site) (P : Workspace → Prop) : Prop where
  adjust : ∀ {w : Workspace} (p : Nat × Connection → Prop) [DecidablePred p]
    {f : Connection → Connection}, (∀ c, (f c).IsLike c) → P w → P (w.adjust p f)
  apart : ∀ {w : Workspace} {names : List String} (v : Volume), site = .file names → P w →
    P { w with apart := w.apart ++ [v] }
  spare : ∀ {w : Workspace} (spares : List (List String × Bool)), P w → P { w with spares }
  put : ∀ {w : Workspace} {names : List String} {c : Companion} {new : FileTree Content},
    site = .file names → c ≠ .journal → (new.isDirectory = true → c = .lock) →
      (c = .log → w.files.LogsAt names) → P w →
        P { w with files := (w.files.put? (c.names names) new).getD w.files }
  delete : ∀ {w : Workspace} {names : List String} (c : Companion), site = .file names → P w →
    P { w with files := w.files.delete (c.names names) }

/-- A property that is also kept when connections learn of the table. -/
structure Usable (site : Site) (P : Workspace → Prop) : Prop extends Stable site P where
  inform : ∀ {w : Workspace} (p : Nat × Connection → Prop) [DecidablePred p] (isAware : Bool),
    P w → P (w.adjust p ({ · with isAware }))

/-- A property that is also kept whatever table the store has. -/
structure Writable (site : Site) (P : Workspace → Prop) : Prop extends Usable site P where
  volume : ∀ {w : Workspace} {v : Volume}, v.keepsLog = (w.volumeAt site).keepsLog → P w →
    P (w.setVolumeAt site v)

/-- A property that is also kept when the connection of a number goes and what was written is
settled. -/
structure Closable (site : Site) (number : Nat) (P : Workspace → Prop) : Prop
    extends Stable site P where
  filter : ∀ {w : Workspace}, P w →
    P { w with connections := w.connections.filter (·.1 ≠ number) }
  settle : ∀ {w : Workspace}, P w → P (w.setVolumeAt site (w.volumeAt site).settle)

/-- Of two properties that are kept, both together are. -/
theorem Stable.and (hP : Stable site P) (hQ : Stable site Q) :
    Stable site fun w => P w ∧ Q w where
  adjust p _ _ hf h := ⟨hP.adjust p hf h.1, hQ.adjust p hf h.2⟩
  apart v hs h := ⟨hP.apart v hs h.1, hQ.apart v hs h.2⟩
  spare spares h := ⟨hP.spare spares h.1, hQ.spare spares h.2⟩
  put hs hc hnew hlog h := ⟨hP.put hs hc hnew hlog h.1, hQ.put hs hc hnew hlog h.2⟩
  delete c hs h := ⟨hP.delete c hs h.1, hQ.delete c hs h.2⟩

/-- So it is where connections learn of the table, too. -/
theorem Usable.and (hP : Usable site P) (hQ : Usable site Q) :
    Usable site fun w => P w ∧ Q w where
  toStable := hP.toStable.and hQ.toStable
  inform p _ isAware h := ⟨hP.inform p isAware h.1, hQ.inform p isAware h.2⟩

/-- So it is whatever table the store has, too. -/
theorem Writable.and (hP : Writable site P) (hQ : Writable site Q) :
    Writable site fun w => P w ∧ Q w where
  toUsable := hP.toUsable.and hQ.toUsable
  volume hv h := ⟨hP.volume hv h.1, hQ.volume hv h.2⟩

/-- So it is when a connection goes, too. -/
theorem Closable.and {number : Nat} (hP : Closable site number P) (hQ : Closable site number Q) :
    Closable site number fun w => P w ∧ Q w where
  toStable := hP.toStable.and hQ.toStable
  filter h := ⟨hP.filter h.1, hQ.filter h.2⟩
  settle h := ⟨hP.settle h.1, hQ.settle h.2⟩

/-- Every connection leads to a site, and the workspace has a property. -/
structure Held (site : Site) (P : Workspace → Prop) (w : Workspace) : Prop where
  leads : w.Led site
  holds : P w

namespace Held

variable {w w' : Workspace} {names : List String}

/-- Whichever of two workspaces it is, both have the property. -/
theorem ite {p : Prop} [Decidable p] (h : Held site P w) (h' : Held site P w') :
    Held site P (if p then w else w') := by
  split
  · exact h
  · exact h'

/-! ### Connections and files -/

/-- Connections are changed in place. -/
theorem adjust (hP : Stable site P) (h : Held site P w) (p : Nat × Connection → Prop)
    [DecidablePred p] {f : Connection → Connection} (hf : ∀ c, (f c).IsLike c) :
    Held site P (w.adjust p f) := by
  refine ⟨fun e he => ?_, hP.adjust p hf h.holds⟩
  obtain ⟨d, hd, rfl⟩ := List.mem_map.mp he
  split
  · exact (hf _).leads (h.leads d hd)
  · exact h.leads d hd

/-- Connections learn of the table. -/
theorem inform (hP : Usable site P) (h : Held site P w) (p : Nat × Connection → Prop)
    [DecidablePred p] (isAware : Bool) : Held site P (w.adjust p ({ · with isAware })) := by
  refine ⟨fun e he => ?_, hP.inform p isAware h.holds⟩
  obtain ⟨d, hd, rfl⟩ := List.mem_map.mp he
  split
  · exact ⟨(h.leads d hd).site, (h.leads d hd).live⟩
  · exact h.leads d hd

/-- The connection of a number is changed in place. -/
theorem modify (hP : Stable site P) (h : Held site P w) (number : Nat)
    {f : Connection → Connection} (hf : ∀ c, (f c).IsLike c) : Held site P (w.modify number f) :=
  h.adjust hP (·.1 = number) hf

/-- So are the connections that share its store. -/
theorem modifyShared (hP : Stable site P) (h : Held site P w) (number : Nat)
    {f : Connection → Connection} (hf : ∀ c, (f c).IsLike c) :
    Held site P (w.modifyShared number f) := by
  rcases modifyShared_cases w number f with ⟨-, he⟩ | ⟨c, he⟩
  · rwa [he]
  · rw [he]
    exact h.adjust hP _ hf

/-- Connections that share a store learn of its table. -/
theorem informShared (hP : Usable site P) (h : Held site P w) (number : Nat) (isAware : Bool) :
    Held site P (w.modifyShared number ({ · with isAware })) := by
  rcases modifyShared_cases w number ({ · with isAware }) with ⟨-, he⟩ | ⟨c, he⟩
  · rwa [he]
  · rw [he]
    exact h.inform hP _ isAware

/-- A file is put beside that of the store: none but a lock is a directory, and a log only where
there is one. -/
theorem put (hP : Stable (.file names) P) (h : Held (.file names) P w) (c : Companion)
    (hc : c ≠ .journal) {new : FileTree Content} (hnew : new.isDirectory = true → c = .lock)
    (hlog : c = .log → w.files.LogsAt names) :
    Held (.file names) P
      { w with files := (w.files.put? (c.names names) new).getD w.files } :=
  ⟨h.leads, hP.put rfl hc hnew hlog h.holds⟩

theorem putFile (hP : Stable (.file names) P) (h : Held (.file names) P w) (c : Companion)
    (hc : c ≠ .journal) (hlog : c = .log → w.files.LogsAt names) (content : Content) :
    Held (.file names) P (w.putFile (c.names names) content) :=
  h.put hP c hc nofun hlog

/-- Another file is taken away from the connections to it. -/
theorem detach (hP : Stable (.file names) P) (h : Held (.file names) P w) {path : List String}
    (hpath : path ≠ names) (left : Volume) : Held (.file names) P (w.detach path left) := by
  rw [detach_of_led h.leads hpath]
  exact ⟨h.leads, hP.spare _ (hP.apart left rfl h.holds)⟩

/-- What was beside the file of the store is swept away. -/
theorem sweep (hP : Stable (.file names) P) (h : Held (.file names) P w) (c : Companion) :
    Held (.file names) P (w.sweep names c) := by
  have hd := h.detach hP (c.names_ne names) (w.volumeAt (.file (c.names names)))
  unfold Workspace.sweep
  exact .ite h ⟨hd.leads, hP.delete c rfl hd.holds⟩

/-- A log is put beside the file of a store that keeps one. -/
theorem putLog (hP : Stable (.file names) P) (h : Held (.file names) P w)
    (hlogs : w.files.LogsAt names) (alone : Bool) :
    Held (.file names) P (w.putLog names alone) := by
  have hlog : Held (.file names) P (if (w.files.get? (Companion.log.names names)).isNone then
      w.putFile (Companion.log.names names) (.plain .empty) else w) :=
    .ite (h.putFile hP .log nofun (fun _ => hlogs) _) h
  unfold Workspace.putLog
  refine .ite hlog ?_
  exact (hlog.detach hP (Companion.index.names_ne names) _).putFile hP .index nofun nofun _

/-- A handle of the file is set aside. -/
theorem setAside (hP : Stable site P) (h : Held site P w) (c : Connection) :
    Held site P (w.setAside c) := by
  have hspare : ∀ spares, Held site P { w with spares } :=
    fun spares => ⟨h.leads, hP.spare spares h.holds⟩
  unfold Workspace.setAside
  split
  · exact .ite (hspare _) (.ite (hspare _) h)
  · exact h

/-! ### Holding -/

/-- A connection begins to use the log of its store. -/
theorem enter (hP : Stable site P) (h : Held site P w) (number : Nat) :
    Held site P (w.enter number) := by
  unfold Workspace.enter
  split
  · exact h
  · next c hc =>
      split
      · next names hs =>
          obtain rfl : site = .file names := (h.leads.connection? hc).site.symm.trans hs
          have hjournal : Held (.file names) P (if c.hasLog || !w.hasOpenJournal names then w
              else w.sweep names .journal) := .ite h (h.sweep hP .journal)
          split
          · exact h
          · next hguard =>
              have hlogs : (if c.hasLog || !w.hasOpenJournal names then w
                  else w.sweep names .journal).files.LogsAt names := by
                have hkeeps : (w.volumeAt (.file names)).keepsLog = true := by
                  simp only [hs, Bool.or_eq_true, Bool.not_eq_true'] at hguard
                  simpa using fun h => hguard (.inl (.inl h))
                split
                · exact logsAt_of_keepsLog hkeeps
                · exact fun v hv =>
                    logsAt_of_keepsLog hkeeps v ((content?_sweep .journal).symm.trans hv)
              refine .modifyShared hP (.ite hjournal (hjournal.putLog hP hlogs c.isAlone)) number ?_
              exact fun d => ⟨rfl⟩
      · exact h

/-- A connection holds its store from now on. -/
theorem hold (hP : Stable site P) (h : Held site P w) (number : Nat) :
    Held site P (w.hold number) := by
  unfold Workspace.hold
  cases hc : w.connection? number with
  | none => exact h
  | some c =>
      have hm := (h.enter hP number).modify hP number
        (f := fun d => { d with hold := some (if c.readOnly then .reader else .writer) })
        fun d => ⟨rfl⟩
      refine .ite (h.enter hP number) ?_
      have hsite := (h.leads.connection? hc).site
      cases hs : c.site with
      | own => simpa only [hs, apply_ite some] using hm
      | apart n => simpa only [hs, apply_ite some] using hm
      | file names =>
          obtain rfl : site = .file names := hsite.symm.trans hs
          exact .ite (hm.put hP .lock nofun (fun _ => rfl) nofun) hm

/-- A connection lets go of what it holds. -/
theorem release (hP : Stable site P) (h : Held site P w) (number : Nat) :
    Held site P (w.release number) := by
  unfold Workspace.release
  cases hc : w.connection? number with
  | none => exact h
  | some c =>
      have hm := h.modify hP number (f := fun d => { d with hold := none }) fun d => ⟨rfl⟩
      have hsite := (h.leads.connection? hc).site
      dsimp only
      split
      · next names _ hs _ =>
          obtain rfl : site = .file names := hsite.symm.trans hs
          split
          · exact .ite ⟨hm.leads, hP.delete .lock rfl hm.holds⟩ hm
          · exact hm
      · exact hm

/-! ### Using and closing -/

/-- A connection looks at its store and learns of the table. -/
theorem look (hP : Usable site P) (h : Held site P w) (number : Nat) :
    Held site P (w.look number) := by
  unfold Workspace.look
  split
  · exact h
  · exact .ite (h.enter hP.toStable number) ((h.enter hP.toStable number).informShared hP number _)

/-- What changed of a store is written. -/
theorem setStore (hP : Writable site P) (h : Held site P w) (number : Nat) (s : Store) :
    Held site P (w.setStore number s) := by
  unfold Workspace.setStore
  split
  · exact h
  · split
    · exact h
    · next c hc =>
        obtain rfl := (h.leads.connection? hc).site
        have hv : Held c.site P (w.setVolumeAt c.site ((w.volumeAt c.site).write s.table)) :=
          ⟨h.leads.setVolumeAt _, hP.volume (Volume.keepsLog_write _ _) h.holds⟩
        dsimp only
        split
        · next names hs =>
            rw [hs] at hP hv ⊢
            split
            · next hlog =>
                exact hv.putFile hP.toStable .log nofun (fun _ => logsAt_write hlog s.table) _
            · exact hv.sweep hP.toStable .journal
        · exact hv

/-- **What is done with a store keeps the property**, whatever it is. -/
theorem use {α : Type} (hP : Writable site P) (h : Held site P w) (number : Nat)
    (f : Store → α × Store) : Held site P (w.use number f).2 :=
  ((h.look hP.toUsable number).setStore hP number _).look hP.toUsable number

/-- A store is migrated. -/
theorem migrate (hP : Writable site P) (h : Held site P w) (number : Nat) :
    Held site P (w.migrate number).2 := by
  rcases migrate_cases w number with hnone | henter | huse
  · rwa [hnone]
  · rw [henter]
    exact h.enter hP.toStable number
  · rw [huse]
    exact h.use hP number Store.migrate

/-- Documents are written to a store. -/
theorem sync (hP : Writable site P) (h : Held site P w) (number : Nat) (now : Instant)
    (models : List Model) : Held site P (w.sync number now models).2 := by
  unfold Workspace.sync
  split
  · exact h
  · exact h.use hP number (·.sync now models)

/-- What was written is settled. -/
theorem settle {number : Nat} (hP : Closable site number P) (h : Held site P w) :
    Held site P (w.setVolumeAt site (w.volumeAt site).settle) :=
  ⟨h.leads.setVolumeAt _, hP.settle h.holds⟩

/-- **A connection is closed.**  What was written is settled with the last one. -/
theorem close {number : Nat} (hP : Closable site number P) (h : Held site P w) :
    Held site P (w.close number) := by
  unfold Workspace.close
  split
  · exact h
  · next c hc =>
      have hr := h.release hP.toStable number
      have hclosed : Held site P { w.release number with
          connections := (w.release number).connections.filter (·.1 ≠ number) } :=
        ⟨fun e he => hr.leads e (List.mem_filter.mp he).1, hP.filter hr.holds⟩
      have hsite := (h.leads.connection? hc).site
      split
      · exact hclosed
      · next hs =>
          obtain rfl : site = .own := hsite.symm.trans hs
          exact hclosed.settle hP
      · next names hs =>
          obtain rfl : site = .file names := hsite.symm.trans hs
          -- the last who closes settles the log and sweeps it away
          have ha := hclosed.setAside hP.toStable c
          have hswept := (ha.settle hP).sweep hP.toStable .log
          simp only [hs]
          exact .ite ha (.ite hswept (hswept.sweep hP.toStable .index))

end Held

/-- What is in the file of the store stays. -/
theorem stable_content? (names : List String) (o : Option Content) :
    Stable (.file names) (·.files.content? names = o) where
  adjust _ _ _ _ h := h
  apart _ _ h := h
  spare _ h := h
  put {w names' c new} hs _ _ _ h := by
    obtain rfl := Site.file.inj hs
    exact (FileTree.content?_putD (c.not_prefix names) new).trans h
  delete {w names'} c hs h := by
    obtain rfl := Site.file.inj hs
    exact (FileTree.content?_delete (c.not_prefix names)).trans h

/-! ### The table of a store -/

/-- The store at a site has the table that is given, or has none. -/
def HasTable (site : Site) (o : Option Table) (w : Workspace) : Prop :=
  (w.volumeAt site).table = o

/-- Which table a store has depends on the files and on the stores that have none. -/
theorem HasTable.congr {o : Option Table} {w w' : Workspace} (h : HasTable site o w)
    (hfiles : w'.files = w.files) (hown : w'.own = w.own) (hapart : w'.apart = w.apart) :
    HasTable site o w' := by
  rw [HasTable, volumeAt_congr hfiles hown hapart]
  exact h

/-- A file at another path is another file. -/
theorem HasTable.of_content? {names : List String} {o : Option Table} {w w' : Workspace}
    (h : HasTable (.file names) o w)
    (hfiles : w'.files.content? names = w.files.content? names) : HasTable (.file names) o w' := by
  rw [HasTable, volumeAt_file, hfiles, ← volumeAt_file]
  exact h

/-- The store has the table of what is written to it. -/
theorem HasTable.setVolumeAt {o : Option Table} {w : Workspace} (h : HasTable site o w)
    {v : Volume} (hv : v.table = o) : HasTable site o (w.setVolumeAt site v) := by
  rcases volumeAt_setVolumeAt_cases w site v with hput | hkept
  · rw [HasTable, hput, hv]
  · rwa [hkept]

/-- Nothing but a write changes the table of a store. -/
theorem stable_hasTable (site : Site) (o : Option Table) : Stable site (HasTable site o) where
  adjust _ _ _ _ h := h.congr rfl rfl rfl
  apart _ hs h := by
    subst hs
    exact h.of_content? rfl
  spare _ h := h.congr rfl rfl rfl
  put {_ names c _} hs _ _ _ h := by
    subst hs
    exact h.of_content? (FileTree.content?_putD (c.not_prefix names) _)
  delete {_ names} c hs h := by
    subst hs
    exact h.of_content? (FileTree.content?_delete (c.not_prefix names))

/-- Nor does it change when connections learn of it. -/
theorem usable_hasTable (site : Site) (o : Option Table) : Usable site (HasTable site o) where
  toStable := stable_hasTable site o
  inform _ _ _ h := h.congr rfl rfl rfl

/-- Nor does it change when a connection goes. -/
theorem closable_hasTable (site : Site) (number : Nat) (o : Option Table) :
    Closable site number (HasTable site o) where
  toStable := stable_hasTable site o
  filter h := h.congr rfl rfl rfl
  settle h := h.setVolumeAt h

end Workspace

end Schemata

import Schemata.Proofs.Workspace.Serving
import Schemata.Proofs.Workspace.Tidiness

/-!
# Schemata — Proofs — Workspace — Rereading

What can be done with a store without writing to it, while others hold it.  A connection is steady
if it uses the log of a store in a file, or is to a store that is in no file and in no memory that
others share; the lock of a writer keeps it from writing, but not from reading.

* `seal?_eq_none`: nothing keeps a steady connection from reading a tidy store.
* `Held.migrate_reads`, `Held.sync_reads`: if the store has a table, migrating it over such a
  connection succeeds, and so does a call with models that are stored already, and neither changes
  what is read.
* `Held.aware_use`: who used a store and left it a table knows of the table, so migrating succeeds
  the next time.
-/

namespace Schemata

/-- A connection that the lock of another does not keep from reading. -/
structure Connection.IsSteady (c : Connection) : Prop where
  shared : c.system ≠ .memory
  logging : ∀ names, c.site = .file names → c.isLogging = true

namespace Connection

variable {c d : Connection}

/-- A connection that is like a steady one is steady. -/
theorem IsLike.isSteady (h : c.IsLike d) (hd : d.IsSteady) : c.IsSteady := by
  rw [h.eq]
  exact ⟨hd.shared, hd.logging⟩

theorem IsLike.isAware (h : c.IsLike d) : c.isAware = d.isAware := by rw [h.eq]

/-- A log is not used with a lock beside the file. -/
theorem isDotted_of_isLogging (h : c.isLogging = true) : c.isDotted = false := by
  unfold isLogging at h
  unfold isDotted
  cases hsystem : c.system <;> simp_all

end Connection

namespace Workspace

variable {w w' : Workspace} {site : Site} {number other : Nat} {t : Table}

/-! ### A connection that stays -/

/-- The connection of a number is open and has a property. -/
def Has (number : Nat) (G : Connection → Prop) (w : Workspace) : Prop :=
  ∃ c, w.connection? number = some c ∧ G c

/-- A connection that is changed in place is there still. -/
theorem Has.adjust {G H : Connection → Prop} (h : Has number G w)
    (p : Nat × Connection → Prop) [DecidablePred p] {f : Connection → Connection}
    (hf : ∀ c, G c → H (f c)) (hG : ∀ c, G c → H c) : Has number H (w.adjust p f) := by
  obtain ⟨c, hc, hG'⟩ := h
  refine ⟨if p (number, c) then f c else c, by rw [connection?_adjust, hc]; rfl, ?_⟩
  split
  · exact hf c hG'
  · exact hG c hG'

/-- A connection stays open, with what connections that are like it have in common. -/
theorem stable_has (site : Site) (number : Nat) {G : Connection → Prop}
    (hG : ∀ c d : Connection, c.IsLike d → G d → G c) : Stable site (Has number G) where
  adjust p _ _ hf h := h.adjust p (fun c => hG _ c (hf c)) fun _ => id
  apart _ _ h := h
  spare _ h := h
  put _ _ _ _ h := h
  delete _ _ h := h

/-- It stays open when another store is opened. -/
theorem openable_has (site : Site) (number : Nat) {G : Connection → Prop}
    (hG : ∀ c d : Connection, c.IsLike d → G d → G c) (A : List String → Prop) :
    Openable site A (Has number G) where
  toStable := stable_has site number hG
  attach _ h := by
    obtain ⟨c, hc, hG⟩ := h
    refine ⟨c, ?_, hG⟩
    unfold connection? attach at *
    rw [List.lookup_append, hc, Option.some_or]
  directory _ _ h := h
  plain _ _ _ h := h
  logged {_ v} _ _ h := by cases site <;> exact h

/-- It stays open when another connection is closed. -/
theorem closable_has (site : Site) (hne : other ≠ number) {G : Connection → Prop}
    (hG : ∀ c d : Connection, c.IsLike d → G d → G c) : Closable site other (Has number G) where
  toStable := stable_has site number hG
  filter {w} h := by
    obtain ⟨c, hc, hG⟩ := h
    refine ⟨c, ?_, hG⟩
    unfold connection? at *
    dsimp only
    rw [← hc]
    clear hc
    induction w.connections with
    | nil => rfl
    | cons e rest ih =>
        rw [List.lookup_cons]
        by_cases he : e.1 = other
        · have hnumber : (number == e.1) = false := by
            rw [he]
            exact beq_eq_false_iff_ne.mpr (Ne.symm hne)
          rw [List.filter_cons_of_neg (by simpa using he), ih, hnumber]
        · rw [List.filter_cons_of_pos (by simpa using he), List.lookup_cons, ih]
  settle {w} h := by cases site <;> exact h

/-- A steady connection stays steady. -/
theorem writable_steady (site : Site) (number : Nat) :
    Writable site (Has number Connection.IsSteady) where
  toStable := stable_has site number fun _ _ => Connection.IsLike.isSteady
  inform p _ _ h := h.adjust p (fun _ hc => ⟨hc.shared, hc.logging⟩) fun _ => id
  volume {_ v} _ h := by cases site <;> exact h

/-! ### The numbers of connections -/

/-- Every connection has a number that was given out. -/
def IsNumbered (w : Workspace) : Prop := ∀ e ∈ w.connections, e.1 < w.opened

/-- Connections that are changed in place keep their numbers. -/
theorem IsNumbered.adjust (h : w.IsNumbered) (p : Nat × Connection → Prop) [DecidablePred p]
    (f : Connection → Connection) : (w.adjust p f).IsNumbered := by
  intro e he
  obtain ⟨d, hd, rfl⟩ := List.mem_map.mp he
  split
  · exact h d hd
  · exact h d hd

/-- Connections keep their numbers. -/
theorem stable_isNumbered (site : Site) : Stable site IsNumbered where
  adjust p _ _ _ h := h.adjust p _
  apart _ _ h := h
  spare _ h := h
  put _ _ _ _ h := h
  delete _ _ h := h

theorem writable_isNumbered (site : Site) : Writable site IsNumbered where
  toStable := stable_isNumbered site
  inform p _ _ h := h.adjust p _
  volume _ h := by cases site <;> exact h

/-- They keep them when one of them goes. -/
theorem closable_isNumbered (site : Site) (number : Nat) : Closable site number IsNumbered where
  toStable := stable_isNumbered site
  filter h _ he := h _ (List.mem_filter.mp he).1
  settle h := by cases site <;> exact h

/-- One that comes gets a number of its own. -/
theorem openable_isNumbered (site : Site) (A : List String → Prop) :
    Openable site A IsNumbered where
  toStable := stable_isNumbered site
  attach {w _} _ h e he := by
    rcases List.mem_append.mp he with he | he
    · exact Nat.lt_succ_of_lt (h e he)
    · exact List.mem_singleton.mp he ▸ Nat.lt_succ_self w.opened
  directory _ _ h := h
  plain _ _ _ h := h
  logged _ _ h := by cases site <;> exact h

/-! ### What keeps a connection from reading -/

/-- **A steady connection to a tidy store can read it**, whatever others hold. -/
theorem seal?_eq_none (htidy : w.files.IsTidy site)
    {c : Connection} (hc : c.Leads site) (hsteady : c.IsSteady) : w.seal? number c = none := by
  have hshared : (w.others number c).any c.isShutOutBy = false := by
    simp [List.any_eq_false, Connection.isShutOutBy, hsteady.shared]
  unfold seal?
  rw [hc.live, hshared, hc.site]
  cases hs : site with
  | own => rfl
  | apart n => rfl
  | file names =>
      have hlogging := hsteady.logging names (hc.site.trans hs)
      have hat := htidy names hs
      have hopen : w.hasOpenJournal names = false := hat.hasOpenJournal
      simp [hlogging, Connection.isDotted_of_isLogging hlogging, unentered?, hasDirectory,
        hat.journal, hat.log, hopen]

/-- A tidy store has a table, and a connection to it is steady. -/
structure Reads (site : Site) (number : Nat) (t : Table) (w : Workspace) : Prop where
  table : HasTable site (some t) w
  tidy : w.files.IsTidy site
  steady : Has number Connection.IsSteady w

/-- What a connection reads stays as long as nothing is written. -/
theorem usable_reads (site : Site) (number : Nat) (t : Table) :
    Usable site (Reads site number t) := by
  have heq : Reads site number t = fun w => HasTable site (some t) w ∧
      w.files.IsTidy site ∧ Has number Connection.IsSteady w :=
    funext fun w => propext ⟨fun h => ⟨h.table, h.tidy, h.steady⟩, fun h => ⟨h.1, h.2.1, h.2.2⟩⟩
  rw [heq]
  exact (usable_hasTable site (some t)).and
    ((lasting_isTidy site).writable.toUsable.and (writable_steady site number).toUsable)

namespace Held

/-- What a steady connection sees is the table, which can be read. -/
theorem store_reads (h : Held site (Reads site number t) w) :
    (w.store number).table = some t ∧ (w.store number).seal? = none := by
  obtain ⟨c, hc, hsteady⟩ := h.holds.steady
  have hshows : w.Shows site (some t) := ⟨h.leads, h.holds.table⟩
  refine ⟨hshows.store_table hc, ?_⟩
  have hnone : w.seal? number c = none :=
    seal?_eq_none h.holds.tidy (h.leads.connection? hc) hsteady
  have hbarrier : w.barrier? number c = none ∨ w.barrier? number c = some .readOnly ∨
      w.barrier? number c = some .lock := by
    unfold barrier?
    rw [hnone]
    dsimp only
    split
    · exact .inr (.inl rfl)
    · split
      · exact .inr (.inr rfl)
      · exact .inl rfl
  rcases hbarrier with hb | hb | hb
  · simp [store, Store.seal?, hc, hb]
  · simp [store, Store.seal?, hc, hb, Barrier.seal?]
  · simp [store, Store.seal?, hc, hb, Barrier.seal?]

/-- Using a store without changing it changes nothing that is read. -/
theorem use_reads {α : Type} (h : Held site (Reads site number t) w) (f : Store → α × Store) {a : α}
    (hf : ∀ s : Store, s.table = some t → s.seal? = none → f s = (a, s)) :
    (w.use number f).1 = a ∧ Held site (Reads site number t) (w.use number f).2 := by
  have hreads := usable_reads site number t
  have hlook := h.look hreads number
  obtain ⟨htable, hseal⟩ := hlook.store_reads
  have hfs := hf _ htable hseal
  have hset : (w.look number).setStore number ((w.look number).store number) = w.look number := by
    unfold Workspace.setStore
    exact if_pos (by simp [Volume.isSame])
  have huse : w.use number f = ((f ((w.look number).store number)).1,
      ((w.look number).setStore number (f ((w.look number).store number)).2).look number) := rfl
  rw [huse, hfs, hset]
  exact ⟨rfl, hlook.look hreads number⟩

/-- **A table that is there need not be made**, so migrating succeeds without writing. -/
theorem migrate_reads (h : Held site (Reads site number t) w)
    (haware : Has number (·.isAware = true) w) :
    (w.migrate number).1 = .ok () ∧ Held site (Reads site number t) (w.migrate number).2 := by
  obtain ⟨c, hc, hc'⟩ := haware
  have huse : w.migrate number = w.use number Store.migrate := by
    simp [Workspace.migrate, hc, hc']
  rw [huse]
  exact h.use_reads Store.migrate fun s ht hseal => by simp [Store.migrate, hseal, ht]

/-- **What is stored already need not be written**, so such a call succeeds without writing. -/
theorem sync_reads (h : Held site (Reads site number t) w) (now : Instant) {models : List Model}
    (hheld : ∀ m ∈ models, t.Holds m) :
    (w.sync number now models).1 = .ok { unchanged := models.map Model.name } ∧
      Held site (Reads site number t) (w.sync number now models).2 := by
  unfold Workspace.sync
  split
  · next hempty =>
      obtain rfl := List.isEmpty_iff.mp hempty
      exact ⟨rfl, h⟩
  · exact h.use_reads (·.sync now models) fun s ht hseal => Store.sync_of_holds hseal ht hheld

/-- Who looks at a store with a table that can be read knows of the table. -/
theorem aware_look (h : Held site (Reads site number t) w) :
    Has number (·.isAware = true) (w.look number) := by
  have hreads := usable_reads site number t
  have henter := h.enter hreads.toStable number
  obtain ⟨c, hc, -⟩ := h.holds.steady
  obtain ⟨c', hc', hsteady⟩ := henter.holds.steady
  have hnone : (w.enter number).seal? number c' = none :=
    seal?_eq_none henter.holds.tidy (henter.leads.connection? hc') hsteady
  have htable : (w.volumeAt c.site).table = some t := by
    rw [(h.leads.connection? hc).site]
    exact h.holds.table
  unfold Workspace.look
  simp only [hc, hc', Option.bind_some, hnone, htable, Option.isSome_none, Option.isSome_some,
    Bool.false_eq_true, if_false]
  rcases modifyShared_cases (w.enter number) number ({ · with isAware := true }) with
    ⟨hmissing, -⟩ | ⟨d, he⟩
  · nomatch hmissing.symm.trans hc'
  · rw [he]
    refine ⟨{ c' with isAware := true }, ?_, rfl⟩
    rw [connection?_adjust, hc']
    simp

/-- Who used a store and left it a table knows of the table. -/
theorem aware_use {α : Type}
    (h : Held site (fun w => w.files.IsTidy site ∧ Has number Connection.IsSteady w) w)
    (f : Store → α × Store) (ht : HasTable site (some t) (w.use number f).2) :
    Has number (·.isAware = true) (w.use number f).2 := by
  have hwritable := (lasting_isTidy site).writable.and (writable_steady site number)
  have hset := (h.look hwritable.toUsable number).setStore hwritable number
    (f ((w.look number).store number)).2
  -- the last that is done is to look, which leaves the table as it was
  have htable : HasTable site (some t)
      ((w.look number).setStore number (f ((w.look number).store number)).2) := by
    rw [← ht]
    exact (Shows.look ⟨hset.leads, rfl⟩ number).holds.symm
  exact aware_look ⟨hset.leads, htable, hset.holds.1, hset.holds.2⟩

/-- A store with a table that was opened over a steady connection that knows of the table need not
be given one. -/
theorem openMigrated_reads {a : Address} (hopen : (w.openStore a).1 = .ok number)
    (h : Held site (Reads site number t) (w.openStore a).2)
    (haware : Has number (·.isAware = true) (w.openStore a).2) :
    (w.openMigrated a).1 = .ok number ∧
      Held site (Reads site number t) (w.openMigrated a).2 := by
  obtain ⟨hmigrate, hreads⟩ := h.migrate_reads haware
  have hw : w.openMigrated a = (.ok number, ((w.openStore a).2.migrate number).2) := by
    unfold openMigrated
    split
    · next he => rw [he] at hopen; nomatch hopen
    · next he =>
        rw [he] at hopen hmigrate ⊢
        obtain rfl := Except.ok.inj hopen
        split
        · next hm => rw [hm]
        · next hm => rw [hm] at hmigrate; nomatch hmigrate
  rw [hw]
  exact ⟨rfl, hreads⟩

end Held

end Workspace

end Schemata

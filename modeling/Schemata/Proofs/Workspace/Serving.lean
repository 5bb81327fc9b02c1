import Schemata.Proofs.Store.Ledger
import Schemata.Proofs.Workspace.Opening

/-!
# Schemata — Proofs — Workspace — Serving

A workspace *serves* a table at a site when the store there has the table and every connection
leads to that store and sees it as it is; of a store that may have no table yet it *shows* what
there is.  Whatever is done through a connection or around one keeps this but a call that writes:
what is done with a store through a connection is done with the table that is shown, and what it
becomes is shown afterwards.

* `Workspace.Shows`, `Workspace.Serves`: the properties.
* `Shows.use`: what using a store does to what is shown.
* `Serves.sync`: a call either fails and leaves the table alone, or replays its entries.
* `Serves.openMigrated`, `Serves.lock`: the store may be opened, given its table and locked.
-/

namespace Schemata

/-- A table is its rows. -/
theorem Table.rows_injective {t t' : Table} (h : t.rows = t'.rows) : t = t' := by
  cases t
  cases t'
  congr

namespace Workspace

/-- The store at a site has the table that is given, or has none, and every connection leads
there. -/
abbrev Shows (w : Workspace) (site : Site) (o : Option Table) : Prop :=
  Held site (HasTable site o) w

/-- The store at a site has a table, and every connection leads there. -/
structure Serves (w : Workspace) (site : Site) (t : Table) : Prop where
  table : (w.volumeAt site).table = some t
  leads : ∀ e ∈ w.connections, e.2.Leads site

namespace Shows

variable {w w' : Workspace} {site : Site} {o : Option Table} {a : Address}

/-- A store shows the same when a connection begins to use its log. -/
theorem enter (h : w.Shows site o) (number : Nat) : (w.enter number).Shows site o :=
  Held.enter (stable_hasTable site o) h number

/-- It shows the same when a connection looks at it. -/
theorem look (h : w.Shows site o) (number : Nat) : (w.look number).Shows site o :=
  Held.look (usable_hasTable site o) h number

/-- It shows the same when a connection is closed. -/
theorem close (h : w.Shows site o) (number : Nat) : (w.close number).Shows site o :=
  Held.close (closable_hasTable site number o) h

/-- It shows the same when it is opened once more. -/
theorem openStore (h : w.Shows site o) (ha : a.LeadsTo site) : (w.openStore a).2.Shows site o :=
  Held.openStore (openable_hasTable site (fun _ => True) o) h ha fun _ _ => trivial

/-- It shows the same when someone locks it. -/
theorem lock (h : w.Shows site o) (ha : a.LeadsTo site) : (w.lock a).2.Shows site o :=
  Held.lock (openable_hasTable site (fun _ => True) o) h ha fun _ _ => trivial

/-! ### Using a store -/

/-- A connection sees the table that is shown. -/
theorem store_table (h : w.Shows site o) {number : Nat} {c : Connection}
    (hc : w.connection? number = some c) : (w.store number).table = o := by
  obtain ⟨hsite, hlive⟩ := h.leads.connection? hc
  have htable : (w.volumeAt site).table = o := h.holds
  simp only [store, hc, hlive, hsite, Option.getD_none, htable]

/-- What is written is there afterwards, unless there is no place for it and no table. -/
theorem setStore (h : w.Shows site o) (number : Nat) (s : Store) {c : Connection}
    (hc : w.connection? number = some c) :
    ∃ o', (w.setStore number s).Shows site o' ∧ (o' = s.table ∨ o = none ∧ o' = none) := by
  have hsite := (h.leads.connection? hc).site
  unfold Workspace.setStore
  split
  -- a store whose rows are the same is not written
  · next hsame =>
      refine ⟨o, h, .inl ?_⟩
      rw [Volume.isSame, h.store_table hc, decide_eq_true_eq] at hsame
      exact (Option.map_injective (fun _ _ => Table.rows_injective) hsame).symm
  · subst hsite
    obtain ⟨o', hw, ho'⟩ : ∃ o',
        (w.setVolumeAt c.site ((w.volumeAt c.site).write s.table)).Shows c.site o' ∧
          (o' = s.table ∨ o = none ∧ o' = none) := by
      refine ⟨_, ⟨h.leads.setVolumeAt _, rfl⟩, ?_⟩
      cases o with
      | some t => exact .inl (by rw [volumeAt_setVolumeAt h.holds, Volume.table_write])
      | none =>
          rcases volumeAt_setVolumeAt_cases w c.site ((w.volumeAt c.site).write s.table) with
            hput | hkept
          · exact .inl (by rw [hput, Volume.table_write])
          · exact .inr ⟨rfl, by rw [hkept]; exact h.holds⟩
    refine ⟨o', ?_, ho'⟩
    simp only [hc]
    split
    · next names hn =>
        rw [hn] at hw ⊢
        have hstable := stable_hasTable (.file names) o'
        split
        · next hlog =>
            exact Held.putFile hstable hw .log nofun (fun _ => logsAt_write hlog s.table) _
        · exact Held.sweep hstable hw .journal
    · exact hw

/-- What is done with a store through a connection is done with the table that is shown, and what
it becomes is shown afterwards.  Through a connection that is closed nothing is done. -/
theorem use {α : Type} (h : w.Shows site o) (number : Nat) (f : Store → α × Store) :
    (∃ s o', s.table = o ∧ (w.use number f).1 = (f s).1 ∧ (w.use number f).2.Shows site o' ∧
      (o' = (f s).2.table ∨ o = none ∧ o' = none)) ∨
    ((w.use number f).1 = (f {}).1 ∧ (w.use number f).2.Shows site o) := by
  have hlook := h.look number
  cases hc : (w.look number).connection? number with
  -- through a closed connection a store without a table is seen, and nothing is put anywhere
  | none =>
      have hstore : (w.look number).store number = {} := by simp [store, hc]
      refine .inr ⟨by rw [Workspace.use, hstore], ?_⟩
      have hset : ∀ s, (w.look number).setStore number s = w.look number := by
        intro s
        simp [Workspace.setStore, hc]
      change ((w.look number).setStore number _ |>.look number).Shows site o
      rw [hset]
      exact hlook.look number
  | some c =>
      obtain ⟨o', hset, ho'⟩ := hlook.setStore number (f ((w.look number).store number)).2 hc
      exact .inl ⟨(w.look number).store number, o', hlook.store_table hc, rfl,
        hset.look number, ho'⟩

end Shows

/-! ### What is done with a table -/

/-- A store that serves a table shows it. -/
theorem Serves.shows {w : Workspace} {site : Site} {t : Table} (h : w.Serves site t) :
    w.Shows site (some t) :=
  ⟨h.leads, h.table⟩

/-- A store that shows a table serves it. -/
theorem Shows.serves {w : Workspace} {site : Site} {t : Table} (h : w.Shows site (some t)) :
    w.Serves site t :=
  ⟨h.holds, h.leads⟩

namespace Serves

variable {w w' : Workspace} {site : Site} {t : Table} {a : Address}

theorem ite {p : Prop} [Decidable p] (h : w.Serves site t) (h' : w'.Serves site t) :
    (if p then w else w').Serves site t :=
  Shows.serves (h.shows.ite h'.shows)

/-- A store serves the same when a connection is closed. -/
theorem close (h : w.Serves site t) (number : Nat) : (w.close number).Serves site t :=
  (h.shows.close number).serves

/-- What is done with a store through a connection is done with the table that is served, and what
it becomes is served afterwards.  Through a connection that is closed nothing is done. -/
theorem use {α : Type} (h : w.Serves site t) (number : Nat) (f : Store → α × Store)
    (hf : ∀ s : Store, s.table = some t → ∃ t', (f s).2.table = some t') :
    (∃ s t', s.table = some t ∧ (f s).2.table = some t' ∧
      (w.use number f).1 = (f s).1 ∧ (w.use number f).2.Serves site t') ∨
    ((w.use number f).1 = (f {}).1 ∧ (w.use number f).2.Serves site t) := by
  rcases h.shows.use number f with ⟨s, o', hs, hresult, hshows, ho'⟩ | ⟨hresult, hshows⟩
  · obtain ⟨t', ht'⟩ := hf s hs
    obtain rfl : o' = some t' := (ho'.resolve_right nofun).trans ht'
    exact .inl ⟨s, t', hs, ht', hresult, hshows.serves⟩
  · exact .inr ⟨hresult, hshows.serves⟩

/-! ### What is done with a store -/

theorem migrate (h : w.Serves site t) (number : Nat) : (w.migrate number).2.Serves site t := by
  rcases migrate_cases w number with hnone | henter | huse
  · rwa [hnone]
  · rw [henter]
    exact (h.shows.enter number).serves
  -- where there is a table migrating changes nothing
  · have hf : ∀ s : Store, s.table = some t → s.migrate.2 = s := by
      intro s hs
      cases hseal : s.seal? <;> simp [Store.migrate, hseal, hs]
    rw [huse]
    rcases h.use number Store.migrate (fun s hs => ⟨t, by rw [hf s hs, hs]⟩) with
      ⟨s, t', hs, ht', -, hserves⟩ | ⟨-, hserves⟩
    · rw [hf s hs, hs] at ht'
      exact Option.some.inj ht' ▸ hserves
    · exact hserves

/-- A call through a connection fails and leaves the table alone, or replays its entries. -/
theorem sync (h : w.Serves site t) (number : Nat) (now : Instant) (models : List Model) :
    ((∃ e, (w.sync number now models).1 = .error e) ∧ (w.sync number now models).2.Serves site t) ∨
    ∃ t', (w.sync number now models).1 = .ok (.ofEntries (t.entries now.text models)) ∧
      (t.entries now.text models).map Entry.model = models ∧
      t.Replays (t.entries now.text models) t' ∧
      (w.sync number now models).2.Serves site t' := by
  by_cases hempty : models = []
  · subst hempty
    exact .inr ⟨t, rfl, rfl, .nil, h⟩
  have hsync : w.sync number now models = w.use number (·.sync now models) := by
    simp [Workspace.sync, hempty]
  rw [hsync]
  have hf : ∀ s : Store, s.table = some t → ∃ t', (s.sync now models).2.table = some t' := by
    intro s hs
    cases hr : (s.sync now models).1 with
    | error e => exact ⟨t, by rw [Store.sync_of_error hr, hs]⟩
    | ok report =>
        have hpair : s.sync now models = (.ok report, (s.sync now models).2) := Prod.ext hr rfl
        obtain ⟨t', hs', -⟩ := Store.replays_of_sync hs hpair
        exact ⟨t', by rw [hs']⟩
  rcases h.use number (·.sync now models) hf with ⟨s, t', hs, ht', hresult, hserves⟩ |
    ⟨hresult, hserves⟩
  · rw [hresult]
    cases hr : (s.sync now models).1 with
    | error e =>
        rw [Store.sync_of_error hr, hs] at ht'
        exact .inl ⟨⟨e, rfl⟩, Option.some.inj ht' ▸ hserves⟩
    | ok report =>
        have hpair : s.sync now models = (.ok report, (s.sync now models).2) := Prod.ext hr rfl
        obtain ⟨t'', hs', hreplays, hmodels, hreport⟩ := Store.replays_of_sync hs hpair
        rw [hs'] at ht'
        obtain rfl := Option.some.inj ht'
        exact .inr ⟨t'', by rw [hreport], hmodels, hreplays, hserves⟩
  · exact .inl ⟨⟨.noTable, by rw [hresult, Store.sync_of_empty now hempty]⟩, hserves⟩

/-- A call with models that are all stored already leaves the table alone in any case. -/
theorem sync_of_holds (h : w.Serves site t) (number : Nat) (now : Instant) {models : List Model}
    (hheld : ∀ m ∈ models, t.Holds m) :
    (w.sync number now models).2.Serves site t ∧
      ((w.sync number now models).1 = .ok { unchanged := models.map Model.name } ∨
        ∃ e, (w.sync number now models).1 = .error e) := by
  have hf : ∀ s : Store, s.table = some t → (s.sync now models).2 = s ∧
      ((s.sync now models).1 = .ok { unchanged := models.map Model.name } ∨
        ∃ e, (s.sync now models).1 = .error e) := by
    intro s hs
    rcases Store.sync_of_holds_cases hs now hheld with hok | ⟨e, he⟩
    · exact ⟨by rw [hok], .inl (by rw [hok])⟩
    · exact ⟨by rw [he], .inr ⟨e, by rw [he]⟩⟩
  by_cases hempty : models = []
  · subst hempty
    exact ⟨h, .inl rfl⟩
  have hsync : w.sync number now models = w.use number (·.sync now models) := by
    simp [Workspace.sync, hempty]
  rw [hsync]
  rcases h.use number (·.sync now models) (fun s hs => ⟨t, by rw [(hf s hs).1, hs]⟩) with
    ⟨s, t', hs, ht', hresult, hserves⟩ | ⟨hresult, hserves⟩
  · rw [(hf s hs).1, hs] at ht'
    exact ⟨Option.some.inj ht' ▸ hserves, hresult ▸ (hf s hs).2⟩
  · exact ⟨hserves, .inr ⟨.noTable, by rw [hresult, Store.sync_of_empty now hempty]⟩⟩

/-- A store that is opened once more and migrated serves the table that it had. -/
theorem openMigrated (h : w.Serves site t) (ha : a.LeadsTo site) :
    (w.openMigrated a).2.Serves site t :=
  openMigrated_induction (P := fun w => w.Serves site t) (h.shows.openStore ha).serves
    (fun _ number h => h.migrate number) fun _ number h => h.close number

/-- It serves the same when someone locks it. -/
theorem lock (h : w.Serves site t) (ha : a.LeadsTo site) : (w.lock a).2.Serves site t :=
  (h.shows.lock ha).serves

/-- A store serves the same when it is unlocked. -/
theorem unlock (h : w.Serves site t) (holder : Option Nat) : (w.unlock holder).Serves site t := by
  cases holder with
  | none => exact h
  | some number => exact h.close number

end Serves

/-- A session that synchronizes through a connection makes a call with what it has registered. -/
theorem synchronize_eq (w : Workspace) (number : Nat) (session : Session) (now : Instant) :
    w.synchronize number session now =
      ((w.sync number now session.pending).1.mapError .ofSyncing, {},
        (w.sync number now session.pending).2) := by
  unfold Workspace.synchronize Workspace.sync
  split
  · rfl
  · rfl

end Workspace

end Schemata

import Schemata.Proofs.Session
import Schemata.Proofs.Workspace.Serving

/-!
# Schemata — Proofs — Workspace — Offering

A store that has no table has no rows.  A workspace *offers* the rows of a table at a site when the
store there has that table, or when it has none and neither has the table any rows.  Opening a store
and giving it its table keeps the rows that are offered (`Offers.openMigrated`), and so does a call
that fails; one that succeeds replays its entries (`Offers.sync`).
-/

namespace Schemata

/-- A table that is made has no rows. -/
theorem Store.getD_migrate (s : Store) : s.migrate.2.table.getD .empty = s.table.getD .empty := by
  unfold migrate
  split
  · rfl
  · rfl
  · rfl
  · next hnone _ => simp [hnone]

namespace Workspace

/-- The store at a site has the rows of a table, and every connection leads there. -/
structure Offers (w : Workspace) (site : Site) (t : Table) : Prop where
  rows : (w.volumeAt site).table.getD .empty = t
  leads : ∀ e ∈ w.connections, e.2.Leads site

variable {w w' : Workspace} {site : Site} {o : Option Table} {t : Table} {a : Address}

/-- A store that shows a table, or none, offers the rows that are there. -/
theorem Shows.offers (h : w.Shows site o) (ho : o.getD .empty = t) : w.Offers site t :=
  ⟨by rw [h.holds, ho], h.leads⟩

theorem Serves.offers (h : w.Serves site t) : w.Offers site t := h.shows.offers rfl

/-- Where there is no table, there is nothing to write to. -/
theorem Shows.sync_of_none (h : w.Shows site none) (number : Nat) (now : Instant)
    {models : List Model} (hne : models ≠ []) :
    (∃ e, (w.sync number now models).1 = .error e) ∧
      (w.sync number now models).2.Shows site none := by
  have hsync : w.sync number now models = w.use number (·.sync now models) := by
    simp [Workspace.sync, hne]
  have hfails : ∀ s : Store, s.table = none → ∃ e, s.sync now models = (.error e, s) := by
    intro s hs
    cases hr : (s.sync now models).1 with
    | error e => exact ⟨e, Prod.ext hr (Store.sync_of_error hr)⟩
    | ok report =>
        obtain ⟨u, hu⟩ := Session.table_of_sync_ok hne (Prod.ext hr rfl)
        cases hs.symm.trans hu
  rw [hsync]
  rcases h.use number (·.sync now models) with ⟨s, o', hs, hresult, hshows, ho'⟩ | ⟨hresult, hshows⟩
  · obtain ⟨e, he⟩ := hfails s hs
    have ho' : o' = none := ho'.elim (fun h => by rw [h, he, hs]) And.right
    exact ⟨⟨e, by rw [hresult, he]⟩, ho' ▸ hshows⟩
  · obtain ⟨e, he⟩ := hfails {} rfl
    exact ⟨⟨e, by rw [hresult, he]⟩, hshows⟩

namespace Offers

/-- A store that offers rows shows a table that has them, or none. -/
theorem exists_shows (h : w.Offers site t) :
    ∃ o : Option Table, w.Shows site o ∧ o.getD .empty = t :=
  ⟨_, ⟨h.leads, rfl⟩, h.rows⟩

/-- What keeps whatever is shown of a store keeps its rows. -/
theorem of_shows (h : w.Offers site t) (hshows : ∀ o, w.Shows site o → w'.Shows site o) :
    w'.Offers site t := by
  obtain ⟨o, ho, hrows⟩ := h.exists_shows
  exact (hshows o ho).offers hrows

/-- The rows are offered when the store is opened once more. -/
theorem openStore (h : w.Offers site t) (ha : a.LeadsTo site) : (w.openStore a).2.Offers site t :=
  h.of_shows fun _ ho => ho.openStore ha

/-- They are offered when a connection is closed. -/
theorem close (h : w.Offers site t) (number : Nat) : (w.close number).Offers site t :=
  h.of_shows fun _ ho => ho.close number

/-- They are offered when the store is given its table. -/
theorem migrate (h : w.Offers site t) (number : Nat) : (w.migrate number).2.Offers site t := by
  obtain ⟨o, ho, hrows⟩ := h.exists_shows
  rcases migrate_cases w number with hnone | henter | huse
  · rwa [hnone]
  · rw [henter]
    exact (ho.enter number).offers hrows
  · rw [huse]
    rcases ho.use number Store.migrate with ⟨s, o', hs, -, hshows, ho'⟩ | ⟨-, hshows⟩
    · refine hshows.offers ?_
      rcases ho' with rfl | ⟨rfl, rfl⟩
      · rw [Store.getD_migrate, hs, hrows]
      · exact hrows
    · exact hshows.offers hrows

/-- They are offered when the store is opened and given its table. -/
theorem openMigrated (h : w.Offers site t) (ha : a.LeadsTo site) :
    (w.openMigrated a).2.Offers site t :=
  openMigrated_induction (P := fun w => w.Offers site t) (h.openStore ha)
    (fun _ number h => h.migrate number) fun _ number h => h.close number

/-- A call through a connection fails and leaves the rows alone, or replays its entries.  Where
there is no table it fails, unless there is nothing to write. -/
theorem sync (h : w.Offers site t) (number : Nat) (now : Instant) (models : List Model) :
    ((∃ e, (w.sync number now models).1 = .error e) ∧ (w.sync number now models).2.Offers site t) ∨
    ∃ t', (w.sync number now models).1 = .ok (.ofEntries (t.entries now.text models)) ∧
      (t.entries now.text models).map Entry.model = models ∧
      t.Replays (t.entries now.text models) t' ∧
      (w.sync number now models).2.Offers site t' := by
  obtain ⟨o, ho, hrows⟩ := h.exists_shows
  cases o with
  | some u =>
      obtain rfl : u = t := hrows
      rcases ho.serves.sync number now models with
        ⟨he, hserves⟩ | ⟨t', hok, hmodels, hreplays, hserves⟩
      · exact .inl ⟨he, hserves.offers⟩
      · exact .inr ⟨t', hok, hmodels, hreplays, hserves.offers⟩
  | none =>
      by_cases hempty : models = []
      · subst hempty
        exact .inr ⟨t, rfl, rfl, .nil, h⟩
      · obtain ⟨he, hshows⟩ := ho.sync_of_none number now hempty
        exact .inl ⟨he, hshows.offers hrows⟩

end Offers

end Workspace

end Schemata

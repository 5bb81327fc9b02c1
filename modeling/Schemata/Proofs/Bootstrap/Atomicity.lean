import Schemata.Proofs.Bootstrap.Retrying
import Schemata.Proofs.Session.Registering
import Schemata.Proofs.Workspace.Offering

/-!
# Schemata — Proofs — Bootstrap — Atomicity

A bootstrap writes all of its models or none.  It goes through attempts to connect, each of which
may make the table of the store, through loading, registering and synchronizing, and every phase may
fail.  None of them changes a row but the last, and that only if it succeeds.

* `Connector.bootstrap_cases`: where a run ends.
* `Workspace.serve_connector`: serving models is one call with what a session holds of them.
* `Workspace.bootstrap_all_or_nothing`: what a run leaves.
-/

namespace Schemata

namespace Connector

variable {σ κ : Type}

/-- A run that connects and loads its models goes on to serve them. -/
theorem bootstrap_of_ok {c : Connector σ κ} {policy : RetryPolicy}
    {load : κ → σ → Except LoadError (List Model)} {s : σ} {k : κ} {models : List Model}
    (hconnect : (c.connectFrom policy 0 s).result = .ok k)
    (hload : load k (c.connectFrom policy 0 s).state = .ok models) :
    c.bootstrap policy load s = (c.serve models k (c.connectFrom policy 0 s).state).after
      (c.connectFrom policy 0 s).events := by
  simp only [bootstrap, hconnect, hload]

/-- A run ends where connecting fails, or loading, or with how the models are served. -/
theorem bootstrap_cases (c : Connector σ κ) (policy : RetryPolicy)
    (load : κ → σ → Except LoadError (List Model)) (s : σ) :
    let r := c.bootstrap policy load s
    let connection := c.connectFrom policy 0 s
    ((∃ e, r.result = .error e) ∧ r.state = connection.state) ∨
    ∃ k models, connection.result = .ok k ∧ load k connection.state = .ok models ∧
      r.result = (c.serve models k connection.state).result ∧
      r.state = (c.serve models k connection.state).state := by
  intro r connection
  cases hconnect : connection.result with
  | error e =>
      have hr : r = { connection with result := .error e } := by
        simp only [r, bootstrap, connection] at hconnect ⊢
        rw [hconnect]
      exact .inl ⟨⟨e, by rw [hr]⟩, by rw [hr]⟩
  | ok k =>
      cases hload : load k connection.state with
      | error e =>
          have hr : r = ⟨.error (.load e), connection.events, connection.state⟩ := by
            simp only [r, bootstrap, connection] at hconnect hload ⊢
            simp only [hconnect, hload]
          exact .inl ⟨⟨.load e, by rw [hr]⟩, by rw [hr]⟩
      | ok models =>
          have hr : r = (c.serve models k connection.state).after connection.events :=
            bootstrap_of_ok hconnect hload
          exact .inr ⟨k, models, rfl, hload, by rw [hr]; rfl, by rw [hr]; rfl⟩

end Connector

/-- A target leads to a site: an address that does, or any connection that is open already. -/
def Target.LeadsTo : Target → Site → Prop
  | .address a, site  => a.LeadsTo site
  | .connection _, _  => True

namespace Workspace

variable {w : Workspace} {site : Site} {t : Table} {target : Target}

theorem Offers.connectTo (h : w.Offers site t) (ht : target.LeadsTo site) :
    (w.connectTo target).2.Offers site t := by
  cases target with
  | address a => exact h.openMigrated ht
  | connection number => exact h.migrate number

/-- A connector hands out the connection that is made, with a session that holds nothing. -/
theorem connect_connector_eq_ok_iff {now : Instant} {k : Nat × Session} :
    ((connector target now).connect w).1 = .ok k ↔
      ∃ number, (w.connectTo target).1 = .ok number ∧ k = (number, {}) := by
  change (w.connectTo target).1.map (·, {}) = .ok k ↔ _
  cases (w.connectTo target).1 <;> simp [Except.map, eq_comm]

/-- What every attempt to connect keeps is kept by all of them, and they give a session that nothing
is registered with. -/
theorem connectFrom_keeps {P : Workspace → Prop} (hP : ∀ w, P w → P (w.connectTo target).2)
    (hw : P w) (now : Instant) (policy : RetryPolicy) :
    let connection := (connector target now).connectFrom policy 0 w
    P connection.state ∧ ∀ k, connection.result = .ok k → k.2 = {} := by
  refine Connector.connectFrom_induction (c := connector target now) (Q := fun k _ => k.2 = {}) hP
    (fun w k _ hk => ?_) 0 hw
  obtain ⟨number, -, rfl⟩ := connect_connector_eq_ok_iff.mp hk
  rfl

theorem registerAll_connector (target : Target) (now : Instant) (models : List Model)
    (k : Nat × Session) (w : Workspace) :
    let r := (connector target now).registerAll models k w
    r.result = .ok (k.1, models.foldl Session.register k.2) ∧ r.state = w := by
  induction models generalizing k with
  | nil => exact ⟨rfl, rfl⟩
  | cons m rest ih => exact ih (k.1, k.2.register m)

theorem finish_connector (target : Target) (now : Instant) (names : List String) (number : Nat)
    (session : Session) (w : Workspace) :
    let r := (connector target now).finish names (number, session) w
    let call := w.sync number now session.pending
    r.state = call.2 ∧
      r.result = (call.1.map fun report =>
        ⟨(number, {}), names, some report⟩).mapError fun e => .session (.ofSyncing e) := by
  simp only [Connector.finish, connector, synchronize_eq]
  cases (w.sync number now session.pending).1 <;> exact ⟨rfl, rfl⟩

/-- **Models are served by one call** with what a session holds of them. -/
theorem serve_connector (target : Target) (now : Instant) {models : List Model}
    (hne : models ≠ []) (number : Nat) (w : Workspace) :
    let r := (connector target now).serve models (number, {}) w
    let call := w.sync number now (Session.registered models).pending
    r.state = call.2 ∧
      r.result = (call.1.map fun report =>
        ⟨(number, {}), models.map Model.name, some report⟩).mapError fun e =>
          .session (.ofSyncing e) := by
  intro r call
  obtain ⟨hregistered, hstate⟩ := registerAll_connector target now models (number, {}) w
  have hr : r = ((connector target now).finish (models.map Model.name)
      (number, Session.registered models) w).after
        ((connector target now).registerAll models (number, {}) w).events := by
    simp only [r, Connector.serve, hregistered, hstate]
    exact if_neg (by simpa using hne)
  rw [hr]
  exact finish_connector target now _ number _ w

/-- What a call with what a session holds leaves: of every name that was registered the text of the
last model, and every other row as it was. -/
theorem replays_registered {models : List Model} {es : List Entry} {t' : Table}
    (hmodels : es.map Entry.model = (Session.registered models).pending)
    (hreplays : t.Replays es t') :
    (∀ name ∈ models.map Model.name, ∃ m row, models.reverse.find? (·.name = name) = some m ∧
      t'.get? name = some row ∧ row.document = .text m.document.text) ∧
    (∀ name ∉ models.map Model.name, t'.get? name = t.get? name) ∧
    (Report.ofEntries es).Itemizes (models.map Model.name).eraseDups := by
  have hnames : es.map (·.model.name) = (models.map Model.name).eraseDups := by
    rw [← Session.names_registered, Session.names, ← hmodels, List.map_map]
    rfl
  refine ⟨fun name hname => ?_, fun name hname => ?_, ?_⟩
  · obtain ⟨n, hn, rfl⟩ := List.mem_map.mp hname
    obtain ⟨m, hm⟩ : ∃ m, models.reverse.find? (·.name = n.name) = some m :=
      Option.isSome_iff_exists.mp (List.find?_isSome.mpr ⟨n, List.mem_reverse.mpr hn, by simp⟩)
    have hname : m.name = n.name := by simpa using List.find?_some hm
    -- the session holds the model once, so it is also the last that it holds of the name
    have hpending : m ∈ (Session.registered models).pending :=
      List.mem_of_find?_eq_some ((Session.find?_registered models n.name).trans hm)
    have hlast := find?_reverse_of_nodup (Session.nodup_registered models) hpending
    obtain ⟨row, hrow, htext⟩ := hreplays.holds_of_last (hmodels ▸ hlast)
    exact ⟨m, row, hm, hname ▸ hrow, htext⟩
  · refine hreplays.get?_of_forall_ne fun e he heq => hname ?_
    rw [← List.mem_eraseDups, ← hnames, ← heq]
    exact List.mem_map_of_mem he
  · rw [← hnames]
    exact Report.itemizes_ofEntries es

/-- **A bootstrap is all or nothing.**  The store at a site has the rows of a table, and a bootstrap
of a target that leads there is run, whatever its retries, its models and where they come from, and
whoever else uses the store.

* If it fails, in whatever phase, the store has the same rows.
* If it is ready with models, they are those of the source, in order; each of their names has a row
  with the text of the last model of the name; every other row is the same; and the report lists
  each name once, in the order in which the names came first. -/
theorem bootstrap_all_or_nothing (w : Workspace) (site : Site) (t : Table) (target : Target)
    (now : Instant) (policy : RetryPolicy) (source : ModelSource) (h : w.Offers site t)
    (ht : target.LeadsTo site) :
    let r := w.bootstrap target now policy source
    (∀ e, r.result = .error e → r.state.Offers site t) ∧
    ∀ ready, r.result = .ok ready → ready.models ≠ [] → ∃ models report t',
      source.load ((connector target now).connectFrom policy 0 w).state.disk = .ok models ∧
      ready.models = models.map Model.name ∧
      ready.report = some report ∧
      r.state.Offers site t' ∧
      (∀ name ∈ ready.models, ∃ m row, models.reverse.find? (·.name = name) = some m ∧
        t'.get? name = some row ∧ row.document = .text m.document.text) ∧
      (∀ name ∉ ready.models, t'.get? name = t.get? name) ∧
      report.Itemizes ready.models.eraseDups := by
  intro r
  obtain ⟨hoffers, hsession⟩ :=
    connectFrom_keeps (P := (·.Offers site t)) (fun _ h => h.connectTo ht) h now policy
  rcases (connector target now).bootstrap_cases policy (fun _ w => source.load w.disk) w with
    ⟨⟨e, he⟩, hstate⟩ | ⟨⟨number, session⟩, models, hconnect, hload, hresult, hstate⟩
  · refine ⟨fun _ _ => hstate ▸ hoffers, fun ready hready => ?_⟩
    nomatch he.symm.trans hready
  · obtain rfl : session = {} := hsession _ hconnect
    by_cases hne : models = []
    · subst hne
      refine ⟨fun e he => (nomatch hresult.symm.trans he), fun ready hready hmodels => ?_⟩
      obtain rfl := Except.ok.inj (hresult.symm.trans hready)
      exact absurd rfl hmodels
    · obtain ⟨hserved, hcame⟩ := serve_connector target now hne number
        ((connector target now).connectFrom policy 0 w).state
      have hr : r.result = _ := hresult.trans hcame
      have hs : r.state = _ := hstate.trans hserved
      rcases hoffers.sync number now (Session.registered models).pending with
        ⟨⟨e, he⟩, hkept⟩ | ⟨t', hok, hmodels, hreplays, hleft⟩
      · rw [he] at hr
        exact ⟨fun _ _ => hs ▸ hkept, fun ready hready => nomatch hr.symm.trans hready⟩
      · rw [hok] at hr
        refine ⟨fun e he => (nomatch hr.symm.trans he), fun ready hready _ => ?_⟩
        obtain rfl := Except.ok.inj (hr.symm.trans hready)
        obtain ⟨hrows, hothers, hitemizes⟩ := replays_registered hmodels hreplays
        exact ⟨models, _, t', hload, rfl, rfl, hs ▸ hleft, hrows, hothers, hitemizes⟩

theorem exists_ready {κ : Type} {result : Except BootstrapError (Ready κ)} {names : List String}
    (h : result.toOption.map Ready.models = some names) :
    ∃ ready, result = .ok ready ∧ ready.models = names := by
  cases result with
  | error e => nomatch h
  | ok ready => exact ⟨ready, rfl, Option.some.inj h⟩

/-- A name comes twice, with another document the second time, and a store that is made has the
second. -/
theorem bootstrap_last_model :
    let strict := Model.bare "Photo"
    let lax : Model := { strict with document := { strict.document with level := .off } }
    let r := ({} : Workspace).bootstrap (Address.path "s.db") ⟨0, 0, 0⟩ {}
      (.given [strict, .bare "Post", lax])
    ∃ ready t row, r.result = .ok ready ∧ ready.models = ["Photo", "Post", "Photo"] ∧
      r.state.Offers (.file ["s.db"]) t ∧ t.get? "Photo" = some row ∧
      row.document = .text lax.document.text := by
  intro strict lax r
  have hoffers : ({} : Workspace).Offers (.file ["s.db"]) .empty :=
    ⟨rfl, fun _ he => absurd he List.not_mem_nil⟩
  have hleads : (Address.path "s.db").LeadsTo (.file ["s.db"]) :=
    ⟨{ path := [115, 46, 100, 98] }, by decide +kernel, by decide +kernel, by decide, rfl, {},
      by decide +kernel⟩
  have hmodels : r.result.toOption.map Ready.models = some ["Photo", "Post", "Photo"] := by
    decide +kernel
  obtain ⟨ready, hresult, hready⟩ := exists_ready hmodels
  obtain ⟨-, hall⟩ := bootstrap_all_or_nothing {} (.file ["s.db"]) .empty (Address.path "s.db")
    ⟨0, 0, 0⟩ {} (.given [strict, .bare "Post", lax]) hoffers hleads
  obtain ⟨models, report, t, hload, -, -, hleft, hrows, -⟩ :=
    hall ready hresult (hready ▸ List.cons_ne_nil _ _)
  obtain rfl := Except.ok.inj hload
  obtain ⟨m, row, hm, hrow, htext⟩ := hrows "Photo" (hready ▸ List.mem_cons_self)
  obtain rfl : lax = m := Option.some.inj hm
  exact ⟨ready, t, row, hresult, hready, hleft, hrow, htext⟩

end Workspace

end Schemata

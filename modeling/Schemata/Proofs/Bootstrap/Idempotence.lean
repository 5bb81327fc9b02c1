import Schemata.Proofs.Bootstrap.Reconnecting

/-!
# Schemata — Proofs — Bootstrap — Idempotence

A bootstrap that is run again with the same models finds them stored.  The first run leaves under
every name the text of the last model of the name, which is what the session of the second run holds
of the name; so the second run only reads, and reads whatever others hold meanwhile.

* `Workspace.Between`: what others may do between the runs.
* `Workspace.bootstrap_stores`: what a run that is ready leaves.
* `Workspace.bootstrap_of_holds`: a run with models that are stored leaves the rows alone.
* `Workspace.bootstrap_idempotent`: what a second run comes to, and that it is ready over a target
  that uses the log of the store.
* `Workspace.bootstrap_busy`: where the lock of a writer keeps readers out, it is not.
-/

namespace Schemata

namespace Workspace

/-- What others may do between two runs of a bootstrap: connections are closed, other than one that
is the target itself, connections hold the store, and others are opened that hold it. -/
inductive Between (site : Site) (target : Target) : Workspace → Workspace → Prop
  | nothing (w : Workspace) : Between site target w w
  | close {w w' : Workspace} (number : Nat) (hne : target ≠ .connection number)
      (h : Between site target (w.close number) w') : Between site target w w'
  | hold {w w' : Workspace} (number : Nat) (h : Between site target (w.hold number) w') :
      Between site target w w'
  | lock {w w' : Workspace} (a : Address) (ha : a.LeadsTo site)
      (hclear : ∀ q ∈ a.stops, site.IsClear q) (h : Between site target (w.lock a).2 w') :
      Between site target w w'

variable {w w' : Workspace} {site : Site} {target : Target} {t : Table}

theorem Between.held {P : Workspace → Prop} (h : Between site target w w')
    (hopenable : Openable site site.IsClear P)
    (hclosable : ∀ number, target ≠ .connection number → Closable site number P)
    (hw : Held site P w) : Held site P w' := by
  induction h with
  | nothing w => exact hw
  | close number hne _ ih => exact ih (hw.close (hclosable number hne))
  | hold number _ ih => exact ih (hw.hold hopenable.toStable number)
  | lock a ha hclear _ ih => exact ih (hw.lock hopenable ha hclear)

/-- A call with models of different names that succeeds leaves them stored. -/
theorem Offers.holds_of_sync {number : Nat} {now : Instant} {models : List Model} {report : Report}
    (h : w.Offers site t) (hne : models ≠ []) (hnodup : (models.map Model.name).Nodup)
    (hok : (w.sync number now models).1 = .ok report) :
    ∃ t', (w.sync number now models).2.Serves site t' ∧ ∀ m ∈ models, t'.Holds m := by
  obtain ⟨o, ho, -⟩ := h.exists_shows
  cases o with
  | none =>
      obtain ⟨⟨e, he⟩, -⟩ := ho.sync_of_none number now hne
      nomatch he.symm.trans hok
  | some u =>
      rcases ho.serves.sync number now models with
        ⟨⟨e, he⟩, -⟩ | ⟨t', -, hmodels, hreplays, hserves⟩
      · nomatch he.symm.trans hok
      · refine ⟨t', hserves, fun m hm => ?_⟩
        refine hreplays.holds_of_last ?_
        rw [hmodels]
        exact find?_reverse_of_nodup hnodup hm

theorem Serves.connectTo (h : w.Serves site t) (ht : target.LeadsTo site) :
    (w.connectTo target).2.Serves site t := by
  cases target with
  | address a => exact h.openMigrated ht
  | connection number => exact h.migrate number

/-- A run that is ready connected, and made one call with what a session holds of its models. -/
theorem bootstrap_calls {models : List Model} {now : Instant} {policy : RetryPolicy}
    {ready : Ready (Nat × Session)} (hne : models ≠ [])
    (hready : (w.bootstrap target now policy (.given models)).result = .ok ready) :
    let connection := (connector target now).connectFrom policy 0 w
    ∃ number report, connection.result = .ok (number, {}) ∧
      (connection.state.sync number now (Session.registered models).pending).1 = .ok report ∧
      (w.bootstrap target now policy (.given models)).state =
        (connection.state.sync number now (Session.registered models).pending).2 := by
  intro connection
  have hsession : ∀ k, connection.result = .ok k → k.2 = {} :=
    (connectFrom_keeps (P := fun _ => True) (fun _ _ => trivial) trivial now policy).2
  rcases (connector target now).bootstrap_cases policy
      (fun _ w => (ModelSource.given models).load w.disk) w with
    ⟨⟨e, he⟩, -⟩ | ⟨⟨number, session⟩, models', hconnect, hload, hresult, hstate⟩
  · nomatch he.symm.trans hready
  · obtain rfl : models = models' := Except.ok.inj hload
    obtain rfl : session = {} := hsession _ hconnect
    obtain ⟨hserved, hcame⟩ := serve_connector target now hne number connection.state
    have hr : (w.bootstrap target now policy (.given models)).result = _ := hresult.trans hcame
    cases hcall : (connection.state.sync number now (Session.registered models).pending).1 with
    | error e =>
        rw [hcall] at hr
        nomatch hr.symm.trans hready
    | ok report => exact ⟨number, report, hconnect, hcall, hstate.trans hserved⟩

/-- **A run that is ready leaves its models stored.** -/
theorem bootstrap_stores {models : List Model} {now : Instant} {policy : RetryPolicy}
    {ready : Ready (Nat × Session)} (h : w.Led site) (ht : target.LeadsTo site) (hne : models ≠ [])
    (hready : (w.bootstrap target now policy (.given models)).result = .ok ready) :
    ∃ t, (w.bootstrap target now policy (.given models)).state.Serves site t ∧
      ∀ m ∈ (Session.registered models).pending, t.Holds m := by
  have hoffers : w.Offers site ((w.volumeAt site).table.getD .empty) := ⟨rfl, h⟩
  obtain ⟨hoffers, -⟩ :=
    connectFrom_keeps (P := (·.Offers site _)) (fun _ h => h.connectTo ht) hoffers now policy
  obtain ⟨number, report, -, hcall, hstate⟩ := bootstrap_calls hne hready
  rw [hstate]
  exact hoffers.holds_of_sync (Session.pending_registered_ne_nil hne)
    (Session.nodup_registered models) hcall

/-- A run that is ready leaves what its target recurs with. -/
theorem bootstrap_recurs {P S : Workspace → Prop} {R : Nat → Workspace → Prop}
    {models : List Model} {now : Instant} {policy : RetryPolicy} {ready : Ready (Nat × Session)}
    (hrecurs : target.Recurs site P R S) (hw : Held site P w) (ht : target.LeadsTo site)
    (hne : models ≠ [])
    (hready : (w.bootstrap target now policy (.given models)).result = .ok ready) :
    Held site S (w.bootstrap target now policy (.given models)).state := by
  have hconnects : ∀ w k, Held site P w → ((connector target now).connect w).1 = .ok k →
      Held site (R k.1) ((connector target now).connect w).2 := by
    intro w k h hk
    obtain ⟨number, hconnect, rfl⟩ := connect_connector_eq_ok_iff.mp hk
    exact (hrecurs.connects h).2 number hconnect
  have hconnected : ∀ k, ((connector target now).connectFrom policy 0 w).result = .ok k →
      Held site (R k.1) ((connector target now).connectFrom policy 0 w).state :=
    (Connector.connectFrom_induction (P := Held site P)
      (Q := fun (k : Nat × Session) w => Held site (R k.1) w)
      (fun w h => (hrecurs.connects h).1) hconnects 0 hw).2
  obtain ⟨number, report, hconnect, -, hstate⟩ := bootstrap_calls hne hready
  obtain ⟨t, hserves, -⟩ := bootstrap_stores hw.leads ht hne hready
  rw [hstate] at hserves ⊢
  exact hrecurs.serves now (Session.pending_registered_ne_nil hne) (hconnected _ hconnect)
    hserves.table

/-- **A run with models that are stored leaves the rows alone**, and if it is ready its report lists
each name once, as unchanged. -/
theorem bootstrap_of_holds {models : List Model} (h : w.Serves site t) (ht : target.LeadsTo site)
    (now : Instant) (policy : RetryPolicy) (hne : models ≠ [])
    (hholds : ∀ m ∈ (Session.registered models).pending, t.Holds m) :
    let r := w.bootstrap target now policy (.given models)
    r.state.Serves site t ∧ ∀ ready, r.result = .ok ready → ready.models = models.map Model.name ∧
      ready.report = some { unchanged := (models.map Model.name).eraseDups } := by
  intro r
  obtain ⟨hconnected, hsession⟩ :=
    connectFrom_keeps (P := (·.Serves site t)) (fun _ h => h.connectTo ht) h now policy
  rcases (connector target now).bootstrap_cases policy
      (fun _ w => (ModelSource.given models).load w.disk) w with
    ⟨⟨e, he⟩, hstate⟩ | ⟨⟨number, session⟩, models', hconnect, hload, hresult, hstate⟩
  · exact ⟨hstate ▸ hconnected, fun ready hready => nomatch he.symm.trans hready⟩
  · obtain rfl : models = models' := Except.ok.inj hload
    obtain rfl : session = {} := hsession _ hconnect
    obtain ⟨hserved, hcame⟩ := serve_connector target now hne number
      ((connector target now).connectFrom policy 0 w).state
    have hs : r.state = _ := hstate.trans hserved
    have hr : r.result = _ := hresult.trans hcame
    obtain ⟨hserves, hcall⟩ := hconnected.sync_of_holds number now hholds
    refine ⟨hs ▸ hserves, fun ready hready => ?_⟩
    rcases hcall with hok | ⟨e, he⟩
    · rw [hok] at hr
      obtain rfl := Except.ok.inj (hr.symm.trans hready)
      have hnames : (Session.registered models).pending.map Model.name =
          (models.map Model.name).eraseDups := Session.names_registered models
      exact ⟨rfl, by rw [hnames]⟩
    · rw [he] at hr
      nomatch hr.symm.trans hready

/-- **A run with models that are stored is ready**, if its target can be connected to. -/
theorem bootstrap_ready {P S : Workspace → Prop} {R : Nat → Workspace → Prop} {models : List Model}
    (hrecurs : target.Recurs site P R S) (h : w.Serves site t) (hw : Held site S w) (now : Instant)
    (policy : RetryPolicy) (hne : models ≠ [])
    (hholds : ∀ m ∈ (Session.registered models).pending, t.Holds m) :
    ∃ ready, (w.bootstrap target now policy (.given models)).result = .ok ready := by
  obtain ⟨number, hok, hreads⟩ := hrecurs.again hw h.table
  have hconnect : (connector target now).connect w =
      (.ok (number, {}), (w.connectTo target).2) := by
    change ((w.connectTo target).1.map fun n => (n, ({} : Session)), _) = _
    rw [hok]
    rfl
  obtain ⟨phase, hloop⟩ :=
    Connector.connectFrom_of_not_mayPass policy 0 hconnect (by simp [Connector.MayPass])
  have hrun : w.bootstrap target now policy (.given models) =
      ((connector target now).serve models (number, {})
        ((connector target now).connectFrom policy 0 w).state).after
        ((connector target now).connectFrom policy 0 w).events :=
    Connector.bootstrap_of_ok (by rw [hloop]; rfl) rfl
  obtain ⟨-, hcame⟩ := serve_connector target now hne number (w.connectTo target).2
  rw [hloop] at hrun
  rw [(hreads.sync_reads now hholds).1] at hcame
  exact ⟨_, (congrArg Run.result hrun).trans hcame⟩

/-- **A bootstrap that is run again with the same models finds them stored.**  A first run over a
target that leads to a store is ready with models.  Then others close connections to the store, open
some and hold it.  A second run over the target, whatever its retries and its instant,

* leaves the rows of the store as they were,
* reports, if it is ready, each name once, in the order in which the names came first, and all of
  them as unchanged,
* and is ready, whatever others hold, if the target uses the log of the store. -/
theorem bootstrap_idempotent (w : Workspace) (site : Site) (target : Target) (models : List Model)
    (now now' : Instant) (policy policy' : RetryPolicy) (hled : w.Led site)
    (ht : target.LeadsTo site) (hne : models ≠ []) (ready : Ready (Nat × Session))
    (hready : (w.bootstrap target now policy (.given models)).result = .ok ready) (w' : Workspace)
    (hbetween : Between site target (w.bootstrap target now policy (.given models)).state w') :
    let first := w.bootstrap target now policy (.given models)
    let second := w'.bootstrap target now' policy' (.given models)
    (∃ t, first.state.Serves site t ∧ w'.Serves site t ∧ second.state.Serves site t) ∧
    (∀ ready', second.result = .ok ready' → ready'.models = models.map Model.name ∧
      ready'.report = some { unchanged := (models.map Model.name).eraseDups }) ∧
    (w.IsNumbered → target.UsesLog w site → ∃ ready', second.result = .ok ready') := by
  intro first second
  obtain ⟨t, hserves, hholds⟩ := bootstrap_stores hled ht hne hready
  -- the table stays between the runs, and so does what the target recurs with
  have hserves' : w'.Serves site t := Shows.serves (hbetween.held (openable_hasTable site _ _)
    (fun number _ => closable_hasTable site number _) hserves.shows)
  obtain ⟨hleft, hreport⟩ := bootstrap_of_holds hserves' ht now' policy' hne hholds
  refine ⟨⟨t, hserves, hserves', hleft⟩, hreport, fun hnumbers hlog => ?_⟩
  obtain ⟨P, R, S, hrecurs, hP⟩ := hlog.recurs ht hnumbers
  have hS := bootstrap_recurs hrecurs ⟨hled, hP⟩ ht hne hready
  exact bootstrap_ready hrecurs hserves' (hbetween.held hrecurs.openable hrecurs.closable hS) now'
    policy' hne hholds

/-- A name comes twice, with another document the second time, and another writer holds the store
when the run is repeated. -/
theorem bootstrap_idempotent_held :
    let a := Address.path "s.db"
    let strict := Model.bare "Photo"
    let lax : Model := { strict with document := { strict.document with level := .off } }
    let source := ModelSource.given [strict, .bare "Post", lax]
    let first := ({} : Workspace).bootstrap a ⟨0, 0, 0⟩ {} source
    let held := (first.state.lock a).2
    let second := held.bootstrap a ⟨60, 0, 0⟩ { retries := 0 } source
    first.result.toOption.map Ready.models = some ["Photo", "Post", "Photo"] ∧
      ∃ ready t, second.result = .ok ready ∧
        ready.report = some { unchanged := ["Photo", "Post"] } ∧
        first.state.Serves (.file ["s.db"]) t ∧ second.state.Serves (.file ["s.db"]) t := by
  intro a strict lax source first held second
  have hled : ({} : Workspace).Led (.file ["s.db"]) := fun _ he => absurd he List.not_mem_nil
  have hnumbers : ({} : Workspace).IsNumbered := fun _ he => absurd he List.not_mem_nil
  have hleads : a.LeadsTo (.file ["s.db"]) :=
    ⟨{ path := [115, 46, 100, 98] }, by decide +kernel, by decide +kernel, by decide, rfl, {},
      by decide +kernel⟩
  have hclear : ∀ q ∈ Path.stops "s.db", (Site.file ["s.db"]).IsClear q := by
    have hstops : Path.stops "s.db" = [[]] := by decide +kernel
    rw [hstops]
    rintro q hq names hn
    obtain rfl := List.mem_singleton.mp hq
    obtain rfl := Site.file.inj hn
    exact ⟨by simp, fun c => by simp [Companion.names]⟩
  have hlog : Target.UsesLog {} (.file ["s.db"]) a :=
    Target.usesLog_plain (by decide +kernel) hclear rfl fun names hn => by
      obtain rfl := Site.file.inj hn
      exact .inl fun v hv => nomatch hv
  have hmodels : first.result.toOption.map Ready.models = some ["Photo", "Post", "Photo"] := by
    decide +kernel
  obtain ⟨ready, hready, -⟩ := exists_ready hmodels
  have hbetween : Between (.file ["s.db"]) a first.state held :=
    .lock a hleads hclear (.nothing _)
  obtain ⟨⟨t, hbefore, -, hafter⟩, hreport, hagain⟩ :=
    bootstrap_idempotent {} (.file ["s.db"]) a [strict, .bare "Post", lax] ⟨0, 0, 0⟩ ⟨60, 0, 0⟩ {}
      { retries := 0 } hled hleads nofun ready hready held hbetween
  obtain ⟨ready', hok⟩ := hagain hnumbers hlog
  exact ⟨hmodels, ready', t, hok, (hreport ready' hok).2.trans (by decide +kernel), hbefore, hafter⟩

/-- Where the lock of a writer is a directory beside the file it keeps readers out too: a run that
was ready is not when it is repeated while another writer holds the store. -/
theorem bootstrap_busy :
    let a := Address.path "file:s.db?vfs=unix-dotfile"
    let source := ModelSource.given [.bare "Photo"]
    let first := ({} : Workspace).bootstrap a ⟨0, 0, 0⟩ {} source
    let (holder, held) := first.state.lock a
    let second := held.bootstrap a ⟨0, 0, 0⟩ { retries := 0 } source
    first.result.toOption.map Ready.models = some ["Photo"] ∧ holder.isSome = true ∧
      second.result.map Ready.models =
        .error (.retriesExhausted 0 (.busy StoreFault.locked.message)) := by
  decide +kernel

end Workspace

end Schemata

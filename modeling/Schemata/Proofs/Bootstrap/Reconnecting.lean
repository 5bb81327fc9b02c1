import Schemata.Proofs.Bootstrap.Atomicity
import Schemata.Proofs.Workspace.Reopening

/-!
# Schemata — Proofs — Bootstrap — Reconnecting

Targets that can be connected to again.  A target uses the log of its store when its path is opened
in a way that does and goes through none of the files of the store, when it is the workspace's own
store, or when it is a steady connection (`Target.UsesLog`).  Once a session over such a target has
synchronized, connecting to it again succeeds over a connection that can read, whatever others hold
meanwhile.

What is to be true for that differs with the target, and so does what keeps it true.  A target
*recurs* with three properties, of the workspace before, while connected and afterwards
(`Target.Recurs`), and every target that uses a log recurs with some (`Target.UsesLog.recurs`).
-/

namespace Schemata

/-- A target is reached in a way that uses the log of the store, if it is in a file.  Where the file
keeps no log yet, or the directories on the way are missing, they are those that opening it makes;
a connection that is open already finds nothing beside the file that keeps it from reading. -/
def Target.UsesLog (w : Workspace) (site : Site) : Target → Prop
  | .address .own      => True
  | .address (.path p) => ∃ l, Path.Reaches p l site ∧ w.Passable site (l.unmade p)
  | .connection number => w.files.IsTidy site ∧ w.Has number Connection.IsSteady

/-- A target can be connected to again.  Attempts to connect keep a property, and one that succeeds
leaves another, of its connection.  When a session over the connection has synchronized a third is
left, which stays when others open the store, hold it or close it, and with which connecting
succeeds over a connection that can read. -/
structure Target.Recurs (target : Target) (site : Site) (P : Workspace → Prop)
    (R : Nat → Workspace → Prop) (S : Workspace → Prop) : Prop where
  connects : ∀ {w : Workspace}, w.Held site P → (w.connectTo target).2.Held site P ∧
    ∀ number, (w.connectTo target).1 = .ok number → (w.connectTo target).2.Held site (R number)
  serves : ∀ {w : Workspace} {number : Nat} {t : Table} (now : Instant) {models : List Model},
    models ≠ [] → w.Held site (R number) → (w.sync number now models).2.HasTable site (some t) →
      (w.sync number now models).2.Held site S
  again : ∀ {w : Workspace} {t : Table}, w.Held site S → w.HasTable site (some t) →
    ∃ number, (w.connectTo target).1 = .ok number ∧
      (w.connectTo target).2.Held site (Workspace.Reads site number t)
  openable : Workspace.Openable site site.IsClear S
  closable : ∀ number, target ≠ .connection number → Workspace.Closable site number S

namespace Workspace

theorem openStore_path (w : Workspace) (path : String) :
    w.openStore (.path path) = (openPath path).run.run w := rfl

/-- To connect to an address is to open the store there and to migrate it. -/
theorem connectTo_address (w : Workspace) (a : Address) :
    (w.connectTo (.address a)).2 = (w.openMigrated a).2 ∧ ∀ number,
      ((w.connectTo (.address a)).1 = .ok number ↔ (w.openMigrated a).1 = .ok number) := by
  refine ⟨rfl, fun number => ?_⟩
  change (w.openMigrated a).1.mapError SessionError.ofConnecting = .ok number ↔ _
  cases (w.openMigrated a).1 with
  | error e => simp [Except.mapError]
  | ok n => simp [Except.mapError]

/-- To connect over a connection is to migrate its store. -/
theorem connectTo_connection (w : Workspace) (number : Nat) :
    (w.connectTo (.connection number)).2 = (w.migrate number).2 ∧ ∀ n,
      ((w.connectTo (.connection number)).1 = .ok n ↔
        (w.migrate number).1 = .ok () ∧ n = number) := by
  refine ⟨rfl, fun n => ?_⟩
  change ((w.migrate number).1.map fun _ => number).mapError SessionError.ofConnecting = .ok n ↔ _
  cases (w.migrate number).1 with
  | error e => simp [Except.map, Except.mapError]
  | ok u => simp [Except.map, Except.mapError, eq_comm]

end Workspace

namespace Target

open Workspace

variable {w : Workspace} {site : Site} {t : Table} {target : Target}

/-! ### Addresses -/

/-- What has to be shown of an address: what opening the store keeps, what it leaves when it
succeeds, and that it succeeds then. -/
theorem recurs_address {a : Address} {P S : Workspace → Prop}
    (hfails : ∀ {w}, Held site P w → Held site P (w.openStore a).2)
    (hopens : ∀ {w}, Held site P w → ∀ number, (w.openStore a).1 = .ok number →
      S (w.openStore a).2)
    (hP : ∀ w, S w → P w) (hwritable : Writable site S) (hopenable : Openable site site.IsClear S)
    (hclosable : ∀ number, Closable site number S)
    (hagain : ∀ {w t}, Held site S w → HasTable site (some t) w → ∃ number,
      (w.openStore a).1 = .ok number ∧ Held site (Reads site number t) (w.openStore a).2 ∧
        Has number (·.isAware = true) (w.openStore a).2) :
    Recurs (.address a) site P (fun _ => S) S where
  connects {w} h := by
    obtain ⟨hstate, hresult⟩ := connectTo_address w a
    have hends := openMigrated_ends (P := Held site P) (Q := Held site S) (fun _ _ => hfails h)
      (fun number hok => ⟨(hfails h).leads, hopens h number hok⟩)
      (fun _ number h => h.migrate hwritable number) (fun _ number h => h.close (hclosable number))
      fun _ h => ⟨h.leads, hP _ h.holds⟩
    exact ⟨hstate ▸ hends.1, fun number hok => hstate ▸ hends.2 number ((hresult number).mp hok)⟩
  serves now _ _ h _ := h.sync hwritable _ now _
  again {w t} h ht := by
    obtain ⟨hstate, hresult⟩ := connectTo_address w a
    obtain ⟨number, hopen, hreads, haware⟩ := hagain h ht
    obtain ⟨hok, hreads⟩ := Held.openMigrated_reads hopen hreads haware
    exact ⟨number, (hresult number).mpr hok, hstate ▸ hreads⟩
  openable := hopenable
  closable number _ := hclosable number

/-- A store of its own is there each time, and new. -/
theorem recurs_own : Recurs (.address .own) .own IsNumbered (fun _ => IsNumbered)
    IsNumbered := by
  have hopenable := openable_isNumbered .own (Site.IsClear .own)
  have hopen : ∀ {w : Workspace}, Held .own IsNumbered w →
      Held .own IsNumbered (w.openStore .own).2 := fun h => h.openStore hopenable rfl nofun
  refine recurs_address hopen (fun h _ _ => (hopen h).holds) (fun _ => id)
    (writable_isNumbered .own) hopenable (closable_isNumbered .own) fun {w t} h ht => ?_
  have htable : Held .own (HasTable .own (some t)) (w.openStore .own).2 :=
    Held.openStore (openable_hasTable .own (fun _ => True) _) ⟨h.leads, ht⟩ rfl nofun
  have hnumbers : IsNumbered { w with own := w.own.logged true } := h.holds
  have haware : (w.own.logged true).table.isSome = true := Option.isSome_iff_exists.mpr ⟨t, ht⟩
  exact ⟨w.opened, rfl, ⟨htable.leads, htable.holds, nofun, has_attach hnumbers ⟨nofun, nofun⟩⟩,
    has_attach hnumbers haware⟩

/-- The store at a path is there each time, once its directories are. -/
theorem recurs_path {p : String} {l : Location} (hp : Path.Reaches p l site)
    (ha : (Address.path p).LeadsTo site) :
    Recurs (.address (.path p)) site
      (fun w => w.IsNumbered ∧ w.Passable site (l.unmade p))
      (fun _ w => w.IsNumbered ∧ w.files.Paved p l site)
      fun w => w.IsNumbered ∧ w.files.Paved p l site := by
  have hunmade : ∀ q ∈ l.unmade p, site.IsClear q := fun q hq =>
    hp.clear q (List.mem_filter.mp hq).1
  have hstops : ∀ q ∈ Path.stops p, site.IsClear q := fun q hq =>
    hp.clear q (List.mem_append_left _ hq)
  have hnumbered := openable_isNumbered site site.IsClear
  have hpaved := lasting_paved hp.clear
  refine recurs_address (fun h => h.openStore (hnumbered.and (openable_passable hunmade)) ha hstops)
    (fun {w} h number hok => ⟨?_, ?_⟩) (fun w h => ⟨h.1, ?_, fun q hq => ?_⟩)
    ((writable_isNumbered site).and hpaved.writable) (hnumbered.and hpaved.openable)
    (fun number => (closable_isNumbered site number).and (hpaved.closable number))
    fun {w t} h ht => ?_
  · exact (Held.openStore hnumbered ⟨h.leads, h.holds.1⟩ ha hstops).holds
  · rw [openStore_path] at hok ⊢
    exact (Held.openPath_paves hp ha ⟨h.leads, h.holds.2⟩).2 number hok
  · refine fun names hn => .inl fun v hv => ?_
    obtain ⟨v', hv', hlog⟩ := h.2.log names hn
    obtain rfl : v = v' := by simpa using hv.symm.trans hv'
    exact hlog
  · exact h.2.stops q (List.mem_filter.mp hq).1
  · have hheld : Held site (fun w => HasTable site (some t) w ∧ w.files.Paved p l site)
        (w.openStore (.path p)).2 :=
      Held.openStore ((openable_hasTable site _ _).and hpaved.openable) ⟨h.leads, ht, h.holds.2⟩ ha
        hstops
    obtain ⟨number, w', hrun, c, hc, hsteady, haware⟩ :=
      Held.openPath_goes hp ha ⟨h.leads, h.holds.2⟩ h.holds.1 ht
    have hopen : w.openStore (.path p) = (.ok number, w') := hrun
    rw [hopen] at hheld ⊢
    exact ⟨number, rfl, ⟨hheld.leads, hheld.holds.1, hheld.holds.2.tidy, c, hc, hsteady⟩, c, hc,
      haware⟩

/-- **A plain path uses the log**: one that does not start with `file:`, leads through no file of
the store, and finds no log that strayed to a store without one. -/
theorem usesLog_plain {p : String} (hplain : ¬ "file:".toList <+: p.toList)
    (hclear : ∀ q ∈ Path.stops p, site.IsClear q) (htop : w.files.hasDirectory [] = true)
    (hstrayed : ∀ names, site = .file names →
      w.files.LogsAt names ∨ ¬ w.has names .log = true) :
    UsesLog w site (.address (.path p)) := by
  refine ⟨.plain p, ⟨Location.ofPath?_plain hplain, ⟨.inl rfl, rfl, rfl, rfl, rfl⟩, fun q hq => ?_⟩,
    hstrayed, fun q hq => Location.unmade_plain hq ▸ htop⟩
  rw [Location.stops_plain] at hq
  exact hclear q ((List.mem_append.mp hq).elim id id)

/-! ### Connections -/

/-- A connection that is steady is there each time, and knows of the table once there is one. -/
theorem recurs_connection (site : Site) (number : Nat) :
    Recurs (.connection number) site
      (fun w => w.files.IsTidy site ∧ w.Has number Connection.IsSteady)
      (fun n w => n = number ∧ w.files.IsTidy site ∧ w.Has number Connection.IsSteady)
      fun w => w.files.IsTidy site ∧ w.Has number fun c => c.IsSteady ∧ c.isAware = true := by
  have hwritable := (lasting_isTidy site).writable.and (writable_steady site number)
  have hlike : ∀ c d : Connection, c.IsLike d → d.IsSteady ∧ d.isAware = true →
      c.IsSteady ∧ c.isAware = true := fun _ _ h hd => ⟨h.isSteady hd.1, h.isAware.trans hd.2⟩
  refine ⟨fun {w} h => ?_, fun {w n t} now models hne h ht => ?_, fun {w t} h ht => ?_, ?_, ?_⟩
  · have hmigrated := h.migrate hwritable number
    obtain ⟨hstate, hresult⟩ := connectTo_connection w number
    rw [hstate]
    exact ⟨hmigrated, fun n hn => ⟨hmigrated.leads, ((hresult n).mp hn).2, hmigrated.holds⟩⟩
  · obtain ⟨rfl, htidy, hsteady⟩ := h.holds
    have hheld : Held site (fun w => w.files.IsTidy site ∧ w.Has n Connection.IsSteady) w :=
      ⟨h.leads, htidy, hsteady⟩
    have huse : w.sync n now models = w.use n (·.sync now models) := by
      simp [Workspace.sync, hne]
    rw [huse] at ht ⊢
    have hused := hheld.use hwritable n (·.sync now models)
    obtain ⟨c, hc, haware⟩ := hheld.aware_use (·.sync now models) ht
    obtain ⟨c', hc', hsteady'⟩ := hused.holds.2
    obtain rfl := Option.some.inj (hc.symm.trans hc')
    exact ⟨hused.leads, hused.holds.1, c, hc, hsteady', haware⟩
  · obtain ⟨htidy, c, hc, hsteady, haware⟩ := h.holds
    have hreads : Held site (Reads site number t) w := ⟨h.leads, ht, htidy, c, hc, hsteady⟩
    obtain ⟨hok, hmigrated⟩ := hreads.migrate_reads ⟨c, hc, haware⟩
    obtain ⟨hstate, hresult⟩ := connectTo_connection w number
    exact ⟨number, (hresult number).mpr ⟨hok, rfl⟩, hstate ▸ hmigrated⟩
  · exact (lasting_isTidy site).openable.and (openable_has site number hlike _)
  · exact fun other hne => ((lasting_isTidy site).closable other).and
      (closable_has site (fun he => hne (congrArg _ he.symm)) hlike)

/-- **Every target that uses a log recurs**, with a property that the workspace has. -/
theorem UsesLog.recurs (h : target.UsesLog w site) (ht : target.LeadsTo site)
    (hnumbers : w.IsNumbered) : ∃ P R S, target.Recurs site P R S ∧ P w := by
  cases target with
  | connection number => exact ⟨_, _, _, recurs_connection site number, h⟩
  | address a =>
      cases a with
      | own =>
          obtain rfl : site = .own := ht
          exact ⟨_, _, _, recurs_own, hnumbers⟩
      | path p =>
          obtain ⟨l, hp, hpassable⟩ := h
          exact ⟨_, _, _, recurs_path hp ht, hnumbers, hpassable⟩

end Target

end Schemata

import Schemata.Proofs.Workspace.Serving

/-!
# Schemata — Proofs — Workspace — Company

Sessions that share a store.  They come and go, over connections of their own or over one together,
register and synchronize, call the store directly, and find it locked; of every call that succeeds
the report is kept, with its entries.

The table of the store is at any time what the entries so far replay to (`Company.Faithful`), as no
step changes it but a call that succeeds.  What the reports say of a name is therefore true of the
row of the name (`Company.row_of_reports`).
-/

namespace Schemata

/-- A call that succeeded: what it was given, what became of each, and what it reported. -/
structure Call where
  models : List Model
  entries : List Entry
  report : Report

/-- Sessions over their connections, the connection of another writer that holds the store, and the
calls that succeeded, in order. -/
structure Company where
  workspace : Workspace
  members : List (Nat × Session) := []
  holder : Option Nat := none
  calls : List Call := []

/-- What a company does.  A session is opened over a connection of its own, or over that of another;
it registers a model, synchronizes, calls the store directly, migrates it, or is opened again.
Another writer takes the lock or gives it back. -/
inductive Act where
  | connect
  | join (k : Nat)
  | register (k : Nat) (m : Model)
  | synchronize (k : Nat) (now : Instant)
  | sync (k : Nat) (now : Instant) (models : List Model)
  | migrate (k : Nat)
  | reopen (k : Nat)
  | lock
  | unlock

/-- Whether an act opens the store again. -/
def Act.opens : Act → Bool
  | .connect | .reopen _ | .lock => true
  | _                            => false

namespace Company

/-- The table of the store at a site. -/
def tableAt (c : Company) (site : Site) : Table := ((c.workspace.volumeAt site).table).getD .empty

/-- The calls with one more, if it succeeded. -/
def callsWith {ε : Type} (c : Company) (site : Site) (now : Instant) (models : List Model) :
    Except ε Report → List Call
  | .ok report => c.calls ++ [⟨models, (c.tableAt site).entries now.text models, report⟩]
  | .error _   => c.calls

/-- The company after an act, which may open the store at an address. -/
def next (a : Address) (site : Site) (c : Company) : Act → Company
  | .connect =>
    match c.workspace.openMigrated a with
    | (.ok number, workspace) => { c with workspace, members := c.members ++ [(number, {})] }
    | (.error _, workspace)   => { c with workspace }
  | .join k =>
    match c.members[k]? with
    | none             => c
    | some (number, _) =>
      match c.workspace.migrate number with
      | (.ok (), workspace)   => { c with workspace, members := c.members ++ [(number, {})] }
      | (.error _, workspace) => { c with workspace }
  | .register k m =>
    { c with members := c.members.modify k fun e => (e.1, e.2.register m) }
  | .synchronize k now =>
    match c.members[k]? with
    | none                   => c
    | some (number, session) =>
      let (result, left, workspace) := c.workspace.synchronize number session now
      { c with
        workspace
        members := c.members.set k (number, left)
        calls := c.callsWith site now session.pending result }
  | .sync k now models =>
    match c.members[k]? with
    | none             => c
    | some (number, _) =>
      let (result, workspace) := c.workspace.sync number now models
      { c with workspace, calls := c.callsWith site now models result }
  | .migrate k =>
    match c.members[k]? with
    | none             => c
    | some (number, _) => { c with workspace := (c.workspace.migrate number).2 }
  | .reopen k =>
    match c.members[k]? with
    | none          => c
    | some (old, _) =>
      match c.workspace.openMigrated a with
      | (.ok number, workspace) =>
        -- a connection that others use too stays open
        let isUsed := (c.members.eraseIdx k).any (·.1 = old)
        { c with
          workspace := if isUsed then workspace else workspace.close old
          members := c.members.set k (number, {}) }
      | (.error _, workspace)   => { c with workspace }
  | .lock =>
    let (holder, workspace) := (c.workspace.unlock c.holder).lock a
    { c with workspace, holder }
  | .unlock => { c with workspace := c.workspace.unlock c.holder, holder := none }

/-- The company after acts. -/
def run (a : Address) (site : Site) (c : Company) (acts : List Act) : Company :=
  acts.foldl (next a site) c

/-- The entries of all calls that succeeded. -/
def entries (c : Company) : List Entry := c.calls.flatMap Call.entries

/-- The names that the reports list under a change. -/
def reported (c : Company) (ch : Change) : List String := c.calls.flatMap (·.report.of ch)

/-- The store has the table that the entries replay to, and each report is of its entries. -/
structure Faithful (site : Site) (c : Company) : Prop where
  served : ∃ t, c.workspace.Serves site t ∧ Table.Replays .empty c.entries t
  itemized : ∀ call ∈ c.calls,
    call.report = .ofEntries call.entries ∧ call.entries.map Entry.model = call.models

namespace Faithful

variable {a : Address} {site : Site} {c : Company}

/-- What leaves the table alone and adds no call. -/
theorem of_workspace (h : Faithful site c) {c' : Company} (hcalls : c'.calls = c.calls)
    (hserves : ∀ t, c.workspace.Serves site t → c'.workspace.Serves site t) :
    Faithful site c' := by
  obtain ⟨t, ht, hreplays⟩ := h.served
  refine ⟨⟨t, hserves t ht, ?_⟩, hcalls ▸ h.itemized⟩
  rwa [entries, hcalls]

/-- A call, whether it succeeds or fails. -/
theorem sync (h : Faithful site c) (number : Nat) (now : Instant) (models : List Model)
    {ε : Type} {result : Except ε Report}
    (hresult : result.toOption = (c.workspace.sync number now models).1.toOption) {c' : Company}
    (hworkspace : c'.workspace = (c.workspace.sync number now models).2)
    (hcalls : c'.calls = c.callsWith site now models result) : Faithful site c' := by
  obtain ⟨t, ht, hreplays⟩ := h.served
  rcases ht.sync number now models with ⟨⟨e, he⟩, hserves⟩ |
    ⟨t', hok, hmodels, hentries, hserves⟩
  · rw [he] at hresult
    cases result with
    | ok report => nomatch hresult
    | error e =>
        -- what failed has left the table alone
        refine h.of_workspace hcalls fun t₀ ht₀ => ?_
        obtain rfl : t₀ = t := Option.some.inj (ht₀.table.symm.trans ht.table)
        exact hworkspace ▸ hserves
  · rw [hok] at hresult
    cases result with
    | error e => nomatch hresult
    | ok report =>
        obtain rfl := Option.some.inj hresult
        -- the entries that are kept are those of the table that was served
        have htable : c.tableAt site = t := by rw [tableAt, ht.table, Option.getD_some]
        rw [callsWith, htable] at hcalls
        refine ⟨⟨t', hworkspace ▸ hserves, ?_⟩, fun call hcall => ?_⟩
        · rw [entries, hcalls, List.flatMap_append, List.flatMap_singleton]
          exact hreplays.append hentries
        · rw [hcalls] at hcall
          rcases List.mem_append.mp hcall with hcall | hcall
          · exact h.itemized call hcall
          · obtain rfl := List.mem_singleton.mp hcall
            exact ⟨rfl, hmodels⟩

theorem openMigrated (h : Faithful site c) (ha : a.LeadsTo site) {c' : Company}
    (hworkspace : c'.workspace = (c.workspace.openMigrated a).2) (hcalls : c'.calls = c.calls) :
    Faithful site c' :=
  h.of_workspace hcalls fun _ ht => hworkspace ▸ ht.openMigrated ha

/-- No act makes the store differ from what the reports say. -/
theorem next (h : Faithful site c) {act : Act} (ha : a.LeadsTo site ∨ act.opens = false) :
    Faithful site (c.next a site act) := by
  cases act with
  | connect =>
      have ha := ha.resolve_right (by simp [Act.opens])
      dsimp only [Company.next]
      split
      · next he => exact h.openMigrated ha (by rw [he]) rfl
      · next he => exact h.openMigrated ha (by rw [he]) rfl
  | join k =>
      dsimp only [Company.next]
      split
      · exact h
      · next number _ _ =>
          split
          · next he => exact h.of_workspace rfl fun _ ht => by simpa [he] using ht.migrate number
          · next he => exact h.of_workspace rfl fun _ ht => by simpa [he] using ht.migrate number
  | register k m => exact h.of_workspace rfl fun _ ht => ht
  | synchronize k now =>
      dsimp only [Company.next]
      split
      · exact h
      · next number session _ =>
          rw [Workspace.synchronize_eq]
          refine h.sync number now session.pending ?_ rfl rfl
          cases (c.workspace.sync number now session.pending).1 <;> rfl
  | sync k now models =>
      dsimp only [Company.next]
      split
      · exact h
      · next number _ _ => exact h.sync number now models rfl rfl rfl
  | migrate k =>
      dsimp only [Company.next]
      split
      · exact h
      · next number _ _ => exact h.of_workspace rfl fun _ ht => ht.migrate number
  | reopen k =>
      have ha := ha.resolve_right (by simp [Act.opens])
      dsimp only [Company.next]
      split
      · exact h
      · next old _ _ =>
          split
          · next he =>
              refine h.of_workspace rfl fun _ ht => ?_
              have hopen := ht.openMigrated ha
              rw [he] at hopen
              exact .ite hopen (hopen.close old)
          · next he => exact h.openMigrated ha (by rw [he]) rfl
  | lock =>
      have ha := ha.resolve_right (by simp [Act.opens])
      exact h.of_workspace rfl fun _ ht => (ht.unlock c.holder).lock ha
  | unlock => exact h.of_workspace rfl fun _ ht => ht.unlock c.holder

/-- Whatever a company does, the store is what the reports say. -/
theorem run (h : Faithful site c) {acts : List Act}
    (ha : a.LeadsTo site ∨ ∀ act ∈ acts, act.opens = false) :
    Faithful site (c.run a site acts) := by
  induction acts generalizing c with
  | nil => exact h
  | cons act rest ih =>
      exact ih (h.next (ha.imp id fun hall => hall act List.mem_cons_self))
        (ha.imp id fun hall act hact => hall act (List.mem_cons_of_mem _ hact))

end Faithful

/-! ### What the reports say -/

variable {a : Address} {site : Site} {c : Company}

theorem calls_next (act : Act) : c.calls <+: (c.next a site act).calls := by
  have hwith : ∀ {ε : Type} now models (result : Except ε Report),
      c.calls <+: c.callsWith site now models result := by
    intro ε now models result
    cases result with
    | ok report => exact List.prefix_append _ _
    | error e => exact List.prefix_refl _
  cases act <;> dsimp only [next] <;> (repeat' split) <;>
    first | exact List.prefix_refl _ | exact hwith _ _ _

theorem calls_run (a : Address) (site : Site) (c : Company) (acts : List Act) :
    c.calls <+: (c.run a site acts).calls := by
  induction acts generalizing c with
  | nil => exact List.prefix_refl _
  | cons act rest ih => exact (calls_next act).trans (ih _)

theorem entries_run (a : Address) (site : Site) (c : Company) (acts : List Act) :
    c.entries <+: (c.run a site acts).entries := by
  obtain ⟨more, hmore⟩ := calls_run a site c acts
  exact ⟨more.flatMap Call.entries, by rw [entries, entries, ← hmore, List.flatMap_append]⟩

theorem count_reported (h : Faithful site c) (name : String) (ch : Change) :
    (c.reported ch).count name = Entry.count name ch c.entries := by
  have hitems := h.itemized
  rw [reported, entries]
  generalize c.calls = calls at hitems
  induction calls with
  | nil => rfl
  | cons call rest ih =>
      obtain ⟨hcall, hrest⟩ := List.forall_mem_cons.mp hitems
      rw [List.flatMap_cons, List.count_append, ih hrest, hcall.1, Report.count_ofEntries,
        List.flatMap_cons, Entry.count, Entry.count, Entry.count, List.countP_append]

theorem mem_reported (h : Faithful site c) {name : String} :
    (∃ call ∈ c.calls, ∃ ch, name ∈ call.report.of ch) ↔ ∃ e ∈ c.entries, e.model.name = name := by
  constructor
  · rintro ⟨call, hcall, ch, hmem⟩
    rw [(h.itemized call hcall).1] at hmem
    obtain ⟨e, he, hname, -⟩ := Report.mem_ofEntries.mp hmem
    exact ⟨e, List.mem_flatMap.mpr ⟨call, hcall, he⟩, hname⟩
  · rintro ⟨e, he, hname⟩
    obtain ⟨call, hcall, he⟩ := List.mem_flatMap.mp he
    refine ⟨call, hcall, e.change, ?_⟩
    rw [(h.itemized call hcall).1]
    exact Report.mem_ofEntries.mpr ⟨e, he, hname, rfl⟩

/-- A row keeps the time of its creation through whatever comes later. -/
theorem createdAt_run (h : Faithful site c) {acts : List Act}
    (ha : a.LeadsTo site ∨ ∀ act ∈ acts, act.opens = false) {t t' : Table} {name : String}
    {row row' : Row} (ht : (c.workspace.volumeAt site).table = some t)
    (ht' : ((c.run a site acts).workspace.volumeAt site).table = some t')
    (hrow : t.get? name = some row) (hrow' : t'.get? name = some row') :
    row'.createdAt = row.createdAt := by
  obtain ⟨u, hu, hreplays⟩ := h.served
  obtain ⟨u', hu', hreplays'⟩ := (h.run ha).served
  obtain rfl := Option.some.inj (hu.table.symm.trans ht)
  obtain rfl := Option.some.inj (hu'.table.symm.trans ht')
  obtain ⟨e, he, hat⟩ := ((hreplays.written name).2 row hrow).creation
  obtain ⟨e', he', hat'⟩ := ((hreplays'.written name).2 row' hrow').creation
  -- the entry that created the row is among the earlier ones, and the first of all
  obtain ⟨more, hmore⟩ := entries_run a site c acts
  have hfind : Entry.creation? name (c.run a site acts).entries = some e := by
    rw [← hmore, Entry.creation?, List.find?_append, ← Entry.creation?, he, Option.some_or]
  obtain rfl := Option.some.inj (hfind.symm.trans he')
  rw [hat, hat']

/-- **The reports are a faithful log of the store.**  A company starts with any sessions on a store
whose table is empty, and does anything, with fewer than `2⁶²` documents created or updated.  Then
each report is of the entries of its call, one for each document in order, and of every name:

* it has a row just where a report lists it;
* if it has one, one entry of all reports lists it as created;
* the revision is one more than the number of times it is listed as updated;
* the document, the action and the level are those of the last entry that created or updated it;
* the time of creation is the one the row had at any earlier point at which there was one.

The store is in a file of the working directory, or outside of it, and acts may open it again; or it
is anywhere at all, in memory say, and they do not. -/
theorem row_of_reports (a : Address) (site : Site) (start : Company) (acts : List Act)
    (hstart : start.workspace.Serves site .empty) (hcalls : start.calls = [])
    (ha : a.LeadsTo site ∨ ∀ act ∈ acts, act.opens = false)
    (hfew : ((start.run a site acts).reported .created).length +
      ((start.run a site acts).reported .updated).length < 2 ^ 62) :
    let c := start.run a site acts
    (∀ call ∈ c.calls,
      call.report = .ofEntries call.entries ∧ call.entries.map Entry.model = call.models) ∧
    ∃ t, (c.workspace.volumeAt site).table = some t ∧ ∀ name,
      ((t.get? name).isSome ↔ ∃ call ∈ c.calls, ∃ ch, name ∈ call.report.of ch) ∧
      ∀ row, t.get? name = some row →
        (c.reported .created).count name = 1 ∧
        row.revision = .count (.ofNat ((c.reported .updated).count name + 1)) ∧
        (∃ e, Entry.latest? name c.entries = some e ∧
          row.document = .text e.model.document.text ∧
          row.action = e.model.document.action.name ∧
          row.level = e.model.document.level.name) ∧
        ∀ k t₀ row₀, ((start.run a site (acts.take k)).workspace.volumeAt site).table = some t₀ →
          t₀.get? name = some row₀ → row.createdAt = row₀.createdAt := by
  intro c
  have hfaithful : Faithful site start := by
    refine ⟨⟨.empty, hstart, ?_⟩, fun call hcall => ?_⟩
    · rw [entries, hcalls]
      exact .nil
    · rw [hcalls] at hcall
      nomatch hcall
  have hend := hfaithful.run ha
  obtain ⟨t, ht, hreplays⟩ := hend.served
  refine ⟨hend.itemized, t, ht.table, fun name => ⟨?_, fun row hrow => ?_⟩⟩
  · rw [mem_reported hend, hreplays.isSome_get?]
  · obtain ⟨honce, hrevision, -, ⟨e, he, hdocument, haction, hlevel, -⟩⟩ :=
      (hreplays.written name).2 row hrow
    refine ⟨?_, ?_, ⟨e, he, hdocument, haction, hlevel⟩, fun k t₀ row₀ ht₀ hrow₀ => ?_⟩
    · rw [count_reported hend, honce]
    · have hle : (c.reported .updated).count name ≤ (c.reported .updated).length :=
        List.count_le_length
      have hlt : (c.reported .updated).count name + 1 < 2 ^ 63 := by
        have hlen : (c.reported .created).length + (c.reported .updated).length < 2 ^ 62 := hfew
        omega
      rw [hrevision, ← count_reported hend, Revision.after_eq hlt]
    · have hsplit : start.run a site acts
          = (start.run a site (acts.take k)).run a site (acts.drop k) := by
        rw [run, run, run, ← List.foldl_append, List.take_append_drop]
      have hmid : Faithful site (start.run a site (acts.take k)) :=
        hfaithful.run (ha.imp id fun hall act hact => hall act (List.mem_of_mem_take hact))
      exact createdAt_run hmid (ha.imp id fun hall act hact => hall act (List.mem_of_mem_drop hact))
        ht₀ (hsplit ▸ ht.table) hrow₀ hrow

/-- The company of one session on a store that was just made, at a path. -/
def founded (path : String) : Company where
  workspace := (({} : Workspace).openMigrated (.path path)).2
  members := [(0, {})]

theorem founded_serves : (founded "s.db").workspace.Serves (.file ["s.db"]) .empty := by
  have htable : ((founded "s.db").workspace.volumeAt (.file ["s.db"])).table.map Table.rows
      = some [] := by
    decide +kernel
  obtain ⟨t, ht, hrows⟩ := Option.map_eq_some_iff.mp htable
  refine ⟨ht.trans (congrArg some (Table.rows_injective hrows)), fun e he => ?_⟩
  have hall : (founded "s.db").workspace.connections.all
      (fun e => e.2.site = .file ["s.db"] && e.2.frozen.isNone) = true := by
    decide +kernel
  have hleads := List.all_eq_true.mp hall e he
  rw [Bool.and_eq_true, decide_eq_true_eq, Option.isNone_iff_eq_none] at hleads
  exact ⟨hleads.1, hleads.2⟩

theorem leadsTo_founded : (Address.path "s.db").LeadsTo (.file ["s.db"]) :=
  ⟨{ path := [115, 46, 100, 98] }, by decide +kernel, by decide +kernel, by decide, rfl, {},
    by decide +kernel⟩

/-- A second session joins, is refused while the lock is held, and is opened again. -/
theorem row_of_second_session :
    let acts : List Act := [.register 0 (.bare "Photo"), .connect, .synchronize 0 ⟨0, 0, 0⟩, .lock,
      .sync 1 ⟨1, 0, 0⟩ [.bare "Post"], .unlock, .reopen 1, .sync 1 ⟨2, 0, 0⟩ [.bare "Post"]]
    let c := (founded "s.db").run (.path "s.db") (.file ["s.db"]) acts
    c.reported .created = ["Photo", "Post"] ∧
      ∃ t row, (c.workspace.volumeAt (.file ["s.db"])).table = some t ∧
        t.get? "Post" = some row ∧ row.revision = .count 1 := by
  intro acts c
  have hreported : c.reported .created = ["Photo", "Post"] ∧ c.reported .updated = [] := by
    decide +kernel
  obtain ⟨hcreated, hupdated⟩ := hreported
  have hfew : (c.reported .created).length + (c.reported .updated).length < 2 ^ 62 := by
    rw [hcreated, hupdated]
    decide
  obtain ⟨-, t, ht, hrows⟩ := row_of_reports (.path "s.db") (.file ["s.db"]) (founded "s.db") acts
    founded_serves rfl (.inl leadsTo_founded) hfew
  obtain ⟨hlisted, hrow⟩ := hrows "Post"
  have hmem : "Post" ∈ c.reported .created := by simp [hcreated]
  obtain ⟨call, hcall, hname⟩ := List.mem_flatMap.mp hmem
  obtain ⟨row, hget⟩ := Option.isSome_iff_exists.mp (hlisted.mpr ⟨call, hcall, .created, hname⟩)
  have hrevision := (hrow row hget).2.1
  rw [show (Company.run _ _ _ _).reported .updated = [] from hupdated] at hrevision
  exact ⟨hcreated, t, row, ht, hget, hrevision⟩

end Company

end Schemata

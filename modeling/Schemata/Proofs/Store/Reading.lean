import Mathlib.Data.String.Basic
import Schemata.Proofs.Document.Nested
import Schemata.Proofs.Instant
import Schemata.Proofs.Lists
import Schemata.Proofs.Store.Ledger

/-!
# Schemata — Proofs — Store — Reading

What is written to a store and what is read from it.  Calls on a new store all succeed, whatever the
compiled documents they are given (`Store.syncAll`); but a document in whose text more containers
are open at once than a reader allows is kept and never read again, and one such row keeps the whole
store from being listed.  `Store.read_back` is the exact condition, and `Store.unread_nested` a
declaration that a reader of its text accepts and whose document breaks it.

A row is read column by column (`Row.read_written`).  The documents of compiled models have distinct
names and the times of calls are those of clocks, so what is left to fail is the depth of the
document, and a revision past the end of 64-bit integers.
-/

namespace Schemata

/-! ### Calls in a row -/

/-- Calls that write documents: when, and which. -/
abbrev Calls := List (Instant × List Model)

/-- What each of some calls answers, and the store after them. -/
def Store.syncAll (s : Store) : Calls → List (Except StoreFault Report) × Store
  | [] => ([], s)
  | call :: rest =>
    let (answer, s) := s.sync call.1 call.2
    let (answers, s) := s.syncAll rest
    (answer :: answers, s)

/-- The model that calls were given last under a name. -/
def Calls.last? (calls : Calls) (name : String) : Option Model :=
  (calls.flatMap Prod.snd).reverse.find? (·.name = name)

theorem Calls.last?_eq_none {calls : Calls} {name : String} :
    calls.last? name = none ↔ ∀ m ∈ calls.flatMap Prod.snd, m.name ≠ name := by
  simp only [last?, List.find?_eq_none, List.mem_reverse, decide_eq_true_eq, ne_eq]

/-- How often reports list a name as updated. -/
def Report.updates (reports : List Report) (name : String) : Nat :=
  (reports.flatMap (of · .updated)).count name

/-- A store that was migrated just now. -/
def Store.fresh : Store where
  table := some .empty

theorem Table.mem_entries {t : Table} {now : String} {models : List Model} {e : Entry}
    (h : e ∈ t.entries now models) : e.now = now := by
  induction models generalizing t with
  | nil => nomatch h
  | cons m rest ih =>
      unfold entries at h
      split at h
      · rcases List.mem_cons.mp h with rfl | h
        · rfl
        · exact ih h
      · nomatch h

/-- **Calls on a store that nothing keeps from being written all succeed** and replay their
entries. -/
theorem Store.syncAll_of_no_barrier {s : Store} {t : Table} (hb : s.barrier = none)
    (ht : s.table = some t) (htext : t.IsText) (calls : Calls) :
    ∃ reports es t', s.syncAll calls = (reports.map .ok, { s with table := some t' }) ∧
      Table.Replays t es t' ∧ es.map Entry.model = calls.flatMap Prod.snd ∧
      (∀ e ∈ es, ∃ call ∈ calls, e.now = call.1.text) ∧
      ∀ name, Report.updates reports name = Entry.count name .updated es := by
  induction calls generalizing s t with
  | nil => exact ⟨[], [], t, by rw [← ht]; rfl, .nil, rfl, nofun, fun _ => rfl⟩
  | cons call rest ih =>
      obtain ⟨report, hreport⟩ := sync_of_no_barrier hb ht htext call.1 call.2
      obtain ⟨t₁, hs₁, hreplays, hmodels, rfl⟩ :=
        replays_of_sync ht (Prod.ext hreport rfl : s.sync call.1 call.2 = (.ok report, _))
      obtain ⟨reports, es, t', hall, hreplays', hmodels', hnow, hupdates⟩ :=
        @ih { s with table := some t₁ } t₁ hb rfl (hreplays.isText htext)
      refine ⟨.ofEntries (t.entries call.1.text call.2) :: reports,
        t.entries call.1.text call.2 ++ es, t', ?_, hreplays.append hreplays', ?_, ?_,
        fun name => ?_⟩
      · have hcall : s.sync call.1 call.2 = (.ok (.ofEntries (t.entries call.1.text call.2)),
            { s with table := some t₁ }) := Prod.ext hreport hs₁
        simp only [syncAll, hcall, hall, List.map_cons]
      · rw [List.map_append, hmodels, hmodels', List.flatMap_cons]
      · intro e he
        rcases List.mem_append.mp he with he | he
        · exact ⟨call, List.mem_cons_self, Table.mem_entries he⟩
        · obtain ⟨call', hcall', hnow'⟩ := hnow e he
          exact ⟨call', List.mem_cons_of_mem _ hcall', hnow'⟩
      · rw [Report.updates, List.flatMap_cons, List.count_append, Report.count_ofEntries,
          ← Report.updates, hupdates, Entry.count, Entry.count, Entry.count, List.countP_append]

/-- A document is created, and then updated by one with another text. -/
theorem Store.syncAll_revised (now now' : Instant) (name : String) {d d' : Document}
    (hne : d.text ≠ d'.text) :
    (fresh.syncAll [(now, [⟨name, d⟩]), (now', [⟨name, d'⟩])]).1
      = [.ok { created := [name] }, .ok { updated := [name] }] := by
  have hfirst : fresh.sync now [⟨name, d⟩] = (.ok { created := [name] },
      { table := some (Table.empty.put name (.first d now.text)) }) := rfl
  have hchange := @Table.change_of_text_ne _ now'.text ⟨name, d'⟩ _ _
    (Table.get?_put_self .empty name (.first d now.text)) (Row.document_first d now.text) hne
  have hsecond := sync_of_change (s := { table := some _ }) rfl rfl hchange
  simp only [syncAll, hfirst, hsecond]
  rfl

/-! ### Reading a row -/

/-- Past the end of 64-bit integers a revision is no integer. -/
theorem Revision.after_eq_inexact {k : Nat} (h : 2 ^ 63 ≤ k + 1) : after k = .inexact := by
  induction k with
  | zero => simp at h
  | succ k ih =>
      by_cases hk : 2 ^ 63 ≤ k + 1
      · rw [after, ih hk]
        rfl
      · have hmax : ¬ Int64.ofNat (k + 1) < Int64.maxValue := by
          rw [Int64.lt_iff_toInt_lt, Int64.toInt_ofNat_of_lt (by omega), Int64.toInt_maxValue]
          omega
        rw [after, after_eq (by omega), next, if_neg hmax]

/-- A document whose text a reader reads, under a revision that is an integer: so many updates after
the first. -/
structure Document.Fits (d : Document) (updates : Nat) : Prop where
  depth : d.toJson.depth ≤ Json.maxDepth
  count : updates + 1 < 2 ^ 63

/-- What is read of a document that was updated so often, with what its numbers are read as, or why
nothing is: its text is too deep, or its revision is no integer. -/
def Document.readAs (d : Document) (name : String) (updates : Nat) (createdAt updatedAt : Instant) :
    Except StoreFault StoredModel :=
  if Json.maxDepth < d.toJson.depth then .error (.unreadable 1)
  else if 2 ^ 63 ≤ updates + 1 then .error (.mistyped 4)
  else .ok {
    name
    document := d.reread
    action := d.action
    level := d.level
    revision := .ofNat (updates + 1)
    createdAt
    updatedAt }

theorem Document.readAs_ok_iff {d : Document} {name : String} {updates : Nat}
    {createdAt updatedAt : Instant} :
    (∃ m, d.readAs name updates createdAt updatedAt = .ok m) ↔ d.Fits updates := by
  unfold readAs
  constructor
  · rintro ⟨m, h⟩
    split at h
    · nomatch h
    · split at h
      · nomatch h
      · exact ⟨by omega, by omega⟩
  · rintro ⟨hdepth, hcount⟩
    rw [if_neg (by omega), if_neg (by omega)]
    exact ⟨_, rfl⟩

/-- A row is read as what was written to it. -/
theorem Row.read_written {row : Row} {d : Document} {updates : Nat} {createdAt updatedAt : Instant}
    (hd : Properties.Distinct d.properties) (hdocument : row.document = .text d.text)
    (haction : row.action = d.action.name) (hlevel : row.level = d.level.name)
    (hrevision : row.revision = .after updates)
    (hcreated : row.createdAt = .text createdAt.text ∧ createdAt.OnClock)
    (hupdated : row.updatedAt = .text updatedAt.text ∧ updatedAt.OnClock) (name : String) :
    row.read name = d.readAs name updates createdAt updatedAt := by
  have htext := Document.ofText?_text hd
  have hcreated' := Instant.ofText?_text hcreated.2
  have hupdated' := Instant.ofText?_text hupdated.2
  rw [read, hdocument, haction, hlevel, hrevision, hcreated.1, hupdated.1, Document.readAs]
  by_cases hdepth : Json.maxDepth < d.toJson.depth
  · have hnone : Document.ofText? d.text = none := by rw [htext, if_neg (by omega)]
    simp [bind, Except.bind, parsed, column, hnone, hdepth]
  · have hsome : Document.ofText? d.text = some d.reread := by rw [htext, if_pos (by omega)]
    rw [if_neg hdepth]
    simp only [bind, Except.bind, parsed, column, hsome, hcreated', hupdated',
      ValidationAction.ofName?_name, ValidationLevel.ofName?_name]
    by_cases hcount : 2 ^ 63 ≤ updates + 1
    · rw [if_pos hcount, Revision.after_eq_inexact hcount]
    · rw [if_neg hcount, Revision.after_eq (by omega)]
      rfl

/-! ### Reading everything -/

/-- The rows of a table are those that it has under their names. -/
theorem Table.mem_rows_iff {t : Table} {e : String × Row} :
    e ∈ t.rows ↔ t.get? e.1 = some e.2 := by
  constructor
  · intro he
    rw [get?, Option.map_eq_some_iff]
    cases hfind : t.rows.find? (·.1 = e.1) with
    | none =>
        have := List.find?_eq_none.mp hfind e he
        simp at this
    | some f =>
        have hname : f.1 = e.1 := by simpa using List.find?_some hfind
        have hf := List.mem_of_find?_eq_some hfind
        have hsymm : Std.Symm fun a b : String × Row => a.1 ≠ b.1 := ⟨fun _ _ => Ne.symm⟩
        have hapart : t.rows.Pairwise fun a b => a.1 ≠ b.1 := t.ascending.imp ne_of_lt
        refine ⟨f, rfl, congrArg Prod.snd (Classical.byContradiction fun hne => ?_)⟩
        exact hapart.forall hf he hne hname
  · intro h
    obtain ⟨f, hf, hrow⟩ := Option.map_eq_some_iff.mp h
    have hname : f.1 = e.1 := by simpa using List.find?_some hf
    have he : f = e := Prod.ext hname hrow
    exact he ▸ List.mem_of_find?_eq_some hf

theorem Store.get?_of_table {s : Store} {t : Table} (hb : s.barrier = none)
    (ht : s.table = some t) (name : String) :
    s.get? name = match t.get? name with
      | some row => (row.read name).map some
      | none     => .ok none := by
  have hmigrated : s.migratedTable = .ok t := migratedTable_of_table (by simp [seal?, hb]) ht
  rw [get?, hmigrated]
  rfl

theorem Store.list_of_table {s : Store} {t : Table} (hb : s.barrier = none)
    (ht : s.table = some t) : s.list = t.rows.mapM fun e => e.2.read e.1 := by
  have hmigrated : s.migratedTable = .ok t := migratedTable_of_table (by simp [seal?, hb]) ht
  rw [list, hmigrated]
  rfl

/-- The row of a name is read as the document that came last under it. -/
theorem Table.Replays.exists_read {t : Table} {es : List Entry} {calls : Calls}
    (h : Replays .empty es t) (hmodels : es.map Entry.model = calls.flatMap Prod.snd)
    (hnow : ∀ e ∈ es, ∃ call ∈ calls, e.now = call.1.text)
    (hclock : ∀ call ∈ calls, call.1.OnClock)
    (hcompiled : ∀ call ∈ calls, ∀ m ∈ call.2, m.Compiled) {name : String} {m : Model}
    (hlast : calls.last? name = some m) :
    ∃ row createdAt updatedAt, t.get? name = some row ∧ row.read name
      = m.document.readAs name (Entry.count name .updated es) createdAt updatedAt := by
  have hname : m.name = name := by simpa using List.find?_some hlast
  have hdistinct : ∀ m ∈ calls.flatMap Prod.snd, Properties.Distinct m.document.properties := by
    intro m hm
    obtain ⟨call, hcall, hm⟩ := List.mem_flatMap.mp hm
    exact (hcompiled call hcall m hm).distinct
  have hentry : ∀ e ∈ es, Properties.Distinct e.model.document.properties := fun e he =>
    hdistinct _ (hmodels ▸ List.mem_map_of_mem he)
  obtain ⟨row, hrow, htext⟩ : t.Holds m := by
    refine h.holds_of_last ?_
    rw [hmodels, hname]
    exact hlast
  rw [hname] at hrow
  obtain ⟨-, hrevision, ⟨first, hfirst, hcreated⟩, latest, hlatest, hdocument, haction, hlevel,
    hupdated⟩ := (h.written name).2 row hrow
  have hfirst' := List.mem_of_find?_eq_some hfirst
  have hlatest' := (List.mem_filter.mp (List.mem_of_getLast? hlatest)).1
  -- the entry that last changed the row has the text that came last, and so the document
  have hsame : latest.model.document = m.document := by
    refine Document.eq_of_text_eq (hentry _ hlatest')
      (hdistinct m (List.mem_reverse.mp (List.mem_of_find?_eq_some hlast))) ?_
    rw [htext] at hdocument
    exact (Cell.text.inj hdocument).symm
  obtain ⟨call, hcall, hfirstNow⟩ := hnow _ hfirst'
  obtain ⟨call', hcall', hlatestNow⟩ := hnow _ hlatest'
  rw [hsame] at hdocument haction hlevel
  exact ⟨row, call.1, call'.1, hrow, Row.read_written (hsame ▸ hentry _ hlatest') hdocument haction
    hlevel hrevision ⟨hcreated.trans (congrArg Cell.text hfirstNow), hclock _ hcall⟩
    ⟨hupdated.trans (congrArg Cell.text hlatestNow), hclock _ hcall'⟩ name⟩

/-- **What calls on a new store leave to be read.**  They all succeed.  A name they were given is
read as the document it was given last, if that fits, and else there is a fault; what is read has
what the numbers of the document are read as, so it is that very document just where its numbers
last.  Any other name is not there; and the store is listed just where every document that a name
was given last fits. -/
theorem Store.read_back (calls : Calls) (hclock : ∀ call ∈ calls, call.1.OnClock)
    (hcompiled : ∀ call ∈ calls, ∀ m ∈ call.2, m.Compiled) :
    ∃ reports s, Store.fresh.syncAll calls = (reports.map .ok, s) ∧
      (∀ name, calls.last? name = none → s.get? name = .ok none) ∧
      (∀ name m, calls.last? name = some m → ∃ createdAt updatedAt, s.get? name
        = (m.document.readAs name (Report.updates reports name) createdAt updatedAt).map some ∧
        (m.document.reread = m.document ↔ m.document.toJson.Lasts)) ∧
      ((∃ rows, s.list = .ok rows) ↔ ∀ name m, calls.last? name = some m →
        m.document.Fits (Report.updates reports name)) := by
  obtain ⟨reports, es, t, hall, hreplays, hmodels, hnow, hupdates⟩ :=
    syncAll_of_no_barrier (s := .fresh) rfl rfl Table.isText_empty calls
  have hread := fun name m => @hreplays.exists_read _ _ _ hmodels hnow hclock hcompiled name m
  refine ⟨reports, _, hall, fun name hnone => ?_, fun name m hlast => ?_, ?_⟩
  · have hne : ∀ e ∈ es, e.model.name ≠ name := fun e he =>
      Calls.last?_eq_none.mp hnone _ (hmodels ▸ List.mem_map_of_mem he)
    rw [get?_of_table rfl rfl, hreplays.get?_of_forall_ne hne]
    rfl
  · obtain ⟨row, createdAt, updatedAt, hrow, hread⟩ := hread name m hlast
    have hmem := List.mem_reverse.mp (List.mem_of_find?_eq_some hlast)
    obtain ⟨call, hcall, hm⟩ := List.mem_flatMap.mp hmem
    refine ⟨createdAt, updatedAt, ?_,
      Document.reread_eq_self_iff (hcompiled call hcall m hm).distinct⟩
    rw [get?_of_table rfl rfl, hrow, hupdates]
    simp only [hread]
  · rw [list_of_table rfl rfl, mapM_ok_iff]
    constructor
    · intro hrows name m hlast
      obtain ⟨row, createdAt, updatedAt, hrow, hread⟩ := hread name m hlast
      obtain ⟨stored, hstored⟩ := hrows (name, row) (Table.mem_rows_iff.mpr hrow)
      rw [hupdates]
      exact Document.readAs_ok_iff.mp ⟨stored, hread.symm.trans hstored⟩
    · intro hfits e he
      have hget := Table.mem_rows_iff.mp he
      obtain ⟨entry, hentry, hname⟩ :=
        hreplays.isSome_get?.mp (Option.isSome_iff_exists.mpr ⟨_, hget⟩)
      cases hlast : calls.last? e.1 with
      | none =>
          have hmem : entry.model ∈ calls.flatMap Prod.snd := hmodels ▸ List.mem_map_of_mem hentry
          exact absurd hname (Calls.last?_eq_none.mp hlast _ hmem)
      | some m =>
          obtain ⟨row, createdAt, updatedAt, hrow, hread⟩ := hread e.1 m hlast
          obtain rfl := Option.some.inj (hget.symm.trans hrow)
          rw [hread, Document.readAs_ok_iff, ← hupdates]
          exact hfits e.1 m hlast

/-- Two calls with documents that fit, the second of them an update. -/
theorem Store.read_back_nested :
    let calls : Calls :=
      [(⟨0, 0, 0⟩, [⟨"Deep", .nested 0⟩]), (⟨1, 0, 0⟩, [⟨"Deep", .nested 1⟩])]
    (∀ call ∈ calls, call.1.OnClock) ∧ (∀ call ∈ calls, ∀ m ∈ call.2, m.Compiled) ∧
      ∃ s, Store.fresh.syncAll calls
          = ([.ok { created := ["Deep"] }, .ok { updated := ["Deep"] }], s) ∧
        (∃ stored, s.get? "Deep" = .ok (some stored) ∧ stored.document = .nested 1 ∧
          stored.revision = 2) ∧
        ∃ rows, s.list = .ok rows := by
  intro calls
  have hclock : ∀ call ∈ calls, call.1.OnClock := by
    intro call hcall
    simp only [calls, List.mem_cons, List.not_mem_nil, or_false] at hcall
    rcases hcall with rfl | rfl <;> exact ⟨by decide, by decide, by decide⟩
  have hcompiled : ∀ call ∈ calls, ∀ m ∈ call.2, m.Compiled := by
    intro call hcall m hm
    simp only [calls, List.mem_cons, List.not_mem_nil, or_false] at hcall
    rcases hcall with rfl | rfl <;> exact List.mem_singleton.mp hm ▸ Model.compiled_nested _
  obtain ⟨reports, s, hall, -, hget, hlist⟩ := read_back calls hclock hcompiled
  have hanswers : (Store.fresh.syncAll calls).1
      = [.ok { created := ["Deep"] }, .ok { updated := ["Deep"] }] :=
    syncAll_revised _ _ _ fun htext => nomatch Document.text_nested_injective htext
  have hreports : reports = [{ created := ["Deep"] }, { updated := ["Deep"] }] := by
    rw [hall] at hanswers
    exact List.map_injective_iff.mpr (fun _ _ => Except.ok.inj) hanswers
  subst hreports
  have hupdates : ∀ name, Report.updates [{ created := ["Deep"] }, { updated := ["Deep"] }] name
      = if name = "Deep" then 1 else 0 := by
    intro name
    by_cases hname : name = "Deep" <;> simp [Report.updates, Report.of, hname, eq_comm]
  refine ⟨hclock, hcompiled, s, hall, ?_, hlist.mpr fun name m hlast => ?_⟩
  · obtain ⟨createdAt, updatedAt, hget, -⟩ := hget "Deep" ⟨"Deep", .nested 1⟩ rfl
    rw [hupdates, if_pos rfl, Document.readAs, Document.depth_nested, Document.reread_nested]
      at hget
    exact ⟨_, hget, rfl, rfl⟩
  · have hm := List.mem_reverse.mp (List.mem_of_find?_eq_some hlast)
    have hcount : Report.updates [{ created := ["Deep"] }, { updated := ["Deep"] }] name + 1
        < 2 ^ 63 := by
      rw [hupdates]
      split <;> decide
    simp only [calls, List.flatMap_cons, List.flatMap_nil, List.append_nil, List.cons_append,
      List.nil_append, List.mem_cons, List.not_mem_nil, or_false] at hm
    rcases hm with rfl | rfl <;> exact ⟨by rw [Document.depth_nested]; decide, hcount⟩

/-- A document that is stored and never read: 63 levels of maps, whose declaration is read from its
text.  The call succeeds, and neither the name nor the store can be read after it. -/
theorem Store.unread_nested :
    Json.decode? Declaration.Model.read? (Declaration.Model.nested 63).toJson.render
      = some (.nested 63) ∧
    (Catalog.declareModel {} (.nested 63)).1 = .ok ⟨"Deep", .nested 63⟩ ∧
    ∃ (reports : List Report) (s : Store),
      Store.fresh.syncAll [(⟨0, 0, 0⟩, [⟨"Deep", .nested 63⟩])] = (reports.map .ok, s) ∧
      s.get? "Deep" = .error (.unreadable 1) ∧ ∀ rows, s.list ≠ .ok rows := by
  refine ⟨Declaration.Model.decode?_nested (by decide), Catalog.declareModel_nested 63, ?_⟩
  have hclock : ∀ call ∈ [((⟨0, 0, 0⟩, [⟨"Deep", .nested 63⟩]) : Instant × List Model)],
      call.1.OnClock := by
    intro call hcall
    obtain rfl := List.mem_singleton.mp hcall
    exact ⟨by decide, by decide, by decide⟩
  have hcompiled : ∀ call ∈ [((⟨0, 0, 0⟩, [⟨"Deep", .nested 63⟩]) : Instant × List Model)],
      ∀ m ∈ call.2, m.Compiled := by
    intro call hcall m hm
    obtain rfl := List.mem_singleton.mp hcall
    obtain rfl := List.mem_singleton.mp hm
    exact Model.compiled_nested 63
  obtain ⟨reports, es, t, hall, hreplays, hmodels, hnow, -⟩ := syncAll_of_no_barrier (s := .fresh)
    rfl rfl Table.isText_empty [(⟨0, 0, 0⟩, [⟨"Deep", .nested 63⟩])]
  obtain ⟨row, createdAt, updatedAt, hrow, hread⟩ := @hreplays.exists_read _ _ _ hmodels hnow
    hclock hcompiled "Deep" ⟨"Deep", .nested 63⟩ rfl
  rw [Document.readAs, Document.depth_nested, if_pos (by decide)] at hread
  refine ⟨reports, _, hall, ?_, fun rows hrows => ?_⟩
  · rw [get?_of_table rfl rfl, hrow]
    simp only [hread]
    rfl
  · rw [list_of_table rfl rfl] at hrows
    obtain ⟨stored, hstored⟩ := mapM_ok_iff.mp ⟨rows, hrows⟩ ("Deep", row)
      (Table.mem_rows_iff.mpr hrow)
    nomatch hread.symm.trans hstored

end Schemata

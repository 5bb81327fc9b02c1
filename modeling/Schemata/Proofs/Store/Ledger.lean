import Mathlib.Algebra.Group.Nat.Defs
import Schemata.Proofs.Store.Writing

/-!
# Schemata — Proofs — Store — Ledger

The entries of calls, one for each document: the model, the time of the call and what became of the
document.  Entries replay: a table and the entries of a call give the table after it
(`Table.Replays`), and the report of the call is the names of its entries sorted by what became of
each (`Report.ofEntries`).

The last entry of a name leaves its model stored (`Table.Replays.holds_of_last`), and rows that no
entry tells of are as they were (`Table.Replays.get?_of_forall_ne`).

What a list of entries says of one name is read off without a table: the entry that created it,
how often it was updated, the last entry that changed it.  `Table.Replays.written` says that the row
of a name, if the entries replay from an empty table, is what they say.
-/

namespace Schemata

/-- A document that a call was given, the time of the call, and what became of the document. -/
structure Entry where
  model : Model
  now : String
  change : Change

namespace Entry

/-- Whether an entry tells of a name, and of such a change. -/
def is (name : String) (c : Change) (e : Entry) : Bool := e.model.name = name && e.change = c

/-- Whether an entry tells that the document of a name changed. -/
def changes (name : String) (e : Entry) : Bool := e.model.name = name && e.change ≠ .unchanged

/-- The entry that created a name. -/
def creation? (name : String) (es : List Entry) : Option Entry := es.find? (is name .created)

/-- The last entry that changed a name. -/
def latest? (name : String) (es : List Entry) : Option Entry := (es.filter (changes name)).getLast?

/-- How many entries there are of a name and of a change. -/
def count (name : String) (c : Change) (es : List Entry) : Nat := es.countP (is name c)

end Entry

/-! ### Reports -/

namespace Report

/-- The names of entries, by what became of each. -/
def ofEntries (es : List Entry) : Report := es.foldl (fun r e => r.add e.model.name e.change) {}

/-- The names that a report lists under a change. -/
def of (r : Report) : Change → List String
  | .created   => r.created
  | .updated   => r.updated
  | .unchanged => r.unchanged

theorem of_add (r : Report) (name : String) (c d : Change) :
    (r.add name c).of d = if c = d then r.of d ++ [name] else r.of d := by
  cases c <;> cases d <;> rfl

theorem of_foldl (es : List Entry) (r : Report) (c : Change) :
    (es.foldl (fun r e => r.add e.model.name e.change) r).of c
      = r.of c ++ (es.filter (·.change = c)).map (·.model.name) := by
  induction es generalizing r with
  | nil => simp
  | cons e es ih =>
      rw [List.foldl_cons, ih, of_add]
      by_cases h : e.change = c <;> simp [h]

theorem of_ofEntries (es : List Entry) (c : Change) :
    (ofEntries es).of c = (es.filter (·.change = c)).map (·.model.name) := by
  rw [ofEntries, of_foldl]
  cases c <;> rfl

/-- A name is listed under a change as often as there are entries of both. -/
theorem count_ofEntries (es : List Entry) (name : String) (c : Change) :
    ((ofEntries es).of c).count name = Entry.count name c es := by
  rw [of_ofEntries, List.count, List.countP_map, List.countP_filter, Entry.count]
  refine List.countP_congr fun e _ => ?_
  simp [Entry.is]

theorem mem_ofEntries {es : List Entry} {name : String} {c : Change} :
    name ∈ (ofEntries es).of c ↔ ∃ e ∈ es, e.model.name = name ∧ e.change = c := by
  simp only [of_ofEntries, List.mem_map, List.mem_filter, decide_eq_true_eq]
  exact ⟨fun ⟨e, ⟨he, hc⟩, hn⟩ => ⟨e, he, hn, hc⟩, fun ⟨e, he, hn, hc⟩ => ⟨e, ⟨he, hc⟩, hn⟩⟩

end Report

/-! ### Replaying entries -/

namespace Table

/-- The entries of documents that are written in order, up to one that fails. -/
def entries (now : String) : Table → List Model → List Entry
  | _, [] => []
  | t, m :: rest =>
    match t.change now m with
    | .ok (c, t') => ⟨m, now, c⟩ :: entries now t' rest
    | .error _    => []

/-- A table becomes another by the changes that entries tell of. -/
inductive Replays : Table → List Entry → Table → Prop where
  | nil {t : Table} : Replays t [] t
  | snoc {t t' t'' : Table} {es : List Entry} {e : Entry} :
      Replays t es t' → t'.change e.now e.model = .ok (e.change, t'') → Replays t (es ++ [e]) t''

namespace Replays

theorem single {t t' : Table} {e : Entry} (h : t.change e.now e.model = .ok (e.change, t')) :
    Replays t [e] t' :=
  .snoc .nil h

theorem append {t t' t'' : Table} {es es' : List Entry} (h : Replays t es t')
    (h' : Replays t' es' t'') : Replays t (es ++ es') t'' := by
  induction h' with
  | nil => rwa [List.append_nil]
  | snoc _ hc ih => rw [← List.append_assoc]; exact .snoc ih hc

theorem isText {t t' : Table} {es : List Entry} (h : Replays t es t') (ht : t.IsText) :
    t'.IsText := by
  induction h with
  | nil => exact ht
  | snoc _ hc ih => exact isText_change ih hc

end Replays

/-- The entries of a call replay to the table that it leaves, and its report tells of them. -/
theorem replays_of_foldlM_write {barrier : Option Barrier} {now : String} {models : List Model}
    {t : Table} {report : Report} {out : Table × Report}
    (h : models.foldlM (write barrier now) (t, report) = .ok out) :
    Replays t (t.entries now models) out.1 ∧
      (t.entries now models).map Entry.model = models ∧
      out.2 = (t.entries now models).foldl (fun r e => r.add e.model.name e.change) report := by
  -- the table and the report are what the documents before made of them
  induction models generalizing t report with
  | nil =>
      obtain rfl := Except.ok.inj h
      exact ⟨.nil, rfl, rfl⟩
  | cons m rest ih =>
      rw [List.foldlM_cons] at h
      cases hw : write barrier now (t, report) m with
      | error e => rw [hw] at h; nomatch h
      | ok mid =>
          obtain ⟨c, hc, hreport, -⟩ := write_cases hw
          rw [hw] at h
          obtain ⟨hreplays, hmodels, hout⟩ := @ih mid.1 mid.2 h
          rw [entries, hc]
          refine ⟨(Replays.single hc : Replays t [⟨m, now, c⟩] mid.1).append hreplays, ?_, ?_⟩
          · rw [List.map_cons, hmodels]
          · rw [hout, hreport, List.foldl_cons]

end Table

/-- A call that succeeds on a table replays its entries and reports them. -/
theorem Store.replays_of_sync {s s' : Store} {now : Instant} {models : List Model}
    {report : Report} {t : Table} (ht : s.table = some t)
    (h : s.sync now models = (.ok report, s')) :
    ∃ t', s' = { s with table := some t' } ∧ Table.Replays t (t.entries now.text models) t' ∧
      (t.entries now.text models).map Entry.model = models ∧
      report = .ofEntries (t.entries now.text models) := by
  by_cases hne : models = []
  · subst hne
    obtain ⟨hr, rfl⟩ := Prod.mk.inj h
    obtain rfl := Except.ok.inj hr
    exact ⟨t, by rw [← ht], .nil, rfl, rfl⟩
  -- a call with documents succeeds with what its transaction made of the table
  · cases hsynced : s.synced now.text models with
    | error e =>
        rw [sync_of_synced_error hne hsynced] at h
        exact absurd (Prod.mk.inj h).1 (by simp)
    | ok out =>
        obtain ⟨t', report'⟩ := out
        rw [sync_of_synced hne hsynced] at h
        obtain ⟨hr, rfl⟩ := Prod.mk.inj h
        obtain rfl := Except.ok.inj hr
        have hseal : s.seal? = none := by
          cases hs : s.seal? with
          | none => rfl
          | some fault => simp [synced, migratedTable, hs, bind, Except.bind] at hsynced
        rw [synced_of_table hseal ht] at hsynced
        exact ⟨t', rfl, Table.replays_of_foldlM_write hsynced⟩

/-! ### Names after entries -/

namespace Table

variable {t t' : Table} {now : String} {m : Model} {c : Change}

/-- What was written is stored, whatever became of it. -/
theorem holds_of_change (h : t.change now m = .ok (c, t')) : t'.Holds m := by
  rcases change_cases h with ⟨-, -, rfl⟩ | ⟨-, hm, rfl⟩ | ⟨-, row, -, -, -, -, rfl⟩
  · exact ⟨_, get?_put_self .., Row.document_first m.document now⟩
  · exact hm
  · exact ⟨_, get?_put_self .., Row.document_revise row m.document now⟩

theorem get?_of_change {name : String} (h : t.change now m = .ok (c, t')) (hn : name ≠ m.name) :
    t'.get? name = t.get? name := by
  rcases change_cases h with ⟨-, -, rfl⟩ | ⟨-, -, rfl⟩ | ⟨-, _, _, -, -, -, rfl⟩
  · exact get?_put_of_ne t _ hn
  · rfl
  · exact get?_put_of_ne t _ hn

/-- The rows of names that no entry tells of are as before. -/
theorem Replays.get?_of_forall_ne {es : List Entry} (h : Replays t es t') {name : String}
    (hn : ∀ e ∈ es, e.model.name ≠ name) : t'.get? name = t.get? name := by
  induction h with
  | nil => rfl
  | snoc _ hc ih =>
      rw [get?_of_change hc (hn _ (by simp)).symm]
      exact ih fun e he => hn e (List.mem_append_left _ he)

/-- The model of the last entry of a name is stored. -/
theorem Replays.holds_of_last {es : List Entry} (h : Replays t es t')
    (hm : (es.map Entry.model).reverse.find? (·.name = m.name) = some m) : t'.Holds m := by
  induction h with
  | nil => nomatch hm
  | @snoc t₁ t₂ es e _ hc ih =>
      rw [List.map_append, List.reverse_append] at hm
      -- the last entry stores the model, or it is of another name and takes nothing away
      by_cases hn : e.model.name = m.name
      · have he : e.model = m := by simpa [hn] using hm
        exact he ▸ holds_of_change hc
      · obtain ⟨row, hrow, hd⟩ := ih (by simpa [hn] using hm)
        exact ⟨row, by rw [get?_of_change hc (Ne.symm hn), hrow], hd⟩

end Table

/-! ### What entries say of a name -/

/-- The revision after so many updates. -/
def Revision.after : Nat → Revision
  | 0     => .count 1
  | k + 1 => (after k).next

/-- Revisions count until they reach the end of 64-bit integers. -/
theorem Revision.after_eq {k : Nat} (h : k + 1 < 2 ^ 63) :
    after k = .count (Int64.ofNat (k + 1)) := by
  induction k with
  | zero => rfl
  | succ k ih =>
      have hlt : Int64.ofNat (k + 1) < Int64.maxValue := by
        rw [Int64.lt_iff_toInt_lt, Int64.toInt_ofNat_of_lt (by omega), Int64.toInt_maxValue]
        omega
      rw [after, ih (by omega), next, if_pos hlt, Int64.ofNat_add (k + 1) 1]
      rfl

/-- A row is what entries say of its name: one of them created it, each that updated it counts for
a revision, and the last that changed it left its document and settings. -/
structure Row.WrittenBy (es : List Entry) (name : String) (row : Row) : Prop where
  once : Entry.count name .created es = 1
  revision : row.revision = .after (Entry.count name .updated es)
  creation : ∃ e, Entry.creation? name es = some e ∧ row.createdAt = .text e.now
  latest : ∃ e, Entry.latest? name es = some e ∧ row.document = .text e.model.document.text ∧
    row.action = e.model.document.action.name ∧ row.level = e.model.document.level.name ∧
    row.updatedAt = .text e.now

namespace Row.WrittenBy

open Entry

variable {es : List Entry} {name : String} {row : Row} {e : Entry}

/-- An entry of another name, or of no change, says nothing of a name that is there. -/
theorem snoc_of_not_changes (h : WrittenBy es name row) (he : e.changes name = false) :
    WrittenBy (es ++ [e]) name row := by
  have hcreated : e.is name .created = false := by
    cases hc : e.change <;> simp_all [changes, is]
  have hupdated : e.is name .updated = false := by
    cases hc : e.change <;> simp_all [changes, is]
  obtain ⟨first, hfirst, hat⟩ := h.creation
  obtain ⟨last, hlast, hrow⟩ := h.latest
  refine ⟨?_, ?_, ⟨first, ?_, hat⟩, ⟨last, ?_, hrow⟩⟩
  · simpa [count, hcreated] using h.once
  · simpa [count, hupdated] using h.revision
  · rw [creation?, List.find?_append, ← creation?, hfirst]; rfl
  · simpa [latest?, he] using hlast

theorem latest?_snoc (he : e.changes name = true) : latest? name (es ++ [e]) = some e := by
  simp [latest?, he]

/-- The first entry of a name. -/
theorem first (hnew : ∀ e ∈ es, e.model.name ≠ name) {m : Model} {now : String}
    (hm : m.name = name) :
    WrittenBy (es ++ [⟨m, now, .created⟩]) name (.first m.document now) := by
  have hnone : ∀ c, ∀ e ∈ es, ¬ e.is name c = true := fun c e he => by simp [is, hnew e he]
  have hcount : ∀ c, count name c es = 0 := fun c => List.countP_eq_zero.mpr (hnone c)
  refine ⟨?_, ?_, ⟨⟨m, now, .created⟩, ?_, rfl⟩,
    ⟨⟨m, now, .created⟩, latest?_snoc ?_, document_first m.document now, rfl, rfl, rfl⟩⟩
  · simpa [count, is, hm] using hcount .created
  · simp only [count, List.countP_append, List.countP_singleton, is, hm, decide_true,
      Bool.true_and]
    rw [← count, hcount .updated]
    rfl
  · rw [creation?, List.find?_append, List.find?_eq_none.mpr (hnone .created)]
    simp [is, hm]
  · simp [changes, hm]

/-- One more update of a name. -/
theorem revise (h : WrittenBy es name row) {m : Model} {now : String} (hm : m.name = name) :
    WrittenBy (es ++ [⟨m, now, .updated⟩]) name (row.revise m.document now) := by
  obtain ⟨first, hfirst, hat⟩ := h.creation
  refine ⟨?_, ?_, ⟨first, ?_, (createdAt_revise row m.document now).trans hat⟩,
    ⟨⟨m, now, .updated⟩, latest?_snoc ?_, document_revise row m.document now, rfl, rfl, rfl⟩⟩
  · simpa [count, is] using h.once
  · simp only [Row.revise, count, List.countP_append, List.countP_singleton, is, hm, decide_true,
      Bool.true_and, if_true]
    rw [h.revision]
    rfl
  · rw [creation?, List.find?_append, ← creation?, hfirst]; rfl
  · simp [changes, hm]

end Row.WrittenBy

namespace Table.Replays

/-- **Entries are a faithful log.**  If they replay from the empty table, a name that none of them
tells of has no row, and any other has the row that they say. -/
theorem written {t : Table} {es : List Entry} (h : Replays .empty es t) (name : String) :
    (t.get? name = none → ∀ e ∈ es, e.model.name ≠ name) ∧
      ∀ row, t.get? name = some row → row.WrittenBy es name := by
  induction h with
  | nil => exact ⟨nofun, nofun⟩
  | @snoc t' t'' es e _ hc ih =>
      obtain ⟨hnew, hwritten⟩ := ih
      obtain ⟨m, now, c⟩ := e
      by_cases hn : m.name = name
      · subst hn
        rcases change_cases hc with ⟨rfl, hrow, rfl⟩ | ⟨rfl, ⟨row, hrow, -⟩, rfl⟩ |
          ⟨rfl, row, text, hrow, -, -, rfl⟩
        · rw [get?_put_self]
          refine ⟨nofun, fun row h => Option.some.inj h ▸ ?_⟩
          exact .first (hnew hrow) rfl
        · rw [hrow]
          refine ⟨nofun, fun row h => Option.some.inj h ▸ ?_⟩
          exact (hwritten _ hrow).snoc_of_not_changes (by simp [Entry.changes])
        · rw [get?_put_self]
          refine ⟨nofun, fun row h => Option.some.inj h ▸ ?_⟩
          exact (hwritten _ hrow).revise rfl
      -- an entry of another name leaves the row alone, and says nothing of it
      · rw [get?_of_change hc (Ne.symm hn)]
        refine ⟨fun hrow e he => ?_, fun row hrow => ?_⟩
        · rcases List.mem_append.mp he with he | he
          · exact hnew hrow e he
          · exact List.mem_singleton.mp he ▸ hn
        · exact (hwritten row hrow).snoc_of_not_changes (by simp [Entry.changes, hn])

/-- Just the names that entries tell of have rows. -/
theorem isSome_get? {t : Table} {es : List Entry} (h : Replays .empty es t) {name : String} :
    (t.get? name).isSome ↔ ∃ e ∈ es, e.model.name = name := by
  obtain ⟨hnew, hwritten⟩ := h.written name
  constructor
  · intro hsome
    obtain ⟨row, hrow⟩ := Option.isSome_iff_exists.mp hsome
    obtain ⟨e, he, -⟩ := (hwritten row hrow).creation
    have his := List.find?_some he
    rw [Entry.is, Bool.and_eq_true, decide_eq_true_eq] at his
    exact ⟨e, List.mem_of_find?_eq_some he, his.1⟩
  · rintro ⟨e, he, hname⟩
    cases hrow : t.get? name with
    | none => exact absurd hname (hnew hrow e he)
    | some row => rfl

end Table.Replays

end Schemata

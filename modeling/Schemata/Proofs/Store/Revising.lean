import Schemata.Proofs.Document.Reading
import Schemata.Proofs.Lists
import Schemata.Proofs.Store.Ledger

/-!
# Schemata — Proofs — Store — Revising

What one call makes of each name.  The documents of a name are written in the order of the call, so
each is compared with the one before it, and the first with what is stored (`Change.along`).  The
row receives one after another (`Row.receive`): one that changes nothing leaves the row as it is,
and any other counts for a revision and leaves its settings and the time of the call
(`Row.Rewritten.cons`).

* `Store.sync_revises`: the table and the report after a call, for every list of models.
-/

namespace Schemata

/-- The text that a row keeps of its document. -/
def Row.text? (r : Row) : Option String :=
  match r.document with
  | .text text => some text
  | .other     => none

/-- The documents that models give a name, in order. -/
def Model.documentsOf (name : String) (models : List Model) : List Document :=
  (models.filter (·.name = name)).map Model.document

/-! ### Documents one after another -/

/-- What a text is to the one before it, if there is one. -/
def Change.after : Option String → String → Change
  | none, _           => .created
  | some before, text => if before = text then .unchanged else .updated

/-- What each of the documents of a name is to the one before it; the first comes after the text
that is stored, if there is one. -/
def Change.along : Option String → List Document → List Change
  | _, []             => []
  | before, d :: rest => .after before d.text :: along (some d.text) rest

/-- The documents that are not the same as what is before them. -/
def Document.changing (before : Option String) (ds : List Document) : List Document :=
  ((ds.zip (Change.along before ds)).filter (·.2 ≠ .unchanged)).map Prod.fst

theorem Document.changing_cons (before : Option String) (d : Document) (ds : List Document) :
    changing before (d :: ds)
      = (if Change.after before d.text = .unchanged then [] else [d])
        ++ changing (some d.text) ds := by
  by_cases h : Change.after before d.text = .unchanged <;> simp [changing, Change.along, h]

/-- Another document changes what is stored, and what is stored changes it back. -/
theorem Document.changing_back {d e : Document} (h : d.text ≠ e.text) :
    changing (some d.text) [e, d] = [e, d] := by
  simp [changing, Change.along, Change.after, h, Ne.symm h]

/-! ### The revision -/

/-- A revision counts up to a number. -/
def Revision.Is (r : Revision) (k : Int) : Prop := ∃ n, r = .count n ∧ n.toInt = k

theorem Revision.Is.next {r : Revision} {k : Int} (h : r.Is k) (hk : k + 1 < 2 ^ 63) :
    r.next.Is (k + 1) := by
  obtain ⟨n, rfl, rfl⟩ := h
  have hlt : n < Int64.maxValue := by
    rw [Int64.lt_iff_toInt_lt, Int64.toInt_maxValue]
    omega
  have hmin := n.le_toInt
  refine ⟨n + 1, by rw [Revision.next, if_pos hlt], ?_⟩
  rw [Int64.toInt_add, Int64.toInt_one]
  exact Int.bmod_eq_of_le (by omega) (by omega)

/-! ### The row of a name -/

/-- The row of a name after a document that is written under it. -/
def Row.receive (now : String) (stored : Option Row) (d : Document) : Row :=
  match stored with
  | none   => .first d now
  | some r => if r.text? = some d.text then r else r.revise d now

/-- What a row is to the one that was stored before documents were written, if there was one: it has
the last text; it is as it was if nothing changed, and else has the settings of the last document
that changed something and the time of the call; it keeps the time of its creation; and each change
counts for a revision, the first of a new row being its creation. -/
structure Row.Rewritten (stored : Option Row) (now : String) (ds : List Document) (row : Row) :
    Prop where
  text : row.text? = (ds.getLast?.map Document.text).or (stored.bind Row.text?)
  kept : Document.changing (stored.bind Row.text?) ds = [] → stored = some row
  changed : ∀ d, (Document.changing (stored.bind Row.text?) ds).getLast? = some d →
    row.action = d.action.name ∧ row.level = d.level.name ∧ row.updatedAt = .text now
  createdAt : row.createdAt = (stored.map Row.createdAt).getD (.text now)
  revision : ∀ k : Int, (∀ r, stored = some r → r.revision.Is k) → (stored = none → k = 0) →
    k + (Document.changing (stored.bind Row.text?) ds).length < 2 ^ 63 →
    row.revision.Is (k + (Document.changing (stored.bind Row.text?) ds).length)

namespace Row

variable {stored : Option Row} {now : String} {d : Document} {ds : List Document} {row : Row}

theorem text?_first (d : Document) (now : String) : (first d now).text? = some d.text := by
  rw [text?, document_first]

theorem text?_revise (r : Row) (d : Document) (now : String) :
    (r.revise d now).text? = some d.text := by
  rw [text?, document_revise]

@[simp] theorem text?_receive (now : String) (stored : Option Row) (d : Document) :
    (receive now stored d).text? = some d.text := by
  unfold receive
  split
  · exact text?_first d now
  · split
    · assumption
    · exact text?_revise _ d now

/-- Before any document a row is the one that is stored. -/
theorem Rewritten.nil (r : Row) (now : String) : r.Rewritten (some r) now [] where
  text := rfl
  kept _ := rfl
  changed := nofun
  createdAt := rfl
  revision k hk _ _ := by simpa [Document.changing, Change.along] using hk r rfl

/-- A document that is the same as what is stored leaves the row as it is. -/
theorem receive_of_unchanged
    (h : Change.after (stored.bind Row.text?) d.text = .unchanged) (now : String) :
    stored = some (receive now stored d) := by
  cases stored with
  | none => nomatch h
  | some r =>
      have htext : r.text? = some d.text := by
        rw [Option.bind_some] at h
        cases htext : r.text? with
        | none => rw [htext] at h; nomatch h
        | some before =>
            simp only [Change.after, htext] at h
            split at h
            · next he => rw [he]
            · nomatch h
      rw [receive, if_pos htext]

/-- A document that changes something makes a new row, or another of the row that is stored. -/
theorem receive_of_changed
    (h : Change.after (stored.bind Row.text?) d.text ≠ .unchanged) (now : String) :
    (stored = none ∧ receive now stored d = .first d now) ∨
      ∃ r, stored = some r ∧ receive now stored d = r.revise d now := by
  cases stored with
  | none => exact .inl ⟨rfl, rfl⟩
  | some r =>
      have htext : r.text? ≠ some d.text := fun htext => h (by simp [htext, Change.after])
      exact .inr ⟨r, rfl, if_neg htext⟩

/-- A document that changes something leaves its settings and the time. -/
theorem settings_of_changed
    (h : Change.after (stored.bind Row.text?) d.text ≠ .unchanged) (now : String) :
    (receive now stored d).action = d.action.name ∧ (receive now stored d).level = d.level.name ∧
      (receive now stored d).updatedAt = .text now := by
  rcases receive_of_changed h now with ⟨-, hrow⟩ | ⟨r, -, hrow⟩ <;> rw [hrow] <;>
    exact ⟨rfl, rfl, rfl⟩

/-- The time of creation is the stored one, or that of the first document. -/
theorem createdAt_receive (now : String) (stored : Option Row) (d : Document) :
    (receive now stored d).createdAt = (stored.map Row.createdAt).getD (.text now) := by
  unfold receive
  split
  · rfl
  · split
    · rfl
    · exact createdAt_revise ..

/-- A document that changes something counts for a revision. -/
theorem revision_of_changed
    (h : Change.after (stored.bind Row.text?) d.text ≠ .unchanged) (now : String) {k : Int}
    (hsome : ∀ r, stored = some r → r.revision.Is k) (hnone : stored = none → k = 0)
    (hk : k + 1 < 2 ^ 63) : (receive now stored d).revision.Is (k + 1) := by
  rcases receive_of_changed h now with ⟨hstored, hrow⟩ | ⟨r, hstored, hrow⟩
  · rw [hrow, hnone hstored]
    exact ⟨1, rfl, Int64.toInt_one⟩
  · rw [hrow]
    exact (hsome r hstored).next hk

/-- What later documents make of the row that a document leaves, they all make of the row before. -/
theorem Rewritten.cons (h : row.Rewritten (some (receive now stored d)) now ds) :
    row.Rewritten stored now (d :: ds) := by
  have htext : row.text? = ((d :: ds).getLast?.map Document.text).or (stored.bind Row.text?) := by
    rw [h.text, Option.bind_some, text?_receive, List.getLast?_cons]
    cases ds.getLast? <;> rfl
  have hbefore : (some (receive now stored d)).bind Row.text? = some d.text := text?_receive ..
  have hcreated : row.createdAt = (stored.map Row.createdAt).getD (.text now) := by
    rw [h.createdAt, Option.map_some, Option.getD_some, createdAt_receive]
  have hkept := h.kept
  have hchanged := h.changed
  have hrevision := h.revision
  rw [hbefore] at hkept hchanged hrevision
  by_cases hd : Change.after (stored.bind Row.text?) d.text = .unchanged
  · have hsame := receive_of_unchanged hd now
    have hchanging : Document.changing (stored.bind Row.text?) (d :: ds)
        = Document.changing (some d.text) ds := by
      rw [Document.changing_cons, if_pos hd, List.nil_append]
    rw [← hsame] at hkept hrevision
    refine ⟨htext, ?_, ?_, hcreated, ?_⟩ <;> rwa [hchanging]
  · have hchanging : Document.changing (stored.bind Row.text?) (d :: ds)
        = d :: Document.changing (some d.text) ds := by
      rw [Document.changing_cons, if_neg hd, List.singleton_append]
    refine ⟨htext, ?_, ?_, hcreated, ?_⟩
    · rw [hchanging]
      nofun
    · rw [hchanging, List.getLast?_cons]
      rintro last ⟨⟩
      -- the last change is one of the later documents, or they leave the row as it is
      cases hlast : (Document.changing (some d.text) ds).getLast? with
      | none =>
          obtain rfl := Option.some.inj (hkept (List.getLast?_eq_none_iff.mp hlast))
          exact settings_of_changed hd now
      | some last => exact hchanged last hlast
    · intro k hsome hnone hk
      rw [hchanging, List.length_cons, Nat.cast_succ] at hk ⊢
      have hone := revision_of_changed hd now hsome hnone (by omega)
      have hall := hrevision (k + 1) (fun r hr => Option.some.inj hr ▸ hone) nofun (by omega)
      rwa [add_assoc, add_comm 1] at hall

/-- **What documents make of a row**, one after another. -/
theorem rewritten_foldl (stored : Option Row) (now : String) (d : Document) (ds : List Document) :
    ∃ row, (d :: ds).foldl (fun stored d => some (receive now stored d)) stored = some row ∧
      row.Rewritten stored now (d :: ds) := by
  induction ds generalizing stored d with
  | nil => exact ⟨_, rfl, (Rewritten.nil _ now).cons⟩
  | cons d' ds ih =>
      obtain ⟨row, hrow, hrewritten⟩ := ih (some (receive now stored d)) d'
      exact ⟨row, hrow, hrewritten.cons⟩

end Row

/-! ### The table and the entries of a call -/

namespace Table

variable {t t' : Table} {now : String} {m : Model} {c : Change}

/-- A document is compared with the row of its name, which receives it. -/
theorem change_eq_after (h : t.change now m = .ok (c, t')) :
    c = .after ((t.get? m.name).bind Row.text?) m.document.text ∧
      t'.get? m.name = some (Row.receive now (t.get? m.name) m.document) := by
  rcases change_cases h with ⟨rfl, hrow, rfl⟩ | ⟨rfl, ⟨row, hrow, htext⟩, rfl⟩ |
    ⟨rfl, row, text, hrow, htext, hne, rfl⟩
  · rw [hrow]
    exact ⟨rfl, get?_put_self ..⟩
  · have hsame : row.text? = some m.document.text := by rw [Row.text?, htext]
    rw [hrow]
    simp [hsame, Change.after, Row.receive]
  · have hother : row.text? = some text := by rw [Row.text?, htext]
    rw [hrow]
    simp [hother, Change.after, Row.receive, hne]

/-- After documents the row of a name has received those of the name, and each is compared with the
one before it. -/
theorem foldlM_write_eq {models : List Model} {report : Report} {out : Table × Report}
    (h : models.foldlM (write none now) (t, report) = .ok out) (name : String) :
    out.1.get? name = (Model.documentsOf name models).foldl
        (fun stored d => some (Row.receive now stored d)) (t.get? name) ∧
      ((t.entries now models).filter (·.model.name = name)).map Entry.change
        = Change.along ((t.get? name).bind Row.text?) (Model.documentsOf name models) := by
  induction models generalizing t report with
  | nil =>
      obtain rfl := Except.ok.inj h
      exact ⟨rfl, rfl⟩
  | cons m rest ih =>
      rw [List.foldlM_cons] at h
      obtain ⟨mid, hmid, h⟩ := bind_eq_ok.mp h
      obtain ⟨c, hc, -⟩ := write_cases hmid
      obtain ⟨hget, hentries⟩ := @ih mid.1 mid.2 h
      obtain ⟨hchange, hrow⟩ := change_eq_after hc
      rw [entries, hc]
      -- a document of another name is passed over, and leaves the row of the name alone
      by_cases hname : m.name = name
      · subst hname
        simp only [Model.documentsOf] at hget hentries
        simp [Model.documentsOf, Change.along, hget, hentries, hrow, hchange]
      · simp only [Model.documentsOf, get?_of_change hc (Ne.symm hname)] at hget hentries
        simp [Model.documentsOf, hname, hget, hentries]

end Table

/-! ### The report and the rows of a call -/

namespace Report

/-- What a report lists under a change is in the order of the entries. -/
theorem sublist_ofEntries (es : List Entry) (c : Change) :
    ((ofEntries es).of c).Sublist (es.map (·.model.name)) := by
  rw [of_ofEntries]
  exact List.filter_sublist.map _

/-- A report accounts for every entry, and for each once. -/
theorem perm_ofEntries (es : List Entry) :
    ((ofEntries es).created ++ (ofEntries es).updated ++ (ofEntries es).unchanged).Perm
      (es.map (·.model.name)) := by
  have hall := of_ofEntries es
  rw [← of.eq_1, ← of.eq_2, ← of.eq_3, hall, hall, hall, ← List.map_append, ← List.map_append]
  refine List.Perm.map _ ?_
  induction es with
  | nil => exact .nil
  | cons e es ih =>
      specialize ih (of_ofEntries es)
      -- an entry goes before the others of its change
      cases hc : e.change <;> simp only [List.filter_cons, hc, decide_true, if_true, reduceCtorEq,
        decide_false, Bool.false_eq_true, if_false]
      · exact ih.cons e
      · rw [List.append_assoc, List.cons_append]
        exact List.perm_middle.trans ((List.append_assoc .. ▸ ih).cons e)
      · exact List.perm_middle.trans (ih.cons e)

end Report

namespace Store

/-- **What one call makes of a store** whose documents are all kept as text and where nothing is in
the way.  The rows of the names that are not in the call are as they were.  The row of any other
name is what the documents of the name make of it, one after another: it has the last text, counts
a revision for each document that is not the same as the one before it, and changes its settings and
its time just with such a document.  The report tells of each document what it is to the one before
it of its name, in the order of the call. -/
theorem sync_revises {t : Table} (ht : t.IsText) (now : Instant) (models : List Model) :
    ∃ report t', Store.sync ⟨some t, none⟩ now models = (.ok report, ⟨some t', none⟩) ∧
      (∀ name, name ∉ models.map Model.name → t'.get? name = t.get? name) ∧
      (∀ name ∈ models.map Model.name, ∃ row, t'.get? name = some row ∧
        row.Rewritten (t.get? name) now.text (Model.documentsOf name models)) ∧
      (∃ es : List Entry, report = .ofEntries es ∧ es.map Entry.model = models ∧
        ∀ name, (es.filter (·.model.name = name)).map Entry.change
          = Change.along ((t.get? name).bind Row.text?) (Model.documentsOf name models)) ∧
      (∀ c, (report.of c).Sublist (models.map Model.name)) ∧
      (report.created ++ report.updated ++ report.unchanged).Perm (models.map Model.name) := by
  obtain ⟨⟨t', report⟩, hout⟩ := Table.foldlM_write_none ht now.text {} models
  obtain ⟨-, hmodels, hfold⟩ := Table.replays_of_foldlM_write hout
  have hreport : report = .ofEntries (t.entries now.text models) := hfold
  have hnames : (t.entries now.text models).map (·.model.name) = models.map Model.name := by
    conv_rhs => rw [← hmodels, List.map_map]
    rfl
  have hsync : Store.sync ⟨some t, none⟩ now models = (.ok report, ⟨some t', none⟩) := by
    by_cases hne : models = []
    · subst hne
      obtain ⟨rfl, rfl⟩ := Prod.mk.inj (Except.ok.inj hout)
      rfl
    · exact sync_of_synced hne ((synced_of_table rfl rfl).trans hout)
  have hrow := fun name => (Table.foldlM_write_eq hout name).1
  refine ⟨report, t', hsync, fun name hname => ?_, fun name hname => ?_,
    ⟨_, hreport, hmodels, fun name => (Table.foldlM_write_eq hout name).2⟩, fun c => ?_, ?_⟩
  · have hnone : Model.documentsOf name models = [] := by
      rw [Model.documentsOf, List.map_eq_nil_iff, List.filter_eq_nil_iff]
      exact fun m hm he => hname (List.mem_map.mpr ⟨m, hm, of_decide_eq_true he⟩)
    rw [hrow, hnone, List.foldl_nil]
  · obtain ⟨m, hm, hmname⟩ := List.mem_map.mp hname
    have hne : Model.documentsOf name models ≠ [] := by
      rw [Model.documentsOf, ne_eq, List.map_eq_nil_iff, List.filter_eq_nil_iff]
      exact fun hall => hall m hm (decide_eq_true hmname)
    obtain ⟨d, ds, hds⟩ := List.exists_cons_of_ne_nil hne
    rw [hrow, hds]
    exact Row.rewritten_foldl ..
  · rw [hreport, ← hnames]
    exact Report.sublist_ofEntries ..
  · rw [hreport, ← hnames]
    exact Report.perm_ofEntries _

/-- A name that is stored and is written twice, first with another document and then with the one
that was stored: both count for a revision, and the row keeps the time of its creation. -/
theorem sync_revises_back :
    let bare := (Model.bare "Photo").document
    let opened := { bare with additionalProperties := true }
    ∃ report t' row,
      Store.sync ⟨some (.put .empty "Photo" (.first bare (Instant.text ⟨0, 0, 0⟩))), none⟩ ⟨1, 0, 0⟩
        [⟨"Photo", opened⟩, ⟨"Photo", bare⟩] = (.ok report, ⟨some t', none⟩) ∧
      t'.get? "Photo" = some row ∧ row.revision.Is 3 ∧
      row.createdAt = .text (Instant.text ⟨0, 0, 0⟩) ∧
      row.updatedAt = .text (Instant.text ⟨1, 0, 0⟩) := by
  intro bare opened
  have hdistinct : Properties.Distinct [] := trivial
  have hne : bare.text ≠ opened.text := fun htext =>
    nomatch congrArg Document.additionalProperties
      (@Document.eq_of_text_eq bare opened hdistinct hdistinct htext)
  obtain ⟨report, t', hsync, -, hrows, -⟩ := sync_revises
    (Table.isText_put Table.isText_empty (Row.document_first bare (Instant.text ⟨0, 0, 0⟩)))
    ⟨1, 0, 0⟩ [⟨"Photo", opened⟩, ⟨"Photo", bare⟩]
  obtain ⟨row, hrow, hrewritten⟩ := hrows "Photo" (by simp)
  -- both documents are of the name, and neither is the same as the text before it
  have hchanging : Document.changing (((Table.put .empty "Photo"
      (.first bare (Instant.text ⟨0, 0, 0⟩))).get? "Photo").bind Row.text?)
        (Model.documentsOf "Photo" [⟨"Photo", opened⟩, ⟨"Photo", bare⟩]) = [opened, bare] := by
    rw [Table.get?_put_self, Option.bind_some, Row.text?_first]
    exact Document.changing_back hne
  have hrevision := hrewritten.revision 1
  have hchanged := hrewritten.changed bare
  rw [hchanging] at hrevision hchanged
  refine ⟨report, t', row, hsync, hrow, hrevision (fun r hr => ?_) (fun h => ?_) (by decide), ?_,
    (hchanged rfl).2.2⟩
  · rw [Table.get?_put_self] at hr
    exact Option.some.inj hr ▸ ⟨1, rfl, Int64.toInt_one⟩
  · rw [Table.get?_put_self] at h
    nomatch h
  · rw [hrewritten.createdAt, Table.get?_put_self]
    rfl

end Store

end Schemata

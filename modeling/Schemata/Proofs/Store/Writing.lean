import Schemata.Store.Basic

/-!
# Schemata — Proofs — Store — Writing

What a call that writes documents does to a table.  The text of a document starts with a brace, so
it is kept as text and a table of texts stays one.  On such a table a document fails for one reason
only: something has to be written, and a barrier is in the way.

* `Table.change_cases`: what becomes of a document, case by case.
* `Table.isText_change`: a table of texts stays one.
* `Store.sync_all_or_nothing`: a call that fails leaves the store as it was, and a call fails just
  where the store is locked and one of the texts is not the stored one.
-/

namespace Schemata

/-- A model without fields of its own, not even of an identity. -/
def Model.bare (name : String) : Model where
  name := name
  document := {
    type := .object
    properties := []
    required := []
    additionalProperties := false
    action := .error
    level := .strict
    defaults := none }

/-! ### The text of a document is no number -/

theorem Cell.trimmed_brace (rest : List Char) : ∃ more, trimmed ('{' :: rest) = '{' :: more := by
  have hb : isBlank '{' = false := by decide
  refine ⟨(rest.reverse.dropWhile isBlank).reverse, ?_⟩
  rw [trimmed, List.dropWhile_cons_of_neg (by simp [hb]), List.reverse_cons,
    List.dropWhile_append]
  split
  · next h => simp [List.isEmpty_iff.mp h, hb]
  · simp

/-- What starts with a brace is no number. -/
theorem Cell.isNumeral_brace (rest : List Char) : isNumeral ('{' :: rest) = false := by
  obtain ⟨more, h⟩ := trimmed_brace rest
  simp [isNumeral, h, unsigned]

/-- The text of a document starts with a brace. -/
theorem Document.text_brace (d : Document) : ∃ rest, d.text.toList = '{' :: rest := by
  rw [text, Json.render_eq, String.toList_ofList, toJson, Json.chars]
  exact ⟨_, rfl⟩

/-- A document is kept as its text. -/
@[simp] theorem Cell.ofText_document (d : Document) : ofText d.text = .text d.text := by
  obtain ⟨rest, h⟩ := d.text_brace
  rw [ofText, h, isNumeral_brace]
  rfl

@[simp] theorem Row.document_first (d : Document) (now : String) :
    (first d now).document = .text d.text := by
  rw [first, Cell.ofText_document]

@[simp] theorem Row.document_revise (r : Row) (d : Document) (now : String) :
    (r.revise d now).document = .text d.text := by
  rw [revise, Cell.ofText_document]

/-- A row keeps the time at which it was created. -/
@[simp] theorem Row.createdAt_revise (r : Row) (d : Document) (now : String) :
    (r.revise d now).createdAt = r.createdAt := by
  rw [revise]

/-! ### One document -/

namespace Table

/-- Every document of a table is kept as text. -/
def IsText (t : Table) : Prop :=
  ∀ name row, t.get? name = some row → ∃ text, row.document = .text text

/-- A table has the text of a model's document under the model's name. -/
def Holds (t : Table) (m : Model) : Prop :=
  ∃ row, t.get? m.name = some row ∧ row.document = .text m.document.text

theorem isText_empty : IsText .empty := fun _ _ h => nomatch h

/-- A row with a text is put among others. -/
theorem isText_put {t : Table} (ht : t.IsText) {name : String} {r : Row} {text : String}
    (hr : r.document = .text text) : (t.put name r).IsText := by
  intro other row h
  by_cases he : other = name
  · subst he
    rw [get?_put_self] at h
    obtain rfl := Option.some.inj h
    exact ⟨text, hr⟩
  · rw [get?_put_of_ne t r he] at h
    exact ht other row h

variable {t t' : Table} {now : String} {m : Model} {c : Change}

/-- What becomes of a document: its name is new, or the stored text is its own, or it is another. -/
theorem change_cases (h : t.change now m = .ok (c, t')) :
    (c = .created ∧ t.get? m.name = none ∧ t' = t.put m.name (.first m.document now)) ∨
    (c = .unchanged ∧ t.Holds m ∧ t' = t) ∨
    (c = .updated ∧ ∃ row text, t.get? m.name = some row ∧ row.document = .text text ∧
      text ≠ m.document.text ∧ t' = t.put m.name (row.revise m.document now)) := by
  unfold change at h
  split at h
  · next hrow =>
      obtain ⟨rfl, rfl⟩ := Prod.mk.inj (Except.ok.inj h)
      exact .inl ⟨rfl, hrow, rfl⟩
  · next row hrow =>
      split at h
      · nomatch h
      · next text htext =>
          split at h
          · next he =>
              obtain ⟨rfl, rfl⟩ := Prod.mk.inj (Except.ok.inj h)
              exact .inr (.inl ⟨rfl, ⟨row, hrow, he ▸ htext⟩, rfl⟩)
          · next hne =>
              obtain ⟨rfl, rfl⟩ := Prod.mk.inj (Except.ok.inj h)
              exact .inr (.inr ⟨rfl, row, text, hrow, htext, hne, rfl⟩)

/-- A document that is stored changes nothing. -/
theorem change_of_holds (h : t.Holds m) : t.change now m = .ok (.unchanged, t) := by
  obtain ⟨row, hrow, hd⟩ := h
  simp [change, hrow, hd]

/-- A document with another text changes the row of its name. -/
theorem change_of_text_ne {row : Row} {text : String} (hrow : t.get? m.name = some row)
    (htext : row.document = .text text) (hne : text ≠ m.document.text) :
    t.change now m = .ok (.updated, t.put m.name (row.revise m.document now)) := by
  simp [change, hrow, htext, hne]

/-- Nothing changes just where the document is stored. -/
theorem change_unchanged_iff (h : t.change now m = .ok (c, t')) : c = .unchanged ↔ t.Holds m := by
  constructor
  · rintro rfl
    rcases change_cases h with ⟨hc, -⟩ | ⟨-, hm, -⟩ | ⟨hc, -⟩
    · nomatch hc
    · exact hm
    · nomatch hc
  · intro hm
    rw [change_of_holds hm] at h
    exact (Prod.mk.inj (Except.ok.inj h)).1.symm

/-- On a table of texts something becomes of every document. -/
theorem change_total (ht : t.IsText) (now : String) (m : Model) :
    ∃ c t', t.change now m = .ok (c, t') := by
  cases hrow : t.get? m.name with
  | none => exact ⟨.created, t.put m.name (.first m.document now), by simp [change, hrow]⟩
  | some row =>
      obtain ⟨text, htext⟩ := ht m.name row hrow
      by_cases he : text = m.document.text
      · exact ⟨.unchanged, t, change_of_holds ⟨row, hrow, he ▸ htext⟩⟩
      · exact ⟨.updated, _, change_of_text_ne hrow htext he⟩

/-- A table of texts stays one. -/
theorem isText_change (ht : t.IsText) (h : t.change now m = .ok (c, t')) : t'.IsText := by
  rcases change_cases h with ⟨-, -, rfl⟩ | ⟨-, -, rfl⟩ | ⟨-, row, text, -, -, -, rfl⟩
  · exact isText_put ht (Row.document_first m.document now)
  · exact ht
  · exact isText_put ht (Row.document_revise row m.document now)

/-! ### A document behind a barrier -/

variable {barrier : Option Barrier} {report : Report}

/-- What is written and reported of a document, and that nothing is written behind a barrier. -/
theorem write_cases {out : Table × Report} (h : write barrier now (t, report) m = .ok out) :
    ∃ c, t.change now m = .ok (c, out.1) ∧ out.2 = report.add m.name c ∧
      (barrier = none ∨ c = .unchanged) := by
  unfold write at h
  cases hc : t.change now m with
  | error e => rw [hc] at h; nomatch h
  | ok p =>
      obtain ⟨c, t'⟩ := p
      rw [hc] at h
      cases barrier with
      | none =>
          obtain rfl := Except.ok.inj h
          exact ⟨c, rfl, rfl, .inl rfl⟩
      | some b =>
          -- behind a barrier only what changes nothing is let through
          by_cases hu : c = .unchanged
          · subst hu
            obtain rfl := Except.ok.inj h
            exact ⟨_, rfl, rfl, .inr rfl⟩
          · simp [bind, Except.bind, hu, throw, throwThe, MonadExceptOf.throw] at h

theorem write_of_change (h : t.change now m = .ok (c, t')) :
    write none now (t, report) m = .ok (t', report.add m.name c) := by
  simp [write, h, bind, Except.bind, pure, Except.pure]

/-- What is stored already is written behind any barrier. -/
theorem write_of_holds (h : t.Holds m) :
    write barrier now (t, report) m = .ok (t, report.add m.name .unchanged) := by
  cases barrier <;> simp [write, change_of_holds h, bind, Except.bind, pure, Except.pure]

/-- Behind a barrier nothing new is written. -/
theorem write_of_not_holds (ht : t.IsText) {b : Barrier} (h : ¬ t.Holds m) :
    write (some b) now (t, report) m = .error b.fault := by
  obtain ⟨c, t', hc⟩ := change_total ht now m
  have hu : c ≠ .unchanged := fun he => h ((change_unchanged_iff hc).mp he)
  simp [write, hc, hu, bind, Except.bind, throw, throwThe, MonadExceptOf.throw]

/-! ### All the documents of a call -/

variable {models : List Model}

/-- Without a barrier the documents are written, whatever the table becomes on the way. -/
theorem foldlM_write_none (ht : t.IsText) (now : String) (report : Report) (models : List Model) :
    ∃ out, models.foldlM (write none now) (t, report) = .ok out := by
  induction models generalizing t report with
  | nil => exact ⟨_, rfl⟩
  | cons m rest ih =>
      obtain ⟨c, t', hc⟩ := change_total ht now m
      obtain ⟨out, hout⟩ := ih (isText_change ht hc) (report.add m.name c)
      refine ⟨out, ?_⟩
      rw [List.foldlM_cons, write_of_change hc]
      exact hout

/-- Documents that are all stored already are reported so, in order. -/
theorem foldlM_write_of_holds (h : ∀ m ∈ models, t.Holds m) :
    models.foldlM (write barrier now) (t, report)
      = .ok (t, { report with unchanged := report.unchanged ++ models.map Model.name }) := by
  induction models generalizing report with
  | nil => simp [pure, Except.pure]
  | cons m rest ih =>
      rw [List.forall_mem_cons] at h
      rw [List.foldlM_cons, write_of_holds h.1]
      have hrest := @ih (report.add m.name .unchanged) h.2
      simpa [Report.add, bind, Except.bind] using hrest

/-- Behind a barrier the table is the committed one up to the first document that is not stored
already, which is where the call fails. -/
theorem foldlM_write_of_not_holds (ht : t.IsText) (now : String) (report : Report) (b : Barrier)
    (h : ∃ m ∈ models, ¬ t.Holds m) :
    models.foldlM (write (some b) now) (t, report) = .error b.fault := by
  induction models generalizing report with
  | nil => simp at h
  | cons m rest ih =>
      rw [List.foldlM_cons]
      -- a document that is stored leaves the table to the next, so what follows is as before
      by_cases hm : t.Holds m
      · rw [write_of_holds hm]
        obtain ⟨n, hn, hnot⟩ := h
        rcases List.mem_cons.mp hn with rfl | hn
        · exact absurd hm hnot
        · exact ih _ ⟨n, hn, hnot⟩
      · rw [write_of_not_holds ht hm]
        rfl

end Table

/-! ### A call -/

namespace Store

variable {s : Store} {now : Instant} {models : List Model} {t : Table}

/-- A call that fails leaves the store as it was. -/
theorem sync_of_error {e : StoreFault} (h : (s.sync now models).1 = .error e) :
    (s.sync now models).2 = s := by
  unfold sync at h ⊢
  split
  · rfl
  · next hne =>
      rw [if_neg hne] at h
      split at h
      · nomatch h
      · rfl

theorem migratedTable_of_table (hseal : s.seal? = none) (ht : s.table = some t) :
    s.migratedTable = .ok t := by
  simp [migratedTable, hseal, ht]

theorem synced_of_table (hseal : s.seal? = none) (ht : s.table = some t) :
    s.synced now.text models = models.foldlM (Table.write s.barrier now.text) (t, {}) := by
  rw [synced, migratedTable_of_table hseal ht]
  rfl

theorem sync_of_synced_error {e : StoreFault} (hne : models ≠ [])
    (h : s.synced now.text models = .error e) : s.sync now models = (.error e, s) := by
  simp [sync, hne, h]

/-- A call that goes through leaves the table that it made. -/
theorem sync_of_synced {t' : Table} {report : Report} (hne : models ≠ [])
    (h : s.synced now.text models = .ok (t', report)) :
    s.sync now models = (.ok report, { s with table := some t' }) := by
  simp [sync, hne, h]

/-- A store without a table takes no documents. -/
theorem sync_of_empty (now : Instant) (hne : models ≠ []) :
    ({} : Store).sync now models = (.error .noTable, {}) :=
  sync_of_synced_error hne rfl

/-- Without a barrier a single document is written as it changes the table. -/
theorem sync_of_change {m : Model} {c : Change} {t' : Table} (hb : s.barrier = none)
    (ht : s.table = some t) (h : t.change now.text m = .ok (c, t')) :
    s.sync now [m] = (.ok (({} : Report).add m.name c), { s with table := some t' }) := by
  have hfold : [m].foldlM (Table.write s.barrier now.text) (t, {})
      = .ok (t', ({} : Report).add m.name c) := by
    rw [hb, List.foldlM_cons, Table.write_of_change h]
    rfl
  have hseal : s.seal? = none := by simp [seal?, hb]
  exact sync_of_synced (List.cons_ne_nil m []) ((synced_of_table hseal ht).trans hfold)

/-- Documents that are all stored already leave the store as it was. -/
theorem sync_of_holds (hseal : s.seal? = none) (ht : s.table = some t)
    (h : ∀ m ∈ models, t.Holds m) :
    s.sync now models = (.ok { unchanged := models.map Model.name }, s) := by
  by_cases hne : models = []
  · subst hne; rfl
  · rw [sync_of_synced hne (by rw [synced_of_table hseal ht, Table.foldlM_write_of_holds h]), ← ht]
    rfl

/-- A call with documents that are all stored already leaves the store as it was in any case. -/
theorem sync_of_holds_cases (ht : s.table = some t) (now : Instant)
    (h : ∀ m ∈ models, t.Holds m) :
    s.sync now models = (.ok { unchanged := models.map Model.name }, s) ∨
      ∃ e, s.sync now models = (.error e, s) := by
  cases hseal : s.seal? with
  | none => exact .inl (sync_of_holds hseal ht h)
  | some fault =>
      by_cases hne : models = []
      · subst hne
        exact .inl rfl
      · have hsynced : s.synced now.text models = .error fault := by
          simp [synced, migratedTable, hseal, bind, Except.bind]
        exact .inr ⟨fault, sync_of_synced_error hne hsynced⟩

/-- Without a barrier a call on a table of texts succeeds. -/
theorem sync_of_no_barrier (hb : s.barrier = none) (ht : s.table = some t) (htext : t.IsText)
    (now : Instant) (models : List Model) :
    ∃ report, (s.sync now models).1 = .ok report := by
  by_cases hne : models = []
  · subst hne; exact ⟨_, rfl⟩
  · obtain ⟨⟨t', report⟩, hout⟩ := Table.foldlM_write_none htext now.text {} models
    have hseal : s.seal? = none := by simp [seal?, hb]
    rw [sync_of_synced hne (by rw [synced_of_table hseal ht, hb, hout])]
    exact ⟨report, rfl⟩

/-- **A call writes all of its documents or none.**  If it fails the store is as it was, whatever
came of the documents before the one that failed.  Where there is a table it fails if and only if
another writer holds the lock and some document's text is not the one stored under its name; if
the lock is held and every text is stored already, it succeeds and reports every name so. -/
theorem sync_all_or_nothing (s : Store) (now : Instant) (models : List Model)
    (hbarrier : s.barrier = none ∨ s.barrier = some .lock)
    (htext : ∀ t, s.table = some t → t.IsText) :
    (∀ e, (s.sync now models).1 = .error e → (s.sync now models).2 = s) ∧
    ∀ t, s.table = some t →
      ((∃ e, (s.sync now models).1 = .error e) ↔
        s.barrier = some .lock ∧ ∃ m ∈ models, ¬ t.Holds m) ∧
      (s.barrier = some .lock → (∀ m ∈ models, t.Holds m) →
        s.sync now models = (.ok { unchanged := models.map Model.name }, s)) := by
  have hseal : s.seal? = none := by rcases hbarrier with h | h <;> simp [seal?, h, Barrier.seal?]
  refine ⟨fun e => sync_of_error, fun t ht => ⟨⟨?_, ?_⟩, fun _ => sync_of_holds hseal ht⟩⟩
  · rintro ⟨e, he⟩
    rcases hbarrier with hb | hb
    · obtain ⟨report, hok⟩ := sync_of_no_barrier hb ht (htext t ht) now models
      rw [hok] at he
      nomatch he
    -- were every text stored already, the call would have succeeded behind the lock
    · refine ⟨hb, Classical.byContradiction fun hcon => ?_⟩
      have hall : ∀ m ∈ models, t.Holds m := fun m hm =>
        Classical.byContradiction fun hnot => hcon ⟨m, hm, hnot⟩
      rw [sync_of_holds hseal ht hall] at he
      nomatch he
  · rintro ⟨hb, m, hm, hnot⟩
    have hfold := Table.foldlM_write_of_not_holds (htext t ht) now.text {} .lock ⟨m, hm, hnot⟩
    refine ⟨Barrier.lock.fault, ?_⟩
    rw [sync_of_synced_error (List.ne_nil_of_mem hm) (by rw [synced_of_table hseal ht, hb, hfold])]

/-- A first document in an empty store whose lock is held: the call fails and nothing is stored. -/
theorem sync_locked_empty :
    ∃ e, Store.sync { table := some .empty, barrier := some .lock } ⟨0, 0, 0⟩ [.bare "Photo"]
      = (.error e, { table := some .empty, barrier := some .lock }) := by
  obtain ⟨hkeep, hiff⟩ := sync_all_or_nothing ⟨some .empty, some .lock⟩ ⟨0, 0, 0⟩ [.bare "Photo"]
    (.inr rfl) (fun t ht => Option.some.inj ht ▸ Table.isText_empty)
  obtain ⟨e, he⟩ :=
    (hiff .empty rfl).1.mpr ⟨rfl, .bare "Photo", by simp, fun ⟨_, h, _⟩ => nomatch h⟩
  exact ⟨e, Prod.ext he (hkeep e he)⟩

end Store

end Schemata

import Schemata.Proofs.Document.Rereading
import Schemata.Proofs.Store.Reading

/-!
# Schemata — Proofs — Store — Comparing

A store compares texts to tell whether a document changed, and this tells it rightly.  Two compiled
documents with one text are one document, however deep, so no change passes for none; and a document
has one text, so none is made up.

A store is followed through attempts to write, each of which meets a barrier or none
(`Store.attempts`).  Those that succeed leave their entries (`Store.log`), which replay to the table
(`Store.replays_log`) and so tell which document was last written under a name.
`Store.sync_compares` is what the next call makes of another document under that name.
-/

namespace Schemata

/-! ### Attempts and their log -/

namespace Store

/-- A call that is attempted: what keeps the store from being written then, if anything does, the
time, and the models. -/
structure Attempt where
  barrier : Option Barrier
  now : Instant
  models : List Model

/-- What comes of an attempt, and the store after it. -/
def attempt (s : Store) (a : Attempt) : Except StoreFault Report × Store :=
  sync { s with barrier := a.barrier } a.now a.models

/-- The store after attempts. -/
def attempts (s : Store) (as : List Attempt) : Store := as.foldl (fun s a => (s.attempt a).2) s

/-- The entries of the attempts that succeed. -/
def log : Store → List Attempt → List Entry
  | _, []        => []
  | s, a :: rest =>
    (match (s.attempt a).1, s.table with
      | .ok _, some t => t.entries a.now.text a.models
      | _, _          => []) ++ log (s.attempt a).2 rest

/-- The log of attempts replays to the table that they leave. -/
theorem replays_log {s : Store} {t : Table} (ht : s.table = some t) (as : List Attempt) :
    ∃ t', (s.attempts as).table = some t' ∧ Table.Replays t (s.log as) t' := by
  induction as generalizing s t with
  | nil => exact ⟨t, ht, .nil⟩
  | cons a rest ih =>
      rw [log, ht]
      cases hresult : (s.attempt a).1 with
      | error e =>
          have hkeep : (s.attempt a).2 = { s with barrier := a.barrier } := sync_of_error hresult
          have htable : (s.attempt a).2.table = some t := by rw [hkeep, ht]
          exact ih htable
      | ok report =>
          obtain ⟨t₁, hs₁, hreplays, -⟩ := replays_of_sync (s := { s with barrier := a.barrier }) ht
            (Prod.ext hresult rfl : s.attempt a = (.ok report, _))
          have htable : (s.attempt a).2.table = some t₁ := congrArg Store.table hs₁
          obtain ⟨t', ht', hrest⟩ := ih htable
          exact ⟨t', ht', hreplays.append hrest⟩

end Store

/-! ### One name in a call -/

namespace Table

variable {t t' : Table}

theorem Replays.of_snoc {es : List Entry} {e : Entry} (h : Replays t (es ++ [e]) t') :
    ∃ mid, Replays t es mid ∧ mid.change e.now e.model = .ok (e.change, t') := by
  generalize hall : es ++ [e] = all at h
  cases h with
  | nil => simp at hall
  | snoc hinit hchange =>
      obtain ⟨rfl, he⟩ := List.append_inj' hall rfl
      obtain rfl := List.head_eq_of_cons_eq he
      exact ⟨_, hinit, hchange⟩

/-- Entries replay up to any point, and from there on. -/
theorem Replays.of_append {es es' : List Entry} (h : Replays t (es ++ es') t') :
    ∃ mid, Replays t es mid ∧ Replays mid es' t' := by
  induction es' using List.reverseRecOn generalizing t' with
  | nil => exact ⟨t', List.append_nil es ▸ h, .nil⟩
  | append_singleton init e ih =>
      rw [← List.append_assoc] at h
      obtain ⟨last, hinit, hchange⟩ := h.of_snoc
      obtain ⟨mid, hes, hrest⟩ := ih hinit
      exact ⟨mid, hes, hrest.snoc hchange⟩

/-- What becomes of a model whose name comes once among the models of a call: it is compared with
the row that the name has before the call, and the table has its text after it. -/
theorem Replays.exists_change {es : List Entry} (h : Replays t es t') {before after : List Model}
    {m : Model} (hmodels : es.map Entry.model = before ++ m :: after)
    (hapart : ∀ n ∈ before ++ after, n.name ≠ m.name) :
    ∃ (mid mid' : Table) (c : Change) (now : String), mid.get? m.name = t.get? m.name ∧
      mid.change now m = .ok (c, mid') ∧ t'.Holds m ∧
      ∀ ch, m.name ∈ (Report.ofEntries es).of ch ↔ ch = c := by
  obtain ⟨es₁, rest, rfl, hbefore, hrest⟩ := List.map_eq_append_iff.mp hmodels
  obtain ⟨e, es₂, rfl, rfl, hafter⟩ := List.map_eq_cons_iff.mp hrest
  have hapart₁ : ∀ e' ∈ es₁, e'.model.name ≠ e.model.name := fun e' he' =>
    hapart _ (List.mem_append_left _ (hbefore ▸ List.mem_map_of_mem he'))
  have hapart₂ : ∀ e' ∈ es₂, e'.model.name ≠ e.model.name := fun e' he' =>
    hapart _ (List.mem_append_right _ (hafter ▸ List.mem_map_of_mem he'))
  have hsplit : Replays t ((es₁ ++ [e]) ++ es₂) t' := by simpa using h
  obtain ⟨mid', hes, hes₂⟩ := hsplit.of_append
  obtain ⟨mid, hes₁, hchange⟩ := hes.of_snoc
  refine ⟨mid, mid', e.change, e.now, hes₁.get?_of_forall_ne hapart₁, hchange, ?_, fun ch => ?_⟩
  · obtain ⟨row, hrow, htext⟩ := holds_of_change hchange
    exact ⟨row, (hes₂.get?_of_forall_ne hapart₂).trans hrow, htext⟩
  · rw [Report.mem_ofEntries]
    constructor
    · rintro ⟨e', he', hname, rfl⟩
      rcases List.mem_append.mp he' with he' | he'
      · exact absurd hname (hapart₁ e' he')
      · rcases List.mem_cons.mp he' with rfl | he'
        · rfl
        · exact absurd hname (hapart₂ e' he')
    · rintro rfl
      exact ⟨e, by simp, rfl, rfl⟩

end Table

/-! ### The next call -/

namespace Store

/-- **No change of a document is skipped and none is made up.**  Compiled documents with one text
are one.  And if some document was last written under a name by attempts on a new store, then the
next call that meets no barrier and gives the name another document, once, succeeds; it lists the
name as unchanged if the documents are one and as updated if they are not, and leaves the text of
the new one. -/
theorem sync_compares :
    (∀ d d' : Document, d.Compilable → d'.Compilable → d.text = d'.text → d = d') ∧
    ∀ (as : List Attempt) (name : String) (e : Entry) (d : Document),
      Entry.latest? name (fresh.log as) = some e → e.model.document.Compilable → d.Compilable →
      ∀ (now : Instant) (before after : List Model), (∀ m ∈ before ++ after, m.name ≠ name) →
        ∃ report t row,
          sync { fresh.attempts as with barrier := none } now (before ++ ⟨name, d⟩ :: after)
            = (.ok report, { table := some t }) ∧
          (name ∈ report.unchanged ↔ e.model.document = d) ∧
          (name ∈ report.updated ↔ e.model.document ≠ d) ∧
          name ∉ report.created ∧
          t.get? name = some row ∧ row.document = .text d.text := by
  have hinjective : ∀ d d' : Document, d.Compilable → d'.Compilable → d.text = d'.text → d = d' :=
    fun d d' hd hd' htext => Document.eq_of_text_eq hd.distinct hd'.distinct htext
  refine ⟨hinjective, fun as name e d he hed hd now before after hapart => ?_⟩
  obtain ⟨t, ht, hreplays⟩ := replays_log (s := fresh) rfl as
  -- the row of the name is what the entry that was last written says
  have hmem : e ∈ fresh.log as ∧ e.model.name = name := by
    have h := List.mem_filter.mp (List.mem_of_getLast? he)
    rw [Entry.changes, Bool.and_eq_true, decide_eq_true_eq] at h
    exact ⟨h.1, h.2.1⟩
  obtain ⟨row, hrow⟩ := Option.isSome_iff_exists.mp (hreplays.isSome_get?.mpr ⟨e, hmem⟩)
  obtain ⟨e', he', htext, -⟩ := ((hreplays.written name).2 row hrow).latest
  obtain rfl := Option.some.inj (he.symm.trans he')
  obtain ⟨report, hok⟩ := sync_of_no_barrier (s := { fresh.attempts as with barrier := none }) rfl
    ht (hreplays.isText Table.isText_empty) now (before ++ ⟨name, d⟩ :: after)
  obtain ⟨t', hs', hcall, hmodels, rfl⟩ := replays_of_sync
    (s := { fresh.attempts as with barrier := none }) ht (Prod.ext hok rfl)
  obtain ⟨mid, mid', c, at', hget, hchange, ⟨row', hrow', htext'⟩, hlisted⟩ :=
    hcall.exists_change hmodels hapart
  rw [hrow] at hget
  have hc : (c = .unchanged ∧ e.model.document = d) ∨ (c = .updated ∧ e.model.document ≠ d) := by
    rcases Table.change_cases hchange with ⟨-, hnone, -⟩ | ⟨hc, ⟨row₁, hrow₁, htext₁⟩, -⟩ |
      ⟨hc, row₁, text, hrow₁, htext₁, hne, -⟩
    · rw [hnone] at hget
      cases hget
    · obtain rfl := Option.some.inj (hget.symm.trans hrow₁)
      refine .inl ⟨hc, hinjective _ _ hed hd ?_⟩
      exact Cell.text.inj (htext.symm.trans htext₁)
    · obtain rfl := Option.some.inj (hget.symm.trans hrow₁)
      refine .inr ⟨hc, fun hsame => hne ?_⟩
      rw [← Cell.text.inj (htext.symm.trans htext₁), hsame]
  refine ⟨_, t', row', Prod.ext hok hs', ?_, ?_, ?_, hrow', htext'⟩
  · refine (hlisted .unchanged).trans ?_
    rcases hc with ⟨rfl, hsame⟩ | ⟨rfl, hother⟩
    · exact iff_of_true rfl hsame
    · exact iff_of_false (by simp) hother
  · refine (hlisted .updated).trans ?_
    rcases hc with ⟨rfl, hsame⟩ | ⟨rfl, hother⟩
    · exact iff_of_false (by simp) fun hother => hother hsame
    · exact iff_of_true rfl hother
  · intro hlist
    obtain rfl := (hlisted .created).mp hlist
    rcases hc with ⟨hc, -⟩ | ⟨hc, -⟩
    · cases hc
    · cases hc

/-- One level of maps is written again, and then two. -/
theorem sync_compares_nested :
    let s := fresh.attempts [⟨none, ⟨0, 0, 0⟩, [⟨"Deep", .nested 1⟩]⟩]
    (∃ report s', s.sync ⟨1, 0, 0⟩ [⟨"Deep", .nested 1⟩] = (.ok report, s') ∧
      "Deep" ∈ report.unchanged) ∧
    ∃ report s', s.sync ⟨1, 0, 0⟩ [⟨"Deep", .nested 2⟩] = (.ok report, s') ∧
      "Deep" ∈ report.updated := by
  intro s
  have hnext := fun d => sync_compares.2 [⟨none, ⟨0, 0, 0⟩, [⟨"Deep", .nested 1⟩]⟩] "Deep"
    ⟨⟨"Deep", .nested 1⟩, _, .created⟩ d rfl (Model.compiled_nested 1).compilable
  obtain ⟨report, t, _, hcall, hunchanged, -⟩ :=
    hnext _ (Model.compiled_nested 1).compilable ⟨1, 0, 0⟩ [] [] nofun
  obtain ⟨report', t', _, hcall', -, hupdated, -⟩ :=
    hnext _ (Model.compiled_nested 2).compilable ⟨1, 0, 0⟩ [] [] nofun
  refine ⟨⟨report, _, hcall, hunchanged.mpr rfl⟩, report', _, hcall', hupdated.mpr fun hsame => ?_⟩
  have hlevels := Document.text_nested_injective (congrArg Document.text hsame)
  nomatch hlevels

end Store

end Schemata

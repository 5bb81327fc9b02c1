import Schemata.Proofs.Session.Registering
import Schemata.Proofs.Store.Revising

/-!
# Schemata — Proofs — Session — Staging

Models that a session gathers before it writes, beside the same models written directly.  The
session keeps of each name the last model (`Session.documentsOf_registered`), so its one document is
compared with what was stored, where a direct write compares each with the one before it
(`Store.sync_receives`).  Both leave the last text; the session counts at most one revision for it,
and none if it was stored before.

* `Session.holds_run`: what a session has, whatever happened to it.
* `Session.synchronize_agrees`: gathering models and writing them, beside writing them directly.
-/

namespace Schemata

/-! ### The documents of a name -/

namespace Model

variable {models : List Model} {name : String}

theorem documentsOf_eq_nil : documentsOf name models = [] ↔ name ∉ models.map Model.name := by
  simp [documentsOf, List.filter_eq_nil_iff]

/-- The last document of a name is that of the last model of the name. -/
theorem getLast?_documentsOf (name : String) (models : List Model) :
    (documentsOf name models).getLast?
      = (models.reverse.find? (·.name = name)).map Model.document := by
  rw [documentsOf, List.getLast?_map, ← List.head?_reverse, ← List.filter_reverse,
    List.head?_filter]

end Model

/-! ### What a row counts -/

namespace Document

variable {before : Option String} {d : Document}

/-- A single document changes what is stored unless it is stored already. -/
theorem length_changing_singleton (before : Option String) (d : Document) :
    (changing before [d]).length = if before = some d.text then 0 else 1 := by
  have hnil : changing (some d.text) [] = [] := rfl
  rw [changing_cons, hnil, List.append_nil]
  cases before with
  | none => simp [Change.after]
  | some text => by_cases h : text = d.text <;> simp [Change.after, h]

theorem length_changing_le (before : Option String) (ds : List Document) :
    (changing before ds).length ≤ ds.length := by
  induction ds generalizing before with
  | nil => exact Nat.le_refl 0
  | cons d rest ih =>
      rw [changing_cons, List.length_append, List.length_cons, Nat.add_comm]
      refine Nat.add_le_add (ih _) ?_
      split <;> simp

end Document

/-- A row that has another text than was stored counts at least one change. -/
theorem Row.Rewritten.changing_ne_nil {stored : Option Row} {now : String} {ds : List Document}
    {row : Row} (h : row.Rewritten stored now ds) (hne : stored.bind Row.text? ≠ row.text?) :
    Document.changing (stored.bind Row.text?) ds ≠ [] := by
  intro hnil
  rw [h.kept hnil] at hne
  exact hne rfl

/-! ### One write -/

/-- A write where nothing is in the way succeeds, and the row of every name receives its documents
one after another. -/
theorem Store.sync_receives {t : Table} (ht : t.IsText) (now : Instant) (models : List Model) :
    ∃ report t', Store.sync ⟨some t, none⟩ now models = (.ok report, ⟨some t', none⟩) ∧
      ∀ name, t'.get? name = (Model.documentsOf name models).foldl
        (fun stored d => some (Row.receive now.text stored d)) (t.get? name) := by
  obtain ⟨⟨t', report⟩, hout⟩ := Table.foldlM_write_none ht now.text {} models
  refine ⟨report, t', ?_, fun name => (Table.foldlM_write_eq hout name).1⟩
  by_cases hne : models = []
  · subst hne
    obtain ⟨rfl, rfl⟩ := Prod.mk.inj (Except.ok.inj hout)
    rfl
  · exact sync_of_synced hne ((synced_of_table rfl rfl).trans hout)

namespace Session

/-! ### What a session has -/

/-- A session has the last model of each name that was registered with it, in the order in which the
names came first. -/
structure Holds (s : Session) (models : List Model) : Prop where
  names : s.names = (models.map Model.name).eraseDups
  nodup : s.names.Nodup
  last : ∀ m ∈ s.pending, models.reverse.find? (·.name = m.name) = some m

theorem holds_registered (models : List Model) : (registered models).Holds models := by
  refine ⟨names_registered models, nodup_registered models, fun m hm => ?_⟩
  rw [← find?_registered]
  exact find?_of_nodup (nodup_registered models) hm

/-- A session with its store and its deeds has what was registered since it last tried to write. -/
theorem eq_registered_next {d : Desk} (h : d.session = registered (staged d.deeds).reverse)
    (e : Event) : (d.next e).session = registered (staged (d.next e).deeds).reverse := by
  cases e with
  | register m =>
      rw [Desk.next, staged, List.reverse_cons, registered, List.foldl_append, ← registered, ← h]
      rfl
  | synchronize now =>
      rw [Desk.next, staged_attempt]
      rfl
  | lock => exact h
  | unlock => exact h
  | rewrite t => exact h

/-- **Whatever happened to a session**, it has the last model of each name that was registered since
it last tried to write. -/
theorem holds_run (store : Store) (events : List Event) :
    let d := Desk.run { store } events
    d.session.Holds (staged d.deeds).reverse := by
  have hrun : ∀ d : Desk, d.session = registered (staged d.deeds).reverse →
      (d.run events).session = registered (staged (d.run events).deeds).reverse := by
    induction events with
    | nil => exact fun _ h => h
    | cons e rest ih => exact fun d h => ih _ (eq_registered_next h e)
  intro d
  rw [hrun { store } rfl]
  exact holds_registered _

/-- The one document that a session has of a name is the last of the name. -/
theorem documentsOf_registered (name : String) (models : List Model) :
    Model.documentsOf name (registered models).pending
      = (Model.documentsOf name models).getLast?.toList := by
  have hnodup : ((registered models).pending.map Model.name).Nodup := nodup_registered models
  rw [Model.documentsOf, filter_of_nodup hnodup, find?_registered, Model.getLast?_documentsOf]
  cases models.reverse.find? (·.name = name) <;> rfl

/-! ### Gathered and written directly -/

/-- What two ways of writing make of the row of a name: the same text, and the second counts one
revision for it at most, none if the text was stored, and never more than the first. -/
structure Condensed (stored : Option Row) (ds : List Document) (direct gathered : Row) :
    Prop where
  text : ∃ last, ds.getLast? = some last ∧ direct.text? = some last.text ∧
    gathered.text? = some last.text
  revision : ∀ k : Int, (∀ r, stored = some r → r.revision.Is k) → (stored = none → k = 0) →
    k + ds.length < 2 ^ 63 →
      direct.revision.Is (k + (Document.changing (stored.bind Row.text?) ds).length) ∧
      ∃ n : Nat, gathered.revision.Is (k + n) ∧ n ≤ 1 ∧
        n ≤ (Document.changing (stored.bind Row.text?) ds).length ∧
        (n = 0 ↔ stored.bind Row.text? = ds.getLast?.map Document.text)

variable {stored : Option Row} {now now' : String} {ds : List Document} {last : Document}
  {direct gathered : Row}

/-- A row that received documents and one that received only the last of them have the same text. -/
theorem condensed_of_rewritten (hlast : ds.getLast? = some last)
    (hdirect : direct.Rewritten stored now ds)
    (hgathered : gathered.Rewritten stored now' [last]) : Condensed stored ds direct gathered := by
  have hd : direct.text? = some last.text := by rw [hdirect.text, hlast]; rfl
  have hg : gathered.text? = some last.text := by rw [hgathered.text]; rfl
  refine ⟨⟨last, hlast, hd, hg⟩, fun k hsome hnone hk => ?_⟩
  have hle := Document.length_changing_le (stored.bind Row.text?) ds
  have hpos : 0 < ds.length := List.length_pos_of_mem (List.mem_of_getLast? hlast)
  have hone := Document.length_changing_singleton (stored.bind Row.text?) last
  have hsame : ¬ stored.bind Row.text? = some last.text →
      0 < (Document.changing (stored.bind Row.text?) ds).length := fun hne =>
    List.length_pos_of_ne_nil (hdirect.changing_ne_nil (hd ▸ hne))
  refine ⟨hdirect.revision k hsome hnone (by omega), _,
    hgathered.revision k hsome hnone ?_, ?_, ?_, ?_⟩
  · rw [hone]
    split <;> omega
  · rw [hone]
    split <;> omega
  · rw [hone]
    split
    · exact Nat.zero_le _
    · next hne => exact hsame hne
  · rw [hone, hlast, Option.map_some]
    split
    · next heq => exact iff_of_true rfl heq
    · next hne => exact iff_of_false Nat.one_ne_zero hne

/-- **Gathering models in a session and writing them once agrees with writing them directly**, on a
store whose documents are kept as text and where nothing is in the way.  Both succeed.  The row of a
name that does not come in the models is as it was, and that of any other has the text of the last
document of the name either way; through the session its revision grows by one at most, not more
than directly, and not at all just where that text was stored already.  And at all times a session
has the names that were registered since it last tried to write, each once, in the order in which
they came first and with the last document. -/
theorem synchronize_agrees {t : Table} (ht : t.IsText) (now now' : Instant)
    (models : List Model) :
    (∃ report report' t₁ t₂,
      Store.sync ⟨some t, none⟩ now models = (.ok report, ⟨some t₁, none⟩) ∧
      (registered models).synchronize ⟨some t, none⟩ now'
        = (.ok report', {}, ⟨some t₂, none⟩) ∧
      (∀ name, (t₂.get? name).bind Row.text? = (t₁.get? name).bind Row.text?) ∧
      (∀ name, name ∉ models.map Model.name →
        t₁.get? name = t.get? name ∧ t₂.get? name = t.get? name) ∧
      ∀ name ∈ models.map Model.name, ∃ direct gathered, t₁.get? name = some direct ∧
        t₂.get? name = some gathered ∧
        Condensed (t.get? name) (Model.documentsOf name models) direct gathered) ∧
    ∀ (store : Store) (events : List Event),
      let d := Desk.run { store } events
      d.session.Holds (staged d.deeds).reverse := by
  refine ⟨?_, holds_run⟩
  obtain ⟨report, t₁, hdirect, hget₁⟩ := Store.sync_receives ht now models
  obtain ⟨report', t₂, hgathered, hget₂⟩ :=
    Store.sync_receives ht now' (registered models).pending
  have hsynchronize : (registered models).synchronize ⟨some t, none⟩ now'
      = (.ok report', {}, ⟨some t₂, none⟩) := by
    rw [synchronize, hgathered]
    rfl
  have hnone : ∀ name, name ∉ models.map Model.name →
      t₁.get? name = t.get? name ∧ t₂.get? name = t.get? name := by
    intro name hname
    have hnil := Model.documentsOf_eq_nil.mpr hname
    rw [hget₁, hget₂, documentsOf_registered, hnil]
    exact ⟨rfl, rfl⟩
  have hsome : ∀ name ∈ models.map Model.name, ∃ direct gathered, t₁.get? name = some direct ∧
      t₂.get? name = some gathered ∧
      Condensed (t.get? name) (Model.documentsOf name models) direct gathered := by
    intro name hname
    obtain ⟨d, ds, hds⟩ := List.exists_cons_of_ne_nil
      (fun hnil => Model.documentsOf_eq_nil.mp hnil hname)
    obtain ⟨last, hlast⟩ : ∃ last, (d :: ds).getLast? = some last := by
      rw [List.getLast?_cons]
      exact ⟨_, rfl⟩
    obtain ⟨direct, hrow₁, hrewritten₁⟩ := Row.rewritten_foldl (t.get? name) now.text d ds
    obtain ⟨gathered, hrow₂, hrewritten₂⟩ := Row.rewritten_foldl (t.get? name) now'.text last []
    rw [hget₁, hget₂, documentsOf_registered, hds, hlast]
    exact ⟨direct, gathered, hrow₁, hrow₂, condensed_of_rewritten hlast hrewritten₁ hrewritten₂⟩
  refine ⟨report, report', t₁, t₂, hdirect, hsynchronize, fun name => ?_, hnone, hsome⟩
  by_cases hname : name ∈ models.map Model.name
  · obtain ⟨direct, gathered, hrow₁, hrow₂, hcondensed⟩ := hsome name hname
    obtain ⟨last, -, htext₁, htext₂⟩ := hcondensed.text
    rw [hrow₁, hrow₂, Option.bind_some, Option.bind_some, htext₁, htext₂]
  · rw [(hnone name hname).1, (hnone name hname).2]

/-- A name that is stored comes twice, first with another document and then with the one that was
stored: written directly it counts two revisions, gathered in a session none. -/
theorem synchronize_agrees_back :
    let bare := (Model.bare "Photo").document
    let opened := { bare with additionalProperties := true }
    let models : List Model := [⟨"Photo", opened⟩, ⟨"Photo", bare⟩]
    let store : Store :=
      ⟨some (.put .empty "Photo" (.first bare (Instant.text ⟨0, 0, 0⟩))), none⟩
    ∃ report report' t₁ t₂ direct gathered,
      store.sync ⟨1, 0, 0⟩ models = (.ok report, ⟨some t₁, none⟩) ∧
      (registered models).synchronize store ⟨2, 0, 0⟩ = (.ok report', {}, ⟨some t₂, none⟩) ∧
      t₁.get? "Photo" = some direct ∧ t₂.get? "Photo" = some gathered ∧
      direct.text? = gathered.text? ∧ direct.revision.Is 3 ∧ gathered.revision.Is 1 := by
  intro bare opened models store
  have hdistinct : Properties.Distinct [] := trivial
  have hne : bare.text ≠ opened.text := fun htext =>
    nomatch congrArg Document.additionalProperties
      (@Document.eq_of_text_eq bare opened hdistinct hdistinct htext)
  have htext : (Table.put .empty "Photo" (.first bare (Instant.text ⟨0, 0, 0⟩))).IsText :=
    Table.isText_put Table.isText_empty (Row.document_first bare _)
  obtain ⟨⟨report, report', t₁, t₂, hdirect, hgathered, -, -, hrows⟩, -⟩ :=
    synchronize_agrees htext ⟨1, 0, 0⟩ ⟨2, 0, 0⟩ models
  obtain ⟨direct, gathered, hrow₁, hrow₂, hcondensed⟩ := hrows "Photo" (by simp [models])
  rw [Table.get?_put_self] at hcondensed
  obtain ⟨last, -, htext₁, htext₂⟩ := hcondensed.text
  have hdocuments : Model.documentsOf "Photo" models = [opened, bare] := rfl
  have hfirst : ∀ r, some (Row.first bare (Instant.text ⟨0, 0, 0⟩)) = some r →
      r.revision.Is 1 := fun r hr => Option.some.inj hr ▸ ⟨1, rfl, Int64.toInt_one⟩
  obtain ⟨hthree, n, hone, -, -, hn⟩ := hcondensed.revision 1 hfirst nofun (by decide)
  rw [Option.bind_some, Row.text?_first, hdocuments, Document.changing_back hne] at hthree
  have hlast : [opened, bare].getLast? = some bare := rfl
  rw [Option.bind_some, Row.text?_first, hdocuments, hlast, Option.map_some] at hn
  obtain rfl := hn.mpr rfl
  exact ⟨report, report', t₁, t₂, direct, gathered, hdirect, hgathered, hrow₁, hrow₂,
    htext₁.trans htext₂.symm, hthree, hone⟩

end Session

end Schemata

import Mathlib.Logic.Relation
import Schemata.Proofs.Catalog.Embedding

/-!
# Schemata — Proofs — Catalog — Acyclicity

References have no cycles.  A kind that refers to a declaration is that of an object behind levels
of arrays and maps (`Kind.reference?_eq_some_iff`), and resolving it goes through the levels to the
object (`Kind.resolve_within`).  While a declaration is built its own name is pending and no other,
so a field that refers to it fails as cyclic, and one that refers to any other is resolved by the
entry of the other, if there is one.

The declarations that operations complete stand in an order in which each refers to earlier ones
only (`Declaration.Grounded`), so no chain of references comes back to where it started.

* `Catalog.references_acyclic`: a field that refers to a declaration, and what a run of operations
  completes.
-/

namespace Schemata

/-! ### Levels of a kind -/

namespace Kind

/-- A level around a kind: an array of it or a map to it. -/
inductive Level where
  | array (limits : ArrayLimits)
  | map (pattern : Option String) (limits : ObjectLimits)

/-- The kind with a level around it. -/
def Level.kind : Level → Kind → Kind
  | .array limits, k       => .array (some k) limits
  | .map pattern limits, k => .map (some k) pattern limits

/-- The fragment with a level around it. -/
def Level.fragment : Level → Fragment → Fragment
  | .array limits, f => { Fragment.typed .array with items := some f, arrayLimits := limits }
  | .map pattern limits, f =>
    { Fragment.typed .object with
      patternProperties := some [(pattern.getD anyKey, f)]
      additionalProperties := some false
      objectLimits := limits }

/-- The kind with levels around it, the first outermost. -/
def within (levels : List Level) (k : Kind) : Kind := levels.foldr Level.kind k

variable {lookup : String → Lookup}

theorem resolve_level (level : Level) (k : Kind) :
    (level.kind k).resolve lookup = (k.resolve lookup).map level.fragment := by
  cases level <;> rfl

/-- A kind fails to resolve for what is behind its levels, or they stand around its fragment. -/
theorem resolve_within (levels : List Level) (k : Kind) :
    (within levels k).resolve lookup
      = (k.resolve lookup).map (levels.foldr Level.fragment ·) := by
  induction levels with
  | nil => cases hk : k.resolve lookup <;> exact hk
  | cons level rest ih =>
      rw [within, List.foldr_cons, resolve_level, ← within, ih]
      cases k.resolve lookup <;> rfl

theorem reference?_within (levels : List Level) (k : Kind) :
    (within levels k).reference? = k.reference? := by
  induction levels with
  | nil => rfl
  | cons level rest ih => cases level <;> exact ih

/-- A kind that refers to a declaration is that of an object behind levels. -/
theorem reference?_eq_some_iff {name : String} : ∀ {k : Kind}, k.reference? = some name ↔
    ∃ levels limits, k = within levels (.object (some name) limits) := by
  have hlevels : ∀ {k : Kind}, k.reference? = some name →
      ∃ levels limits, k = within levels (.object (some name) limits) := by
    intro k h
    induction k using reference?.induct with
    | case1 reference limits => exact ⟨[], limits, by rw [within, List.foldr_nil, ← h, reference?]⟩
    | case2 item limits ih =>
        obtain ⟨levels, inner, rfl⟩ := ih h
        exact ⟨.array limits :: levels, inner, rfl⟩
    | case3 value pattern limits ih =>
        obtain ⟨levels, inner, rfl⟩ := ih h
        exact ⟨.map pattern limits :: levels, inner, rfl⟩
    | case4 k hobject harray hmap =>
        rw [reference?] at h
        · nomatch h
        all_goals assumption
  refine fun {k} => ⟨hlevels, ?_⟩
  rintro ⟨levels, limits, rfl⟩
  rw [reference?_within, reference?]

end Kind

/-! ### A field that refers to a declaration -/

/-- A field with a new name that is not reserved is attached if its kind resolves. -/
theorem Fields.attach_kind {lookup : String → Lookup} {fs : Fields} {name : String}
    (hname : name ≠ versionField) (hnew : fs.contains name = false) (declared : Option HostType)
    (kind : Kind) (required : Bool) :
    fs.attach lookup name declared ⟨some kind, required⟩ =
      ((kind.resolve lookup).mapError (.inField name)).map
        fun fragment => fs ++ [⟨name, fragment, required⟩] := by
  simp only [attach_eq, if_neg hname, hnew, Bool.false_eq_true, if_false, kindOf, bind,
    Except.bind]
  cases kind.resolve lookup <;> rfl

/-- A declaration of a name is being built: it was begun, and has taken what it could of the fields
that it was offered. -/
def Catalog.Building (c : Catalog) (name : String) (d : Draft) : Prop :=
  ∃ (start : Draft) (fields : List Declaration.Field),
    c.draft name = .ok start ∧ fields.foldl Draft.offer start = d

namespace Catalog.Building

variable {c : Catalog} {own : String} {start d : Draft}

/-- The declaration of a builder is being built after any calls. -/
theorem of_calls (hstart : c.draft own = .ok start) (calls : List Builder.Call) :
    c.Building own (Builder.run { draft := start } calls).draft :=
  ⟨start, Builder.offered calls, hstart, by rw [Builder.run_eq]⟩

theorem begunOn (h : c.Building own d) : d.BegunOn c ∧ d.name = own := by
  obtain ⟨start, fields, hstart, rfl⟩ := h
  obtain ⟨hbegun, hname, -⟩ := begunOn_of_draft hstart
  obtain ⟨hbegun', hname'⟩ := hbegun.attachAll (start.attachAll_taken fields)
  exact ⟨hbegun', hname'.trans hname⟩

/-- A declaration in progress knows its own name as pending, and of any other the entry. -/
theorem lookup_eq (h : c.Building own d) (hc : c.pending = []) (name : String) :
    d.catalog.lookup name =
      if name = own then .pending else ((c.get? name).map Lookup.found).getD .missing := by
  obtain ⟨hbegun, rfl⟩ := h.begunOn
  rw [hbegun, Catalog.lookup, hc]
  by_cases hown : name = d.name
  · rw [if_pos hown, if_pos (List.mem_singleton.mpr hown)]
  · rw [if_neg hown, if_neg (mt List.mem_singleton.mp hown)]
    have hget : get? { c with pending := [d.name] } name = c.get? name := rfl
    rw [hget]
    cases c.get? name <;> rfl

variable {name reference : String}

/-- What becomes of a field that refers to a declaration. -/
theorem attach_reference (h : c.Building own d) (hc : c.pending = []) (hname : name ≠ versionField)
    (hnew : d.fields.contains name = false) (declared : Option HostType)
    (levels : List Kind.Level) (limits : ObjectLimits) (required : Bool) :
    d.attach name declared ⟨some (.within levels (.object (some reference) limits)), required⟩ =
      if reference = own then .error (.unresolved name (.cyclicReference reference))
      else match c.get? reference with
        | none       => .error (.unresolved name (.unknownObject reference))
        | some shape => .ok { d with
            fields := d.fields ++ [⟨name, levels.foldr Kind.Level.fragment
              { Fragment.closedObject shape.properties shape.required with objectLimits := limits },
              required⟩] } := by
  rw [Draft.attach, Fields.attach_kind hname hnew, Kind.resolve_within, Kind.resolve,
    h.lookup_eq hc]
  by_cases hown : reference = own
  · rw [if_pos hown, if_pos hown]
    rfl
  · rw [if_neg hown, if_neg hown]
    cases c.get? reference <;> rfl

end Catalog.Building

/-! ### Declarations in order -/

namespace Declaration

/-- Declarations have names of their own, and each refers to earlier ones only. -/
inductive Grounded : List Item → Prop where
  | nil : Grounded []
  | snoc {ds : List Item} {d : Item} : Grounded ds → d.name ∉ ds.map Item.name →
      (∀ name ∈ d.references, name ∈ ds.map Item.name) → Grounded (ds ++ [d])

/-- The declaration of one name refers to the other name. -/
def Refers (ds : List Item) (name other : String) : Prop :=
  ∃ d ∈ ds, d.name = name ∧ other ∈ d.references

namespace Grounded

variable {ds : List Item}

/-- Whatever comes before a declaration, its name is not there, and what it refers to is. -/
theorem of_append (h : Grounded ds) {before after : List Item} {d : Item}
    (hds : ds = before ++ d :: after) :
    d.name ∉ before.map Item.name ∧ ∀ name ∈ d.references, name ∈ before.map Item.name := by
  induction h generalizing after with
  | nil => simp at hds
  | @snoc ds e hds' hname hrefs ih =>
      rcases List.eq_nil_or_concat after with rfl | ⟨after, last, rfl⟩
      · obtain ⟨rfl, hlast⟩ := List.append_inj' hds rfl
        obtain rfl := List.singleton_inj.mp hlast
        exact ⟨hname, hrefs⟩
      · rw [List.concat_eq_append, ← List.cons_append, ← List.append_assoc] at hds
        exact ih (List.append_inj' hds rfl).1

/-- A declaration comes after what it refers to. -/
theorem idxOf_lt (h : Grounded ds) {name other : String} (href : Refers ds name other) :
    (ds.map Item.name).idxOf other < (ds.map Item.name).idxOf name := by
  obtain ⟨d, hd, rfl, hother⟩ := href
  induction h with
  | nil => nomatch hd
  | @snoc ds e hds hname hrefs ih =>
      rw [List.map_append, List.map_singleton]
      rcases List.mem_append.mp hd with hd | hd
      · -- what an earlier one refers to is earlier still, so neither place is the last
        have hmem : d.name ∈ ds.map Item.name := List.mem_map_of_mem hd
        have hother : other ∈ ds.map Item.name :=
          List.idxOf_lt_length_iff.mp (Nat.lt_trans (ih hd) (List.idxOf_lt_length_iff.mpr hmem))
        rw [List.idxOf_append_of_mem hmem, List.idxOf_append_of_mem hother]
        exact ih hd
      · obtain rfl := List.mem_singleton.mp hd
        have hmem := hrefs other hother
        rw [List.idxOf_append_of_mem hmem, List.idxOf_append_of_notMem hname]
        exact Nat.lt_add_right _ (List.idxOf_lt_length_iff.mpr hmem)

/-- **No chain of references comes back to where it started.** -/
theorem acyclic (h : Grounded ds) (name : String) : ¬ Relation.TransGen (Refers ds) name name := by
  have hlt : ∀ {a b}, Relation.TransGen (Refers ds) a b →
      (ds.map Item.name).idxOf b < (ds.map Item.name).idxOf a := by
    intro a b hab
    induction hab with
    | single hab => exact h.idxOf_lt hab
    | tail _ hbc ih => exact Nat.lt_trans (h.idxOf_lt hbc) ih
  exact fun hcycle => Nat.lt_irrefl _ (hlt hcycle)

end Grounded

end Declaration

/-! ### What operations complete -/

namespace Catalog

open Declaration (Item Grounded Refers)

/-- The declaration that an operation amounts to: one that is made whole, or what a builder took
before it was finished. -/
def Operation.item? (c : Catalog) : Operation → Option Item
  | .object o => some (.object o)
  | .buildObject name fields finished =>
    match finished, c.draft name with
    | true, .ok d => some (.object ⟨name, d.taken fields⟩)
    | _, _        => none
  | op => (op.declaration? c).map .model

/-- The declarations that operations complete, in order. -/
def completed (c : Catalog) : List Operation → List Item
  | []         => []
  | op :: rest =>
    (match (c.perform op).1 with
      | .declared _ => (op.item? c).toList
      | _           => []) ++ completed (c.perform op).2 rest

variable {c : Catalog} {op : Operation} {model : Option Model}

theorem Outcome.exists_of_ofModel {out : Except DeclarationError Model × Catalog}
    (h : (out.map ofModel id).1 = .declared model) : ∃ m, model = some m := by
  obtain ⟨result, c'⟩ := out
  cases result with
  | error e => nomatch h
  | ok m => exact ⟨m, (declared.inj h).symm⟩

/-- What an operation declares is what its declaration gives. -/
theorem exists_item_of_perform (h : (c.perform op).1 = .declared model) :
    ∃ d, op.item? c = some d ∧ c.declare d = (.ok model, (c.perform op).2) := by
  have hmodel : (∃ m, model = some m) → op.item? c = (op.declaration? c).map .model →
      ∃ d, op.item? c = some d ∧ c.declare d = (.ok model, (c.perform op).2) := by
    rintro ⟨m, rfl⟩ hitem
    obtain ⟨decl, hdecl, hdeclare⟩ := exists_declaration_of_perform h
    exact ⟨.model decl, by rw [hitem, hdecl]; rfl, declare_model_eq_ok_iff.mpr ⟨m, hdeclare, rfl⟩⟩
  cases op with
  | model m => exact hmodel (Outcome.exists_of_ofModel h) rfl
  | object o =>
      refine ⟨.object o, rfl, declare_object_eq_ok_iff.mpr ?_⟩
      rw [perform] at h ⊢
      generalize c.declareObject o = out at h ⊢
      obtain ⟨result, c'⟩ := out
      cases result with
      | error e => cases h
      | ok _ => exact ⟨rfl, (Outcome.declared.inj h).symm⟩
  | buildModel name calls finished =>
      refine hmodel ?_ rfl
      rw [perform] at h
      split at h
      · cases h
      · cases finished with
        | false => cases h
        | true => exact Outcome.exists_of_ofModel h
  | buildObject name fields finished =>
      cases hdraft : c.draft name with
      | error e => simp only [perform, hdraft] at h; cases h
      | ok d =>
          cases finished with
          | false => simp only [perform, hdraft] at h; cases h
          | true =>
              simp only [perform, hdraft] at h ⊢
              -- the fields that the builder took attach one after another
              refine ⟨.object ⟨name, d.taken fields⟩, by simp only [Operation.item?, hdraft],
                declare_object_eq_ok_iff.mpr ⟨?_, (Outcome.declared.inj h).symm⟩⟩
              simp only [declareObject, hdraft, d.attachAll_taken fields, if_true]

/-- What each operation keeps, with what it completes, operations keep one after another. -/
theorem run_induction {P : Catalog → List Item → Prop}
    (hperform : ∀ {c ds} op, P c ds → P (c.perform op).2 (ds ++ c.completed [op]))
    {ds : List Item} (h : P c ds) (ops : List Operation) :
    P (c.run ops) (ds ++ c.completed ops) := by
  induction ops generalizing c ds with
  | nil => rwa [completed, List.append_nil]
  | cons op rest ih =>
      have hrest := ih (hperform op h)
      simp only [completed, List.append_nil, List.append_assoc] at hrest ⊢
      exact hrest

/-- The entries of a catalog are of declarations, in order, each of which refers to earlier ones
only. -/
structure Records (c : Catalog) (ds : List Item) : Prop where
  pending : c.pending = []
  names : c.entries.map Prod.fst = ds.map Item.name
  grounded : Grounded ds

namespace Records

variable {ds : List Item}

theorem contains_iff (h : c.Records ds) (name : String) :
    c.contains name = true ↔ name ∈ ds.map Item.name := by
  rw [← h.names]
  simp [contains, get?]

/-- An operation adds what it completes. -/
theorem perform (h : c.Records ds) (op : Operation) :
    (c.perform op).2.Records (ds ++ c.completed [op]) := by
  have hperformed := performed h.pending op
  rw [completed, completed, List.append_nil]
  split
  · next model hout =>
      obtain ⟨d, hd, hdeclare⟩ := exists_item_of_perform hout
      obtain ⟨⟨hfree, -⟩, fs, hgives, hafter⟩ := declare_eq_ok_iff.mp hdeclare
      rw [hd, Option.toList_some, hafter]
      refine ⟨h.pending, ?_, h.grounded.snoc (fun hmem => ?_) fun name hname => ?_⟩
      · rw [record, List.map_append, List.map_append, h.names]
        rfl
      · rw [(h.contains_iff d.name).mpr hmem] at hfree
        nomatch hfree
      · obtain ⟨-, shape, hget⟩ := hgives.exists_shape hname
        exact (h.contains_iff name).mp (by rw [contains, hget]; rfl)
  · next hnot =>
      rw [List.append_nil, hperformed.eq_of_not_declared hnot]
      exact h

/-- Operations add what they complete, one after another. -/
theorem run (h : c.Records ds) (ops : List Operation) :
    (c.run ops).Records (ds ++ c.completed ops) :=
  run_induction (fun op h => h.perform op) h ops

end Records

/-- **References have no cycles**, whatever operations were done.  While a declaration is built, a
field of a new name that is not reserved and that refers to a declaration, at any depth of its kind,
fails as cyclic just if it refers to the declaration itself, and as unknown just if it refers to
another that has no entry; else the properties of the entry are taken over.  The entries are of the
declarations that the operations completed, each of which refers to earlier ones only.  So no chain
of references comes back to where it started. -/
theorem references_acyclic (ops : List Operation) :
    let c := run {} ops
    let ds := completed {} ops
    (∀ own d, c.Building own d → ∀ (name : String) (declared : Option HostType) (kind : Kind)
        (required : Bool) (reference : String), name ≠ versionField →
        d.fields.contains name = false → kind.reference? = some reference →
      let out := d.attach name declared ⟨some kind, required⟩
      (out = .error (.unresolved name (.cyclicReference reference)) ↔ reference = own) ∧
      (out = .error (.unresolved name (.unknownObject reference)) ↔
        reference ≠ own ∧ c.get? reference = none) ∧
      ∀ shape, reference ≠ own → c.get? reference = some shape →
        ∃ levels limits, kind = .within levels (.object (some reference) limits) ∧
          out = .ok { d with fields := d.fields ++ [⟨name, levels.foldr Kind.Level.fragment
            { Fragment.closedObject shape.properties shape.required with objectLimits := limits },
            required⟩] }) ∧
    c.entries.map Prod.fst = ds.map Item.name ∧
    (∀ before d after, ds = before ++ d :: after → d.name ∉ before.map Item.name ∧
      ∀ name ∈ d.references, name ∈ before.map Item.name) ∧
    ∀ name, ¬ Relation.TransGen (Refers ds) name name := by
  intro c ds
  have hempty : Records {} [] := ⟨rfl, rfl, .nil⟩
  have hrecords : c.Records ds := hempty.run ops
  refine ⟨fun own d hd name declared kind required reference hname hnew href => ?_, hrecords.names,
    fun before d after => hrecords.grounded.of_append, hrecords.grounded.acyclic⟩
  obtain ⟨levels, limits, rfl⟩ := Kind.reference?_eq_some_iff.mp href
  intro out
  have hout := @hd.attach_reference _ _ _ _ reference hrecords.pending hname hnew declared levels
    limits required
  change out = _ at hout
  by_cases hown : reference = own
  · rw [if_pos hown] at hout
    rw [hout]
    exact ⟨iff_of_true rfl hown, iff_of_false nofun fun h => h.1 hown, fun _ h => absurd hown h⟩
  · rw [if_neg hown] at hout
    refine ⟨iff_of_false ?_ hown, ?_, fun shape _ hget => ⟨levels, limits, rfl, ?_⟩⟩
    · rw [hout]
      cases c.get? reference <;> nofun
    · rw [hout]
      cases c.get? reference with
      | none => exact iff_of_true rfl ⟨hown, rfl⟩
      | some shape => exact iff_of_false nofun fun h => nomatch h.2
    · rw [hout, hget]

/-- A node is built after places are known: it cannot refer to nodes, however deep, nor to trees,
but it can refer to places. -/
theorem references_acyclic_node : ∃ d, (run {} [.place]).Building "Node" d ∧
    d.attach "next" none ⟨some (.arrayOf (.mapOf (.embedded "Node"))), false⟩
      = .error (.unresolved "next" (.cyclicReference "Node")) ∧
    d.attach "tree" none ⟨some (.arrayOf (.embedded "Tree")), false⟩
      = .error (.unresolved "tree" (.unknownObject "Tree")) ∧
    ∃ d', d.attach "at" none ⟨some (.arrayOf (.embedded "Place")), true⟩ = .ok d' ∧
      d'.fields.names = ["label", "at"] ∧
      (run {} [.place]).entries.map Prod.fst = ["Place"] := by
  obtain ⟨hattach, hentries, -⟩ := references_acyclic [.place]
  have hbuilding : (run {} [.place]).Building "Node" _ :=
    .of_calls rfl [.field { name := "label", kind := some .anyString }, .settings {}]
  specialize hattach "Node" _ hbuilding
  refine ⟨_, hbuilding, (hattach "next" none _ false "Node" (by decide) rfl rfl).1.mpr rfl,
    (hattach "tree" none _ false "Tree" (by decide) rfl rfl).2.1.mpr ⟨by decide, rfl⟩, ?_⟩
  obtain ⟨levels, limits, -, hout⟩ :=
    (hattach "at" none (.arrayOf (.embedded "Place")) true "Place" (by decide) rfl rfl).2.2 _
      (by decide) rfl
  exact ⟨_, hout, rfl, hentries⟩

end Catalog

end Schemata

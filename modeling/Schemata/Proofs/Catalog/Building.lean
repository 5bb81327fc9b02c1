import Schemata.Catalog.Builder
import Schemata.Proofs.Catalog

/-!
# Schemata — Proofs — Catalog — Building

What operations do to a catalog.  A draft stands for the catalog that it was begun on with its own
name pending (`Draft.BegunOn`), and no field that it takes changes that.  So there are three ways
out of an operation (`Catalog.Performed`): it is refused at its start, it gives the catalog back as
it was, or it adds one entry.

* `Catalog.performed`: every operation ends in one of these ways.
* `Catalog.perform_effective`: of the calls on a builder only those count that succeed, and of the
  settings the last.
* `Catalog.perform_atomic`: what an operation does after any others.
-/

namespace Schemata

/-! ### Drafts -/

namespace Draft

/-- The fields that a draft takes of those it is offered. -/
def taken : Draft → List Declaration.Field → List Declaration.Field
  | _, []        => []
  | d, f :: rest =>
    match d.attach f.name f.declared f.options with
    | .ok d'   => f :: taken d' rest
    | .error _ => taken d rest

/-- A draft was begun on a catalog: it has that catalog with its own name pending. -/
def BegunOn (c : Catalog) (d : Draft) : Prop :=
  d.catalog = { c with pending := d.name :: c.pending }

variable {c : Catalog} {d d' : Draft} {name : String} {declared : Option HostType}
  {options : FieldOptions} {fields : List Declaration.Field}

/-- Attaching a field changes the fields of a draft and nothing else. -/
theorem attach_cases (h : d.attach name declared options = .ok d') :
    ∃ fs, d.fields.attach d.catalog.lookup name declared options = .ok fs ∧
      d' = { d with fields := fs } := by
  unfold attach at h
  cases hfs : d.fields.attach d.catalog.lookup name declared options with
  | error e => rw [hfs] at h; nomatch h
  | ok fs =>
      rw [hfs] at h
      exact ⟨fs, rfl, (Except.ok.inj h).symm⟩

theorem attachAll_cons_eq_ok_iff {f : Declaration.Field} : d.attachAll (f :: fields) = .ok d' ↔
    ∃ mid, d.attach f.name f.declared f.options = .ok mid ∧ mid.attachAll fields = .ok d' := by
  rw [attachAll, List.foldlM_cons]
  exact bind_eq_ok

/-- What is kept as one field after another is attached, is kept when they all are. -/
theorem attachAll_induction {P : Draft → Prop}
    (hattach : ∀ {d d' : Draft} {f : Declaration.Field}, P d →
      d.attach f.name f.declared f.options = .ok d' → P d')
    (hd : P d) (h : d.attachAll fields = .ok d') : P d' := by
  induction fields generalizing d with
  | nil => exact Except.ok.inj h ▸ hd
  | cons f rest ih =>
      obtain ⟨mid, hmid, h⟩ := attachAll_cons_eq_ok_iff.mp h
      exact ih (hattach hd hmid) h

theorem BegunOn.attach (hd : d.BegunOn c) (h : d.attach name declared options = .ok d') :
    d'.BegunOn c ∧ d'.name = d.name := by
  obtain ⟨fs, -, rfl⟩ := attach_cases h
  exact ⟨hd, rfl⟩

theorem BegunOn.attachAll (hd : d.BegunOn c) (h : d.attachAll fields = .ok d') :
    d'.BegunOn c ∧ d'.name = d.name := by
  refine attachAll_induction (P := fun e => e.BegunOn c ∧ e.name = d.name) ?_ ⟨hd, rfl⟩ h
  rintro e e' f ⟨he, hname⟩ hattach
  obtain ⟨he', hname'⟩ := he.attach hattach
  exact ⟨he', hname'.trans hname⟩

/-- A draft that is given up leaves the catalog that it was begun on. -/
theorem BegunOn.abandon (hd : d.BegunOn c) : d.abandon = c := by
  rw [Draft.abandon, hd]
  simp

/-- A draft that is completed adds its fields under its name. -/
theorem BegunOn.complete (hd : d.BegunOn c) :
    d.complete = { c with entries := c.entries ++ [(d.name, d.fields.shape)] } := by
  rw [Draft.complete, hd]
  simp

/-! ### Fields that are offered -/

theorem offer_of_ok {f : Declaration.Field} (h : d.attach f.name f.declared f.options = .ok d') :
    d.offer f = d' := by
  simp [offer, h]

theorem offer_of_error {f : Declaration.Field} {e : DeclarationError}
    (h : d.attach f.name f.declared f.options = .error e) : d.offer f = d := by
  simp [offer, h]

/-- The fields that a draft takes attach one after another, and lead to where it ends when it is
offered all of them. -/
theorem attachAll_taken (d : Draft) (fields : List Declaration.Field) :
    d.attachAll (d.taken fields) = .ok (fields.foldl offer d) := by
  induction fields generalizing d with
  | nil => rfl
  | cons f rest ih =>
      rw [List.foldl_cons]
      cases hf : d.attach f.name f.declared f.options with
      | ok d' =>
          rw [taken, hf, offer_of_ok hf]
          exact attachAll_cons_eq_ok_iff.mpr ⟨d', hf, ih d'⟩
      | error e =>
          rw [taken, hf, offer_of_error hf]
          exact ih d

/-- Fields that attach one after another are all taken when they are offered. -/
theorem foldl_offer_of_attachAll (h : d.attachAll fields = .ok d') :
    fields.foldl offer d = d' := by
  induction fields generalizing d with
  | nil => exact Except.ok.inj h
  | cons f rest ih =>
      obtain ⟨mid, hmid, h⟩ := attachAll_cons_eq_ok_iff.mp h
      rw [List.foldl_cons, offer_of_ok hmid]
      exact ih h

/-- Offering the fields that are taken does what offering all of them does. -/
theorem foldl_offer_taken (d : Draft) (fields : List Declaration.Field) :
    (d.taken fields).foldl offer d = fields.foldl offer d :=
  foldl_offer_of_attachAll (d.attachAll_taken fields)

end Draft

/-! ### Builders -/

namespace Builder

/-- The fields that calls offer. -/
def offered (calls : List Call) : List Declaration.Field :=
  calls.filterMap fun
    | .field f    => some f
    | .settings _ => none

/-- The settings that calls give last. -/
def chosen? (calls : List Call) : Option Settings :=
  (calls.filterMap fun
    | .field _    => none
    | .settings s => some s).getLast?

/-- The calls that count: for the fields that a draft takes, and to give the last settings. -/
def effective (d : Draft) (calls : List Call) : List Call :=
  (d.taken (offered calls)).map .field ++ (chosen? calls).toList.map .settings

/-- Calls offer their fields in order and leave the settings that they give last. -/
theorem run_eq (b : Builder) (calls : List Call) :
    b.run calls = ⟨(offered calls).foldl Draft.offer b.draft,
      (chosen? calls).getD b.settings⟩ := by
  induction calls generalizing b with
  | nil => rfl
  | cons call rest ih =>
      have hrun : b.run (call :: rest) = (b.next call).run rest := rfl
      rw [hrun, ih]
      cases call with
      | field f => rfl
      | settings s =>
          have hlast : chosen? (.settings s :: rest) = some ((chosen? rest).getD s) := by
            simp [chosen?, List.getLast?_cons]
          rw [hlast]
          rfl

theorem offered_append (calls calls' : List Call) :
    offered (calls ++ calls') = offered calls ++ offered calls' :=
  List.filterMap_append

theorem offered_fields (fields : List Declaration.Field) :
    offered (fields.map .field) = fields := by
  induction fields with
  | nil => rfl
  | cons f rest ih => exact congrArg (f :: ·) ih

theorem offered_effective (d : Draft) (calls : List Call) :
    offered (effective d calls) = d.taken (offered calls) := by
  have hsettings : offered ((chosen? calls).toList.map .settings) = [] := by
    cases chosen? calls <;> rfl
  rw [effective, offered_append, offered_fields, hsettings, List.append_nil]

theorem chosen?_effective (d : Draft) (calls : List Call) :
    chosen? (effective d calls) = chosen? calls := by
  have hfields : ((d.taken (offered calls)).map Call.field).filterMap (fun
      | .field _    => none
      | .settings s => some s) = [] := by
    simp
  rw [chosen?, effective, List.filterMap_append, hfields]
  cases chosen? calls <;> rfl

/-- Only the calls that count lead anywhere. -/
theorem run_effective (b : Builder) (calls : List Call) :
    b.run (effective b.draft calls) = b.run calls := by
  rw [run_eq, run_eq, offered_effective, chosen?_effective, Draft.foldl_offer_taken]

end Builder

/-! ### Operations on a catalog -/

namespace Catalog

/-- The fields that an operation offers. -/
def Operation.fields : Operation → List Declaration.Field
  | .model m                => m.fields
  | .object o               => o.fields
  | .buildModel _ calls _   => Builder.offered calls
  | .buildObject _ fields _ => fields

/-- The settings of an operation: those of a model, or those that a builder was given last. -/
def Operation.settings : Operation → Settings
  | .model m                           => m.settings
  | .buildModel _ calls _              => (Builder.chosen? calls).getD {}
  | .object _ | .buildObject _ _ _     => {}

/-- Whether an operation is one on a builder. -/
def Operation.isBuilt : Operation → Bool
  | .model _ | .object _                   => false
  | .buildModel _ _ _ | .buildObject _ _ _ => true

/-- The operation with only the calls on its builder that count. -/
def effective (c : Catalog) : Operation → Operation
  | .buildModel name calls finished =>
    match c.draft name with
    | .error _ => .buildModel name calls finished
    | .ok d    => .buildModel name (Builder.effective d calls) finished
  | .buildObject name fields finished =>
    match c.draft name with
    | .error _ => .buildObject name fields finished
    | .ok d    => .buildObject name (d.taken fields) finished
  | op => op

variable {c : Catalog} {d : Draft}

/-- Fields that are offered to a builder attach one after another, if only those count that the
draft takes. -/
theorem attachAll_effective {op : Operation} (hbuilt : op.isBuilt = true)
    (hdraft : c.draft op.name = .ok d) :
    d.attachAll (c.effective op).fields = .ok (op.fields.foldl Draft.offer d) := by
  cases op with
  | model | object => nomatch hbuilt
  | buildModel name calls finished =>
      rw [Operation.name] at hdraft
      simp only [effective, hdraft, Operation.fields, Builder.offered_effective]
      exact d.attachAll_taken _
  | buildObject name fields finished =>
      rw [Operation.name] at hdraft
      simp only [effective, hdraft, Operation.fields]
      exact d.attachAll_taken _

end Catalog

/-! ### How an operation ends -/

/-- An error that is not about the name of a declaration. -/
def DeclarationError.IsWithin (e : DeclarationError) : Prop :=
  ∀ name, e ≠ .duplicateDeclaration name

theorem Fields.isWithin_of_attach {lookup : String → Lookup} {fs : Fields} {name : String}
    {declared : Option HostType} {options : FieldOptions} {e : DeclarationError}
    (h : fs.attach lookup name declared options = .error e) : e.IsWithin := by
  by_cases hreserved : name = versionField
  · simp only [attach_eq, if_pos hreserved] at h
    obtain rfl := Except.error.inj h
    rintro _ ⟨⟩
  by_cases hdup : fs.contains name = true
  · simp only [attach_eq, if_neg hreserved, if_pos hdup] at h
    obtain rfl := Except.error.inj h
    rintro _ ⟨⟩
  simp only [attach_eq, if_neg hreserved, if_neg hdup] at h
  rcases bind_eq_error.mp h with hkind | ⟨kind, -, h⟩
  · unfold kindOf at hkind
    split at hkind
    · cases hkind
    · split at hkind
      · cases hkind
      · obtain rfl := Except.error.inj hkind
        rintro _ ⟨⟩
  rcases bind_eq_error.mp h with hresolve | ⟨fragment, -, h⟩
  · cases hr : kind.resolve lookup with
    | ok f => rw [hr] at hresolve; cases hresolve
    | error cause =>
        rw [hr] at hresolve
        obtain rfl := Except.error.inj hresolve
        cases cause <;> rintro _ ⟨⟩
  · cases h

theorem Draft.isWithin_of_attachAll {d : Draft} {fields : List Declaration.Field}
    {e : DeclarationError} (h : d.attachAll fields = .error e) : e.IsWithin := by
  induction fields generalizing d with
  | nil => cases h
  | cons f rest ih =>
      rw [attachAll, List.foldlM_cons] at h
      rcases bind_eq_error.mp h with h | ⟨mid, -, h⟩
      · exact Fields.isWithin_of_attach (eq_error_of_map h)
      · exact ih h

theorem Document.isWithin_of_compile {fs : Fields} {settings : Settings} {e : DeclarationError}
    (h : compile fs settings = .error e) : e.IsWithin := by
  have hstamp : ∀ {ps : Properties} {name : String} {e : DeclarationError},
      addStamp ps name = .error e → e.IsWithin := by
    intro ps name e h
    unfold addStamp at h
    split at h
    · obtain rfl := Except.error.inj h
      exact nofun
    · nomatch h
  rcases bind_eq_error.mp h with h | ⟨ps, -, h⟩
  · cases hnames : settings.timestamps.names? with
    | none => rw [hnames] at h; nomatch h
    | some names =>
        rw [hnames] at h
        rcases bind_eq_error.mp h with h | ⟨mid, -, h⟩
        · exact hstamp h
        · exact hstamp h
  rcases bind_eq_error.mp h with h | ⟨-, -, h⟩
  · unfold checkDefaults at h
    split at h
    · obtain rfl := Except.error.inj h
      exact nofun
    · nomatch h
  · nomatch h

namespace Catalog

/-- The ways in which an operation on a name, with some fields and settings, ends.  The name has an
entry and it is refused; or the name has none, and the catalog is as before or has one entry more,
of the fields, which were attached. -/
inductive Performed (c : Catalog) (name : String) (fields : List Declaration.Field)
    (settings : Settings) : Outcome × Catalog → Prop where
  | refused (h : c.contains name = true) :
      Performed c name fields settings (.failed (.duplicateDeclaration name), c)
  | failed {e : DeclarationError} (h : c.contains name = false) (he : e.IsWithin) :
      Performed c name fields settings (.failed e, c)
  | dropped (h : c.contains name = false) : Performed c name fields settings (.dropped, c)
  | declared {d d' : Draft} {model : Option Model} (h : c.contains name = false)
      (hdraft : c.draft name = .ok d) (hfields : d.attachAll fields = .ok d')
      (hmodel : ∀ m, model = some m → m.name = name ∧
        Document.compile d'.fields settings = .ok m.document) :
      Performed c name fields settings
        (.declared model, { c with entries := c.entries ++ [(name, d'.fields.shape)] })

/-- An operation ends in one of these ways, with the fields and the settings that count. -/
abbrev Operation.Performed (c : Catalog) (op : Operation) : Prop :=
  Catalog.Performed c op.name (c.effective op).fields (c.effective op).settings (c.perform op)

variable {c : Catalog} {name : String} {d d' : Draft} {fields : List Declaration.Field}

/-- A declaration begins just where its name has no entry, if none is in progress. -/
theorem draft_cases (hc : c.pending = []) (name : String) :
    (c.contains name = true ∧ c.draft name = .error (.duplicateDeclaration name)) ∨
    (c.contains name = false ∧ ∃ d, c.draft name = .ok d) := by
  cases hname : c.contains name with
  | true => exact .inl ⟨rfl, by simp [draft, hname]⟩
  | false =>
      refine .inr ⟨rfl, ⟨{ c with pending := name :: c.pending }, name, []⟩, ?_⟩
      simp [draft, hname, hc]

theorem begunOn_of_draft (h : c.draft name = .ok d) :
    d.BegunOn c ∧ d.name = name ∧ d.fields = [] := by
  unfold draft at h
  split at h
  · nomatch h
  · obtain rfl := Except.ok.inj h
    exact ⟨rfl, rfl, rfl⟩

/-- A draft that is finished as a model. -/
theorem Performed.finishModel (hname : c.contains name = false) (hdraft : c.draft name = .ok d)
    (hfields : d.attachAll fields = .ok d') (settings : Settings) :
    Performed c name fields settings ((d'.finishModel settings).map .ofModel id) := by
  obtain ⟨hd, hdname, -⟩ := begunOn_of_draft hdraft
  obtain ⟨hbegun, hsame⟩ := hd.attachAll hfields
  obtain rfl : d'.name = name := hsame.trans hdname
  unfold Draft.finishModel
  cases hcompile : Document.compile d'.fields settings with
  | ok document =>
      have hmodel : ∀ m, some (⟨d'.name, document⟩ : Model) = some m → m.name = d'.name ∧
          Document.compile d'.fields settings = .ok m.document := by
        rintro m ⟨⟩
        exact ⟨rfl, hcompile⟩
      simpa [Outcome.ofModel, hbegun.complete] using
        Performed.declared hname hdraft hfields hmodel
  | error e =>
      simpa [Outcome.ofModel, hbegun.abandon] using
        Performed.failed hname (Document.isWithin_of_compile hcompile)

/-- A draft that is finished as an object. -/
theorem Performed.complete (hname : c.contains name = false) (hdraft : c.draft name = .ok d)
    (hfields : d.attachAll fields = .ok d') (settings : Settings) :
    Performed c name fields settings (.declared none, d'.complete) := by
  obtain ⟨hd, hdname, -⟩ := begunOn_of_draft hdraft
  obtain ⟨hbegun, hsame⟩ := hd.attachAll hfields
  obtain rfl : d'.name = name := hsame.trans hdname
  rw [hbegun.complete]
  exact .declared hname hdraft hfields nofun

variable (hc : c.pending = [])
include hc

theorem performed_model (m : Declaration.Model) : (Operation.model m).Performed c := by
  change Performed c m.name m.fields m.settings _
  rw [perform, declareModel]
  rcases draft_cases hc m.name with ⟨hname, hdraft⟩ | ⟨hname, d, hdraft⟩
  · rw [hdraft]
    exact .refused hname
  · rw [hdraft]
    cases hfields : d.attachAll m.fields with
    | error e =>
        simpa [hfields, Outcome.ofModel, (begunOn_of_draft hdraft).1.abandon] using
          Performed.failed hname (Draft.isWithin_of_attachAll hfields)
    | ok d' => simpa [hfields] using Performed.finishModel hname hdraft hfields m.settings

theorem performed_object (o : Declaration.Object) : (Operation.object o).Performed c := by
  change Performed c o.name o.fields {} _
  rw [perform, declareObject]
  rcases draft_cases hc o.name with ⟨hname, hdraft⟩ | ⟨hname, d, hdraft⟩
  · rw [hdraft]
    exact .refused hname
  · rw [hdraft]
    cases hfields : d.attachAll o.fields with
    | error e =>
        simpa [hfields, Outcome.ofObject, (begunOn_of_draft hdraft).1.abandon] using
          Performed.failed hname (Draft.isWithin_of_attachAll hfields)
    | ok d' =>
        simpa [hfields, Outcome.ofObject] using Performed.complete hname hdraft hfields {}

theorem performed_buildModel (name : String) (calls : List Builder.Call) (finished : Bool) :
    (Operation.buildModel name calls finished).Performed c := by
  rcases draft_cases hc name with ⟨hname, hdraft⟩ | ⟨hname, d, hdraft⟩
  · rw [Operation.Performed, perform, hdraft]
    exact .refused hname
  · -- the fields that the builder took are fields that attach one after another
    have hfields := d.attachAll_taken (Builder.offered calls)
    simp only [Operation.Performed, Operation.name, perform, effective, hdraft, Builder.run_eq,
      Operation.fields, Operation.settings, Builder.finish, Builder.offered_effective,
      Builder.chosen?_effective]
    cases finished with
    | true => simpa using Performed.finishModel hname hdraft hfields _
    | false =>
        have hd := ((begunOn_of_draft hdraft).1.attachAll hfields).1
        simpa [hd.abandon] using Performed.dropped hname

theorem performed_buildObject (name : String) (fields : List Declaration.Field)
    (finished : Bool) : (Operation.buildObject name fields finished).Performed c := by
  rcases draft_cases hc name with ⟨hname, hdraft⟩ | ⟨hname, d, hdraft⟩
  · rw [Operation.Performed, perform, hdraft]
    exact .refused hname
  · have hfields := d.attachAll_taken fields
    simp only [Operation.Performed, Operation.name, perform, effective, hdraft, Operation.fields,
      Operation.settings]
    cases finished with
    | true => simpa using Performed.complete hname hdraft hfields {}
    | false =>
        have hd := ((begunOn_of_draft hdraft).1.attachAll hfields).1
        simpa [hd.abandon] using Performed.dropped hname

/-- **Every operation ends in one of these ways**, if no declaration is in progress. -/
theorem performed (op : Operation) : op.Performed c := by
  cases op with
  | model m => exact performed_model hc m
  | object o => exact performed_object hc o
  | buildModel name calls finished => exact performed_buildModel hc name calls finished
  | buildObject name fields finished => exact performed_buildObject hc name fields finished

omit hc

/-! ### What every way of ending has in common -/

namespace Performed

variable {settings : Settings} {out : Outcome × Catalog}

theorem pending (hc : c.pending = []) (h : Performed c name fields settings out) :
    out.2.pending = [] := by
  cases h with
  | refused => exact hc
  | failed => exact hc
  | dropped => exact hc
  | declared => exact hc

/-- An operation is refused for its name just where the name has an entry. -/
theorem refused_iff (h : Performed c name fields settings out) :
    out.1 = .failed (.duplicateDeclaration name) ↔ c.contains name = true := by
  cases h with
  | refused hname => exact iff_of_true rfl hname
  | failed hname he =>
      refine iff_of_false (fun heq => ?_) (by simp [hname])
      exact he name (Outcome.failed.inj heq)
  | dropped hname => exact iff_of_false nofun (by simp [hname])
  | declared hname => exact iff_of_false nofun (by simp [hname])

/-- What declares nothing changes nothing. -/
theorem eq_of_not_declared (h : Performed c name fields settings out)
    (hnot : ∀ model, out.1 ≠ .declared model) : out.2 = c := by
  cases h with
  | refused => rfl
  | failed => rfl
  | dropped => rfl
  | declared => exact absurd rfl (hnot _)

/-- What declares something adds one entry, of its own fields and under its own name, which had
none. -/
theorem added_of_declared (h : Performed c name fields settings out) {model : Option Model}
    (hout : out.1 = .declared model) :
    c.contains name = false ∧ ∃ d d', c.draft name = .ok d ∧ d.attachAll fields = .ok d' ∧
      out.2 = { c with entries := c.entries ++ [(name, d'.fields.shape)] } ∧
      ∀ m, model = some m → m.name = name ∧
        Document.compile d'.fields settings = .ok m.document := by
  cases h with
  | refused => nomatch hout
  | failed => nomatch hout
  | dropped => nomatch hout
  | @declared d d' model' hname hdraft hfields hmodel =>
      obtain rfl := Outcome.declared.inj hout
      exact ⟨hname, d, d', hdraft, hfields, rfl, hmodel⟩

end Performed

theorem get?_append_self {shape : Shape} (h : c.contains name = false) :
    get? { c with entries := c.entries ++ [(name, shape)] } name = some shape := by
  have hnone : c.entries.find? (·.1 = name) = none := by
    simpa [contains, get?] using h
  simp [get?, List.find?_append, hnone]

theorem get?_append_of_ne (c : Catalog) (shape : Shape) {other : String} (h : other ≠ name) :
    get? { c with entries := c.entries ++ [(name, shape)] } other = c.get? other := by
  simp [get?, List.find?_append, Ne.symm h]

/-- No declaration is in progress between operations. -/
theorem pending_run (ops : List Operation) : (run {} ops).pending = [] := by
  have hrun : ∀ c : Catalog, c.pending = [] → (c.run ops).pending = [] := by
    induction ops with
    | nil => exact fun _ hc => hc
    | cons op rest ih => exact fun c hc => ih _ ((performed hc op).pending hc)
  exact hrun {} rfl

/-! ### The calls that count -/

/-- **Of the calls on a builder only those count that succeed, and of the settings the last.** -/
theorem perform_effective (c : Catalog) (op : Operation) :
    c.perform (c.effective op) = c.perform op := by
  cases op with
  | model m => rfl
  | object o => rfl
  | buildModel name calls finished =>
      rw [effective]
      cases hdraft : c.draft name with
      | error e => rfl
      | ok d =>
          have hrun := Builder.run_effective { draft := d } calls
          simp only [perform, hdraft, hrun]
  | buildObject name fields finished =>
      rw [effective]
      cases hdraft : c.draft name with
      | error e => rfl
      | ok d => simp only [perform, hdraft, Draft.foldl_offer_taken]

/-- **What an operation does to a catalog, whatever was done to it before.**  No name is pending
after it.  It is refused for its name just where the name has an entry.  If it declares nothing the
catalog is as before; if it declares something its name had no entry and has one now, of its fields
as they were attached, which a model was compiled from too, and every other entry is as before.  Of
the calls on a builder those that count are of fields that attach one after another, and of the last
settings; and what comes of it is what would come of it without the others. -/
theorem perform_atomic (before : List Operation) (op : Operation) :
    let c := run {} before
    let out := c.perform op
    out.2.pending = [] ∧
    (out.1 = .failed (.duplicateDeclaration op.name) ↔ c.contains op.name = true) ∧
    ((∀ model, out.1 ≠ .declared model) → out.2 = c) ∧
    (∀ model, out.1 = .declared model → c.get? op.name = none ∧
      (∃ d d', c.draft op.name = .ok d ∧ d.attachAll (c.effective op).fields = .ok d' ∧
        out.2.entries = c.entries ++ [(op.name, d'.fields.shape)] ∧
        out.2.get? op.name = some d'.fields.shape ∧
        ∀ m, model = some m → m.name = op.name ∧
          Document.compile d'.fields (c.effective op).settings = .ok m.document) ∧
      ∀ other, other ≠ op.name → out.2.get? other = c.get? other) ∧
    (op.isBuilt = true → ∀ d, c.draft op.name = .ok d →
      ∃ d', d.attachAll (c.effective op).fields = .ok d') ∧
    c.perform (c.effective op) = out := by
  intro c out
  have hc : c.pending = [] := pending_run before
  have hout : op.Performed c := performed hc op
  refine ⟨hout.pending hc, hout.refused_iff, hout.eq_of_not_declared, fun model hmodel => ?_,
    fun hbuilt d hdraft => ⟨_, attachAll_effective hbuilt hdraft⟩, perform_effective c op⟩
  obtain ⟨hname, d, d', hdraft, hfields, hcatalog, hcompile⟩ := hout.added_of_declared hmodel
  rw [hcatalog]
  refine ⟨?_, ⟨d, d', hdraft, hfields, rfl, get?_append_self hname, hcompile⟩,
    fun other => get?_append_of_ne c _⟩
  simpa [contains] using hname

end Catalog

end Schemata

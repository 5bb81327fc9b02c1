import Schemata.Proofs.Catalog.Acyclicity
import Schemata.Proofs.Document.Validator

/-!
# Schemata — Proofs — Catalog — Places

What is declared at the places of a fragment.  A path into the fragment of a kind leads to what a
kind within it resolves to: the kind of items or of values, or that of a field of the declaration
that an object names, and so on (`Kind.Leads`).

What a kind resolves to it resolves to wherever more is found (`Kind.resolve_mono`), so it stays the
same as a catalog grows: every declaration that operations complete keeps the fragments of its
fields (`Catalog.Resolves.run`).

* `Catalog.Resolves.at?`: what a fragment has at a place, the kind there resolves to.
* `Catalog.at?_of_perform`: so does what a declared model has there.
-/

namespace Schemata

open Declaration (Item)

namespace Kind

/-- A path from a kind to one within it.  An object leads on to the fields of the declaration that
it names. -/
inductive Leads (ds : List Item) : Kind → List Fragment.Step → Kind → Prop where
  | here (kind : Kind) : Leads ds kind [] kind
  | items {item kind : Kind} {limits : ArrayLimits} {path : List Fragment.Step}
      (h : Leads ds item path kind) : Leads ds (.array (some item) limits) (.items :: path) kind
  | values {value kind : Kind} {pattern : Option String} {limits : ObjectLimits}
      {path : List Fragment.Step} (h : Leads ds value path kind) :
      Leads ds (.map (some value) pattern limits) (.pattern (pattern.getD anyKey) :: path) kind
  | field {d : Item} {f : Declaration.Field} {given kind : Kind} {limits : ObjectLimits}
      {path : List Fragment.Step} (hd : d ∈ ds) (hf : f ∈ d.fields) (hgiven : f.kind = some given)
      (h : Leads ds given path kind) :
      Leads ds (.object (some d.name) limits) (.property f.name :: path) kind

/-- What a kind resolves to it resolves to where more is found. -/
theorem resolve_mono {lookup lookup' : String → Lookup}
    (hmono : ∀ name shape, lookup name = .found shape → lookup' name = .found shape)
    {kind : Kind} {g : Fragment} (h : kind.resolve lookup = .ok g) :
    kind.resolve lookup' = .ok g := by
  rw [← h]
  refine resolve_congr fun name href => ?_
  obtain ⟨shape, hshape⟩ := exists_shape_of_resolve h href
  rw [hshape, hmono name shape hshape]

end Kind

namespace Fields

/-- The properties of fields whose names come once have each field's fragment under its name. -/
theorem Formed.get?_properties {fs : Fields} (h : fs.Formed) {f : Field} (hf : f ∈ fs) :
    fs.properties.get? f.name = some f.fragment := by
  have hnames : (fs.map Field.name).Nodup := h.names
  rw [Fields.properties, Properties.ofList, List.foldl_map]
  exact Properties.get?_foldl_insert_of_mem hnames hf []

/-- Every declared field that states its kind is attached, with what the kind resolves to. -/
theorem exists_field_of_attachAll {lookup : String → Lookup} {fs fs' : Fields}
    {fields : List Declaration.Field} {f : Declaration.Field} {kind : Kind}
    (h : fs.attachAll lookup fields = .ok fs') (hf : f ∈ fields) (hkind : f.kind = some kind) :
    ∃ g ∈ fs', g.name = f.name ∧ kind.resolve lookup = .ok g.fragment := by
  induction fields generalizing fs with
  | nil => nomatch hf
  | cons f' rest ih =>
      obtain ⟨mid, hmid, h⟩ := attachAll_cons_eq_ok_iff.mp h
      rcases List.mem_cons.mp hf with rfl | hf
      · obtain ⟨-, -, given, fragment, hgiven, hresolve, rfl⟩ := attach_cases hmid
        obtain rfl : kind = given := by
          simpa [kindOf, Declaration.Field.options, hkind] using hgiven
        -- what is attached later is put behind it
        have hkept : ∀ g ∈ fs ++ [⟨f.name, fragment, f.options.required⟩], g ∈ fs' :=
          attachAll_induction (P := fun fs'' => ∀ g ∈ fs ++ [_], g ∈ fs'')
            (fun hmem hattach g hg => by
              obtain ⟨-, -, _, _, -, -, rfl⟩ := attach_cases hattach
              exact List.mem_append_left _ (hmem g hg)) (fun _ => id) h
        exact ⟨_, hkept _ (List.mem_append_right _ (List.mem_singleton_self _)), rfl, hresolve⟩
      · exact ih h hf

end Fields

namespace Catalog

/-- Each declaration has an entry, and its fields there have what their kinds resolve to. -/
structure Resolves (c : Catalog) (ds : List Item) : Prop where
  pending : c.pending = []
  formed : c.Keeps Fields.Formed
  entry : ∀ d ∈ ds, ∃ shape, c.get? d.name = some shape ∧
    ∀ f ∈ d.fields, ∀ kind, f.kind = some kind →
      ∃ g, shape.properties.get? f.name = some g ∧ kind.resolve c.lookup = .ok g

variable {c c' : Catalog} {ds : List Item}

theorem lookup_eq_found (hc : c.pending = []) {name : String} {shape : Shape} :
    c.lookup name = .found shape ↔ c.get? name = some shape := by
  rw [lookup, if_neg (by simp [hc])]
  cases c.get? name <;> simp

/-- What is found while a declaration is made is found after it. -/
theorem resolve_of_lookupWithin (hc' : c'.pending = [])
    (hget : ∀ name shape, c.get? name = some shape → c'.get? name = some shape) {own : String}
    {kind : Kind} {g : Fragment} (h : kind.resolve (c.lookupWithin own) = .ok g) :
    kind.resolve c'.lookup = .ok g := by
  refine Kind.resolve_mono (fun name shape hfound => ?_) h
  obtain ⟨-, -, hname⟩ := lookupWithin_eq_found.mp hfound
  exact (lookup_eq_found hc').mpr (hget name shape hname)

namespace Resolves

theorem empty : Resolves {} [] := ⟨rfl, nofun, nofun⟩

/-- An operation leaves the entries as they are, and adds one for what it completes. -/
theorem perform (h : c.Resolves ds) (op : Operation) :
    (c.perform op).2.Resolves (ds ++ c.completed [op]) := by
  have hperformed := performed h.pending op
  have hpending := hperformed.pending h.pending
  have hget : ∀ name shape, c.get? name = some shape → (c.perform op).2.get? name = some shape :=
    fun _ _ => hperformed.get?_of_get?
  refine ⟨hpending, (Fields.hereditary_formed.performed h.formed hperformed).1, fun d hd => ?_⟩
  rcases List.mem_append.mp hd with hd | hd
  · obtain ⟨shape, hshape, hfields⟩ := h.entry d hd
    refine ⟨shape, hget _ _ hshape, fun f hf kind hkind => ?_⟩
    obtain ⟨g, hg, hresolve⟩ := hfields f hf kind hkind
    refine ⟨g, hg, Kind.resolve_mono (fun name shape hfound => ?_) hresolve⟩
    exact (lookup_eq_found hpending).mpr (hget _ _ ((lookup_eq_found h.pending).mp hfound))
  · rw [completed, completed, List.append_nil] at hd
    split at hd
    · next model hout =>
        obtain ⟨item, hitem, hdeclare⟩ := exists_item_of_perform hout
        obtain rfl : d = item := by simpa [hitem] using hd
        obtain ⟨⟨hfree, -⟩, fs, hgives, hafter⟩ := declare_eq_ok_iff.mp hdeclare
        have hformed := Fields.formed_attachAll (h.formed.lookup _) Fields.hereditary_formed.nil
          hgives.fields
        refine ⟨fs.shape, hafter ▸ get?_append_self hfree, fun f hf kind hkind => ?_⟩
        obtain ⟨g, hg, hname, hresolve⟩ :=
          Fields.exists_field_of_attachAll hgives.fields hf hkind
        exact ⟨g.fragment, hname ▸ hformed.get?_properties hg,
          resolve_of_lookupWithin hpending hget hresolve⟩
    · exact absurd hd List.not_mem_nil

/-- Operations leave the entries as they are, and add one for each declaration that they
complete. -/
theorem run (h : c.Resolves ds) (ops : List Operation) :
    (c.run ops).Resolves (ds ++ c.completed ops) :=
  run_induction (fun op h => h.perform op) h ops

/-- **What a fragment has at a place, the kind there resolves to.** -/
theorem at? (h : c.Resolves ds) {kind inner : Kind} {path : List Fragment.Step}
    (hpath : kind.Leads ds path inner) {g : Fragment} (hg : kind.resolve c.lookup = .ok g) :
    ∃ g', g.at? path = some g' ∧ inner.resolve c.lookup = .ok g' := by
  induction hpath generalizing g with
  | here kind => exact ⟨g, rfl, hg⟩
  | items _ ih =>
      cases Kind.resolve_eq_ok_iff.mp hg with
      | array _ hitem => exact ih (Kind.resolve_eq_ok_iff.mpr hitem)
  | values _ ih =>
      cases Kind.resolve_eq_ok_iff.mp hg with
      | map pattern _ hvalue =>
          obtain ⟨g', hat, hinner⟩ := ih (Kind.resolve_eq_ok_iff.mpr hvalue)
          refine ⟨g', (Fragment.at?_cons_of_child? ?_ _).trans hat, hinner⟩
          simp [Fragment.child?, Properties.get?]
  | field hd hf hgiven _ ih =>
      cases Kind.resolve_eq_ok_iff.mp hg with
      | @object _ _ shape hfound =>
          obtain ⟨entry, hentry, hfields⟩ := h.entry _ hd
          -- the shape that was found is the one that the declaration has been given
          obtain rfl : entry = shape :=
            Option.some.inj (hentry.symm.trans ((lookup_eq_found h.pending).mp hfound))
          obtain ⟨value, hvalue, hresolve⟩ := hfields _ hf _ hgiven
          obtain ⟨g', hat, hinner⟩ := ih hresolve
          refine ⟨g', (Fragment.at?_cons_of_child? ?_ _).trans hat, hinner⟩
          exact hvalue

end Resolves

/-- **What a declared model has at a place**: the fragment that the kind there resolves to. -/
theorem at?_of_perform {before : List Operation} {op : Operation} {m : Model}
    (h : ((run {} before).perform op).1 = .declared (some m)) :
    ∃ decl, op.declaration? (run {} before) = some decl ∧
      ∀ f ∈ decl.fields, ∀ kind inner path, f.kind = some kind →
        kind.Leads (completed {} before) path inner →
        ∃ g, m.document.body.at? (.property f.name :: path) = some g ∧
          inner.resolve (run {} before).lookup = .ok g := by
  have hresolves : (run {} before).Resolves (completed {} before) := Resolves.empty.run before
  obtain ⟨decl, hdecl, hdeclare⟩ := exists_declaration_of_perform h
  obtain ⟨-, fs, hgives, -⟩ :=
    declare_eq_ok_iff.mp (declare_model_eq_ok_iff.mpr ⟨m, hdeclare, rfl⟩)
  obtain ⟨d, hcompile, rfl⟩ := hgives.exists_document
  have hformed := Fields.formed_attachAll (hresolves.formed.lookup _)
    Fields.hereditary_formed.nil hgives.fields
  refine ⟨decl, hdecl, fun f hf kind inner path hkind hpath => ?_⟩
  obtain ⟨g, hg, hname, hresolve⟩ := Fields.exists_field_of_attachAll hgives.fields hf hkind
  obtain ⟨g', hat, hinner⟩ := hresolves.at? hpath
    (resolve_of_lookupWithin hresolves.pending (fun _ _ => id) hresolve)
  refine ⟨g', ?_, hinner⟩
  rw [Document.at?_body, ← hname, Document.get?_compile hformed hcompile hg]
  exact hat

end Catalog

end Schemata

import Schemata.Catalog
import Schemata.Proofs.Fragment.Reading
import Schemata.Proofs.Kind.Resolving

/-!
# Schemata — Proofs — Catalog

No name comes twice at any level of what is resolved and compiled.  A kind resolves to such a
fragment if the shapes that it can look up are such (`Kind.distinct_of_resolve`); a field's name is
new when it is attached, and a name that is inserted again keeps its place, so fields compile to
such a document (`Document.distinct_compile`).

A catalog is reached by declarations, each of which succeeds or fails (`Catalog.Reachable`), and a
model is compiled if it is declared on such a catalog (`Model.Compiled`).
-/

namespace Schemata

/-! ### Properties -/

namespace Properties

/-- A name that is inserted comes last, if it was not there. -/
theorem map_fst_insert (ps : Properties) (name : String) (f : Fragment) :
    (ps.insert name f).map Prod.fst
      = if name ∈ ps.map Prod.fst then ps.map Prod.fst else ps.map Prod.fst ++ [name] := by
  induction ps with
  | nil => rfl
  | cons p rest ih =>
      obtain ⟨k, g⟩ := p
      by_cases hk : k = name
      · simp [insert, hk]
      · rw [insert, if_neg hk, List.map_cons, ih]
        by_cases hmem : name ∈ rest.map Prod.fst
        · rw [if_pos hmem, List.map_cons, if_pos (List.mem_cons_of_mem _ hmem)]
        · have hnot : name ∉ k :: rest.map Prod.fst := by simp_all [Ne.symm hk]
          rw [if_neg hmem, List.map_cons, if_neg hnot, List.cons_append]

/-- What is inserted is found under its name, and other names lead where they did. -/
theorem get?_insert (ps : Properties) (name : String) (f : Fragment) (other : String) :
    (ps.insert name f).get? other = if name = other then some f else ps.get? other := by
  induction ps with
  | nil => by_cases h : name = other <;> simp [insert, get?, h]
  | cons p rest ih =>
      obtain ⟨k, g⟩ := p
      unfold get? at ih ⊢
      by_cases hk : k = name
      · subst hk
        by_cases h : k = other <;> simp [insert, h]
      · rw [insert, if_neg hk]
        by_cases h : k = other
        · subst h
          simp [Ne.symm hk]
        · simpa [h] using ih

/-- Names come once after one is inserted. -/
theorem Distinct.insert {ps : Properties} {f : Fragment} (h : Distinct ps) (name : String)
    (hf : f.Distinct) : Distinct (ps.insert name f) := by
  induction ps with
  | nil => exact ⟨by simp, hf, trivial⟩
  | cons p rest ih =>
      obtain ⟨k, g⟩ := p
      obtain ⟨hnew, hg, hrest⟩ := h
      by_cases hk : k = name
      · rw [Properties.insert, if_pos hk]
        exact ⟨hnew, hf, hrest⟩
      · rw [Properties.insert, if_neg hk]
        refine ⟨?_, hg, ih hrest⟩
        -- the names behind it are as they were, or there is a new one among them
        rw [map_fst_insert]
        split
        · exact hnew
        · simpa [hnew] using hk

section Folding

variable {α : Type} {name : α → String} {fragment : α → Fragment} {as : List α} {ps : Properties}

/-- What inserting a fragment keeps, inserting one after another keeps. -/
theorem foldl_insert_induction {P : Properties → Prop} {Q : Fragment → Prop}
    (hinsert : ∀ {ps f} name, P ps → Q f → P (insert ps name f)) (hps : P ps)
    (h : ∀ a ∈ as, Q (fragment a)) :
    P (as.foldl (fun ps a => insert ps (name a) (fragment a)) ps) := by
  induction as generalizing ps with
  | nil => exact hps
  | cons a rest ih =>
      obtain ⟨ha, hrest⟩ := List.forall_mem_cons.mp h
      exact ih (hinsert (name a) hps ha) hrest

/-- The last fragment that is inserted under a name is found there. -/
theorem get?_foldl_insert (other : String) :
    (as.foldl (fun ps a => insert ps (name a) (fragment a)) ps).get? other
      = ((as.reverse.find? (name · = other)).map fragment).or (ps.get? other) :=
  find_foldl _ name get? fragment (fun ps a => get?_insert ps (name a) (fragment a)) as ps other

/-- Whatever is inserted, no name comes twice. -/
theorem Distinct.foldl_insert (hps : Distinct ps) (h : ∀ a ∈ as, (fragment a).Distinct) :
    Distinct (as.foldl (fun ps a => Properties.insert ps (name a) (fragment a)) ps) :=
  foldl_insert_induction (fun name hps hf => hps.insert name hf) hps h

end Folding

/-- Properties that are inserted one by one have names of their own. -/
theorem distinct_ofList {pairs : List (String × Fragment)} (h : ∀ p ∈ pairs, p.2.Distinct) :
    Distinct (ofList pairs) := by
  have hempty : Distinct [] := trivial
  exact hempty.foldl_insert h

end Properties

/-! ### Kinds and fields -/

/-- The shapes that can be looked up have distinct names. -/
def Lookup.Distinct (lookup : String → Lookup) : Prop :=
  ∀ name shape, lookup name = .found shape → Properties.Distinct shape.properties

/-- In a fragment without structure no name comes twice. -/
theorem Fragment.distinct_of_flat {f : Fragment} (howns : f.OwnsAllowed)
    (hitems : f.items = none) (hproperties : f.properties = none)
    (hpatterns : f.patternProperties = none) : f.Distinct :=
  f.distinct_iff.mpr ⟨howns, by simp [hitems], by simp [hproperties], by simp [hpatterns]⟩

/-- A kind resolves to a fragment with distinct keys: names come once, and allowed values have been
moved from the bounds. -/
theorem Kind.distinct_of_resolve {lookup : String → Lookup} (hlookup : Lookup.Distinct lookup)
    {kind : Kind} {f : Fragment} (h : kind.resolve lookup = .ok f) : f.Distinct := by
  rw [resolve_eq_ok_iff] at h
  induction h with
  | string | number | boolean | date | binary | objectId | any | choice =>
      exact Fragment.distinct_of_flat ⟨rfl, rfl⟩ rfl rfl rfl
  | array _ _ ih =>
      exact (Fragment.distinct_iff _).mpr ⟨⟨rfl, rfl⟩, by rintro _ ⟨⟩; exact ih, nofun, nofun⟩
  | map _ _ _ ih =>
      exact (Fragment.distinct_iff _).mpr
        ⟨⟨rfl, rfl⟩, nofun, nofun, by rintro _ ⟨⟩; exact ⟨by simp, ih, trivial⟩⟩
  | object _ hshape =>
      -- the properties of an object are taken over from the shape as they are
      exact (Fragment.distinct_iff _).mpr
        ⟨⟨rfl, rfl⟩, nofun, by rintro _ ⟨⟩; exact hlookup _ _ hshape, nofun⟩

namespace Fields

/-- The fragment of every field has distinct names. -/
def Distinct (fs : Fields) : Prop := ∀ f ∈ fs, f.fragment.Distinct

/-- What attaching a field adds: its name is new and no reserved one, its kind resolves. -/
theorem attach_cases {lookup : String → Lookup} {fs fs' : Fields} {name : String}
    {declared : Option HostType} {options : FieldOptions}
    (h : attach lookup fs name declared options = .ok fs') :
    name ≠ versionField ∧ fs.contains name = false ∧ ∃ kind fragment,
      kindOf name declared options = .ok kind ∧ kind.resolve lookup = .ok fragment ∧
        fs' = fs ++ [⟨name, fragment, options.required⟩] := by
  have hreserved : name ≠ versionField := by
    intro he
    simp [attach_eq, he, throw, throwThe, MonadExceptOf.throw, bind, Except.bind] at h
  have hnew : fs.contains name = false := by
    cases hc : fs.contains name with
    | false => rfl
    | true =>
        simp [attach_eq, hreserved, hc, throw, throwThe, MonadExceptOf.throw, bind,
          Except.bind] at h
  simp only [attach_eq, hreserved, hnew, if_false] at h
  obtain ⟨kind, hkind, h⟩ := bind_eq_ok.mp h
  obtain ⟨fragment, hfragment, h⟩ := bind_eq_ok.mp h
  refine ⟨hreserved, hnew, kind, fragment, hkind, ?_, (Except.ok.inj h).symm⟩
  cases hr : kind.resolve lookup with
  | error e => rw [hr] at hfragment; nomatch hfragment
  | ok f => rw [hr] at hfragment; exact congrArg _ (Except.ok.inj hfragment)

/-- Names come once at every level of the fields after one is attached. -/
theorem distinct_attach {lookup : String → Lookup} {fs fs' : Fields} {name : String}
    {declared : Option HostType} {options : FieldOptions} (hlookup : Lookup.Distinct lookup)
    (hfs : Distinct fs) (h : attach lookup fs name declared options = .ok fs') :
    Distinct fs' := by
  obtain ⟨-, -, kind, fragment, -, hresolve, rfl⟩ := attach_cases h
  intro f hf
  rcases List.mem_append.mp hf with hf | hf
  · exact hfs f hf
  · obtain rfl := List.mem_singleton.mp hf
    exact Kind.distinct_of_resolve hlookup hresolve

theorem distinct_properties {fs : Fields} (h : Distinct fs) :
    Properties.Distinct fs.properties := by
  refine Properties.distinct_ofList fun p hp => ?_
  obtain ⟨f, hf, rfl⟩ := List.mem_map.mp hp
  exact h f hf

theorem distinct_get? {fs : Fields} (h : Distinct fs) {name : String} {f : Field}
    (hf : fs.get? name = some f) : f.fragment.Distinct :=
  h f (List.mem_of_find?_eq_some hf)

end Fields

/-! ### Documents -/

namespace Document

theorem distinct_declaredProperties {fs : Fields} (h : Fields.Distinct fs) :
    Properties.Distinct (declaredProperties fs) := by
  have hid : (((fs.get? idField).map Field.fragment).getD (.bson .objectId)).Distinct := by
    cases hget : fs.get? idField with
    | none => exact Fragment.distinct_of_flat ⟨rfl, rfl⟩ rfl rfl rfl
    | some f => exact Fields.distinct_get? h hget
  have hstart : Properties.Distinct
      [(idField, ((fs.get? idField).map Field.fragment).getD (.bson .objectId)),
        (versionField, .typed .number)] :=
    ⟨by decide, hid, by simp, Fragment.distinct_of_flat ⟨rfl, rfl⟩ rfl rfl rfl, trivial⟩
  exact hstart.foldl_insert fun f hf => h f (List.mem_filter.mp hf).1

/-- A timestamp is added under a name that no property has. -/
theorem addStamp_eq_ok_iff {ps ps' : Properties} {name : String} :
    addStamp ps name = .ok ps' ↔
      ps.contains name = false ∧ ps' = ps.insert name (.bson .date) := by
  unfold addStamp
  split
  · next htaken => simp [htaken]
  · next hnew => simp [hnew, eq_comm]

theorem distinct_addStamp {ps ps' : Properties} {name : String} (hps : Properties.Distinct ps)
    (h : addStamp ps name = .ok ps') : Properties.Distinct ps' := by
  obtain ⟨-, rfl⟩ := addStamp_eq_ok_iff.mp h
  exact hps.insert name (Fragment.distinct_of_flat ⟨rfl, rfl⟩ rfl rfl rfl)

theorem distinct_addStamps {ps ps' : Properties} {stamps : Option StampNames}
    (hps : Properties.Distinct ps) (h : addStamps ps stamps = .ok ps') :
    Properties.Distinct ps' := by
  cases stamps with
  | none => exact Except.ok.inj h ▸ hps
  | some names =>
      obtain ⟨mid, hcreated, hupdated⟩ := bind_eq_ok.mp h
      exact distinct_addStamp (distinct_addStamp hps hcreated) hupdated

/-- So they do in the document that fields compile to. -/
theorem distinct_compile {fs : Fields} {settings : Settings} {d : Document}
    (hfs : Fields.Distinct fs) (h : compile fs settings = .ok d) :
    Properties.Distinct d.properties := by
  obtain ⟨ps, hps, h⟩ := bind_eq_ok.mp h
  obtain ⟨-, -, h⟩ := bind_eq_ok.mp h
  obtain rfl := Except.ok.inj h
  exact distinct_addStamps (distinct_declaredProperties hfs) hps

end Document

/-! ### Catalogs -/

namespace Catalog

/-- The catalogs that declarations lead to, whether each succeeds or fails. -/
inductive Reachable : Catalog → Prop where
  | empty : Reachable {}
  | model {c : Catalog} (m : Declaration.Model) : Reachable c → Reachable (c.declareModel m).2
  | object {c : Catalog} (o : Declaration.Object) : Reachable c → Reachable (c.declareObject o).2

/-- A shape that is found under a name is that of an entry. -/
theorem mem_of_lookup {c : Catalog} {name : String} {shape : Shape}
    (h : c.lookup name = .found shape) : ∃ e ∈ c.entries, e.2 = shape := by
  unfold Catalog.lookup at h
  split at h
  · nomatch h
  · split at h
    · next s hget =>
        obtain rfl := Lookup.found.inj h
        obtain ⟨e, he, rfl⟩ := Option.map_eq_some_iff.mp hget
        exact ⟨e, List.mem_of_find?_eq_some he, rfl⟩
    · nomatch h

end Catalog

/-- A model that a declaration gives, on a catalog that other declarations lead to. -/
def Model.Compiled (m : Model) : Prop :=
  ∃ c decl, Catalog.Reachable c ∧ (c.declareModel decl).1 = .ok m

end Schemata

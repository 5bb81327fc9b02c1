import Mathlib.Data.List.Forall2
import Mathlib.Data.List.Nodup
import Mathlib.Data.List.Perm.Basic
import Schemata.Loader
import Schemata.Proofs.Catalog.References

/-!
# Schemata — Proofs — Catalog — Ordering

The order of declarations matters for their references and for nothing else.  A list of declarations
that can be made on a catalog, taken in another order, can be made on it just where every
declaration still comes after those of the list that it refers to, and what comes of it is the same
(`Catalog.declareAll_perm`).

A list is made on a catalog (`Catalog.Makes`) when its names are free and come once each, and every
declaration gives its fields and its model *on the catalog that all of them leave*.  That catalog
has the same entries in every order, so nothing of this depends on the order.  A declaration that is
made gives the same there as where it was made, as what it refers to was there already; with the
order of the references this is what the loop comes to (`Catalog.makes_iff`), and loading files is
the loop over the declarations that they hold (`Catalog.loadFiles_eq_ok_iff`).
-/

namespace Schemata

open Declaration (Item)

/-! ### Lists of declarations -/

/-- Every declaration comes after all those of the list that it refers to. -/
def Declaration.Ordered (ds : List Item) : Prop :=
  ∀ before d after, ds = before ++ d :: after → ∀ e ∈ ds, e.name ∈ d.references → e ∈ before

open Declaration (Ordered)

namespace Declaration.Ordered

variable {d : Item} {rest : List Item}

theorem nil : Ordered [] := fun before d after h => by
  exact absurd h.symm (List.append_ne_nil_of_right_ne_nil before (List.cons_ne_nil d after))

/-- A list with one declaration more in front is ordered if the declaration refers to none of the
list and the others are ordered. -/
theorem cons (hd : ∀ e ∈ d :: rest, e.name ∉ d.references)
    (hrest : Ordered rest) : Ordered (d :: rest) := by
  intro before d' after h e he href
  cases before with
  | nil =>
      obtain ⟨rfl, -⟩ := List.cons.inj h
      exact absurd href (hd e he)
  | cons first before =>
      obtain ⟨rfl, hsplit⟩ := List.cons.inj h
      rcases List.mem_cons.mp he with rfl | he
      · exact List.mem_cons_self
      · exact List.mem_cons_of_mem _ (hrest before d' after hsplit e he href)

theorem head (h : Ordered (d :: rest)) :
    ∀ e ∈ d :: rest, e.name ∉ d.references :=
  fun e he href => nomatch h [] d rest rfl e he href

theorem tail (h : Ordered (d :: rest))
    (hd : d ∉ rest) : Ordered rest := by
  intro before d' after hsplit e he href
  have he' : e ∈ d :: rest := List.mem_cons_of_mem d he
  have hmem := h (d :: before) d' after (congrArg (d :: ·) hsplit) e he' href
  rcases List.mem_cons.mp hmem with rfl | hmem
  · exact absurd he hd
  · exact hmem

end Declaration.Ordered

/-- A declaration that was made: what its fields were resolved to, and its model. -/
structure Declaration.Made where
  item : Item
  fields : Fields
  model : Option Schemata.Model

open Declaration (Made)

/-- The entry that a declaration leaves. -/
def Declaration.Made.entry (m : Made) : String × Shape := (m.item.name, m.fields.shape)

namespace Catalog

/-- Makes declarations in order, up to the first that fails: their models, and the catalog after
them. -/
def declareAll (c : Catalog) : List Item → Except DeclarationError (List Model) × Catalog
  | []        => (.ok [], c)
  | d :: rest =>
    match c.declare d with
    | (.error e, c)  => (.error e, c)
    | (.ok model, c) =>
      let (result, c) := c.declareAll rest
      (result.map (model.toList ++ ·), c)

/-- The catalog with the entries of declarations. -/
def recordAll (c : Catalog) (made : List Made) : Catalog :=
  { c with entries := c.entries ++ made.map Made.entry }

/-- Declarations are made on a catalog, one after another. -/
inductive Makes : Catalog → List Made → Prop where
  | nil {c : Catalog} : Makes c []
  | cons {c : Catalog} {m : Made} {rest : List Made} (hname : c.contains m.item.name = false)
      (hpending : m.item.name ∉ c.pending) (hgives : m.item.Gives c m.fields m.model)
      (hrest : Makes (c.recordAll [m]) rest) : Makes c (m :: rest)

variable {c c' : Catalog} {ds : List Item} {models : List Model} {made : List Made}

theorem recordAll_cons (c : Catalog) (m : Made) (rest : List Made) :
    c.recordAll (m :: rest) = (c.recordAll [m]).recordAll rest := by
  simp [recordAll]

theorem declareAll_cons_eq_ok_iff {d : Item} {rest : List Item} :
    c.declareAll (d :: rest) = (.ok models, c') ↔ ∃ model mid later,
      c.declare d = (.ok model, mid) ∧ mid.declareAll rest = (.ok later, c') ∧
        models = model.toList ++ later := by
  rw [declareAll]
  constructor
  · intro h
    split at h
    · nomatch h
    · next model mid hd =>
        obtain ⟨hresult, rfl⟩ := Prod.mk.inj h
        cases hrest : (mid.declareAll rest).1 with
        | error e => rw [hrest] at hresult; nomatch hresult
        | ok later =>
            rw [hrest] at hresult
            exact ⟨model, mid, later, hd, Prod.ext hrest rfl, (Except.ok.inj hresult).symm⟩
  · rintro ⟨model, mid, later, hd, hrest, rfl⟩
    simp only [hd, hrest]
    rfl

/-- Declarations of two lists are those of the first and then those of the second. -/
theorem declareAll_append_eq_ok_iff {ds' : List Item} :
    c.declareAll (ds ++ ds') = (.ok models, c') ↔ ∃ first mid later,
      c.declareAll ds = (.ok first, mid) ∧ mid.declareAll ds' = (.ok later, c') ∧
        models = first ++ later := by
  induction ds generalizing c models with
  | nil =>
      constructor
      · intro h
        exact ⟨[], c, models, rfl, h, rfl⟩
      · rintro ⟨first, mid, later, hnil, h, rfl⟩
        obtain ⟨hok, rfl⟩ := Prod.mk.inj hnil
        obtain rfl := Except.ok.inj hok
        exact h
  | cons d rest ih =>
      rw [List.cons_append, declareAll_cons_eq_ok_iff]
      constructor
      · rintro ⟨model, mid, later, hd, hrest, rfl⟩
        obtain ⟨first, mid', last, hfirst, hlast, rfl⟩ := ih.mp hrest
        refine ⟨model.toList ++ first, mid', last, ?_, hlast, (List.append_assoc ..).symm⟩
        exact declareAll_cons_eq_ok_iff.mpr ⟨model, mid, first, hd, hfirst, rfl⟩
      · rintro ⟨all, mid', last, hall, hlast, rfl⟩
        obtain ⟨model, mid, first, hd, hfirst, rfl⟩ := declareAll_cons_eq_ok_iff.mp hall
        refine ⟨model, mid, first ++ last, hd, ?_, List.append_assoc ..⟩
        exact ih.mpr ⟨first, mid', last, hfirst, hlast, rfl⟩

theorem declare_object_eq_ok_iff {o : Declaration.Object} {model : Option Model} :
    c.declare (.object o) = (.ok model, c') ↔ c.declareObject o = (.ok (), c') ∧ model = none := by
  rw [declare]
  rcases c.declareObject o with ⟨_ | _, mid⟩
  · simp [Except.map]
  · simp [Except.map, eq_comm, and_comm]

theorem declare_model_eq_ok_iff {m : Declaration.Model} {model : Option Model} :
    c.declare (.model m) = (.ok model, c') ↔
      ∃ m', c.declareModel m = (.ok m', c') ∧ model = some m' := by
  rw [declare]
  rcases c.declareModel m with ⟨_ | m', mid⟩
  · simp [Except.map]
  · simp [Except.map, eq_comm, and_comm]

theorem declareAll_objects_eq_ok_iff {objects : List Declaration.Object} :
    c.declareAll (objects.map .object) = (.ok models, c') ↔
      c.declareObjects objects = (.ok (), c') ∧ models = [] := by
  induction objects generalizing c models with
  | nil => simp [declareObjects, declareAll, eq_comm, and_comm]
  | cons o rest ih =>
      simp only [List.map_cons, declareAll_cons_eq_ok_iff, declare_object_eq_ok_iff, ih,
        declareObjects]
      constructor
      · rintro ⟨_, mid, _, ⟨ho, rfl⟩, ⟨hrest, rfl⟩, rfl⟩
        exact ⟨by rw [ho]; exact hrest, rfl⟩
      · rintro ⟨h, rfl⟩
        split at h
        · next mid ho => exact ⟨none, mid, [], ⟨ho, rfl⟩, ⟨h, rfl⟩, rfl⟩
        · cases h

/-- A file that can be read is loaded by making what it declares: its objects, and then its
model. -/
theorem declareAll_file_eq_ok_iff {disk : Disk Content} {path : FilePath}
    {file : List Declaration.Object × Declaration.Model} (hfile : readFile disk path = .ok file) :
    c.declareAll (file.1.map .object ++ [.model file.2]) = (.ok models, c') ↔
      ∃ m, c.loadFile disk path = (.ok m, c') ∧ models = [m] := by
  simp only [declareAll_append_eq_ok_iff, declareAll_cons_eq_ok_iff, declare_model_eq_ok_iff,
    declareAll_objects_eq_ok_iff]
  constructor
  · rintro ⟨_, mid, _, ⟨hobjects, rfl⟩, ⟨_, _, _, ⟨m, hm, rfl⟩, hnil, rfl⟩, rfl⟩
    obtain ⟨hok, rfl⟩ := Prod.mk.inj hnil
    obtain rfl := Except.ok.inj hok
    refine ⟨m, ?_, rfl⟩
    simp only [loadFile, hfile, hobjects, hm]
    rfl
  · rintro ⟨m, h, rfl⟩
    simp only [loadFile, hfile] at h
    split at h
    · nomatch h
    · next mid hobjects =>
        rcases hm : mid.declareModel file.2 with ⟨_ | m', last⟩
        · rw [hm] at h
          nomatch h
        · rw [hm] at h
          obtain ⟨hok, rfl⟩ := Prod.mk.inj h
          obtain rfl := Except.ok.inj hok
          exact ⟨[], mid, [m'], ⟨hobjects, rfl⟩,
            ⟨some m', last, [], ⟨m', hm, rfl⟩, rfl, rfl⟩, rfl⟩

/-- **Files are loaded by making what they declare**, one after another. -/
theorem loadFiles_eq_ok_iff {disk : Disk Content} {paths : List FilePath} :
    c.loadFiles disk paths = (.ok models, c') ↔
      ∃ read, List.Forall₂ (fun path file => readFile disk path = .ok file) paths read ∧
        c.declareAll (read.flatMap fun file => file.1.map .object ++ [.model file.2])
          = (.ok models, c') := by
  induction paths generalizing c models with
  | nil => simp [loadFiles, declareAll]
  | cons path rest ih =>
      rw [loadFiles]
      constructor
      · intro h
        split at h
        · nomatch h
        · next m mid hm =>
            obtain ⟨file, hfile⟩ : ∃ file, readFile disk path = .ok file := by
              cases hfile : readFile disk path with
              | error e => rw [loadFile, hfile] at hm; nomatch hm
              | ok file => exact ⟨file, rfl⟩
            rcases hrest : mid.loadFiles disk rest with ⟨_ | later, last⟩
            · rw [hrest] at h
              nomatch h
            · rw [hrest] at h
              obtain ⟨hok, rfl⟩ := Prod.mk.inj h
              obtain rfl := Except.ok.inj hok
              obtain ⟨read, hread, hlater⟩ := ih.mp hrest
              have hmade := (declareAll_file_eq_ok_iff hfile).mpr ⟨m, hm, rfl⟩
              exact ⟨file :: read, .cons hfile hread,
                declareAll_append_eq_ok_iff.mpr ⟨[m], mid, later, hmade, hlater, rfl⟩⟩
      · rintro ⟨_, hread, hmade⟩
        cases hread with
        | cons hfile hread =>
            obtain ⟨_, mid, later, hfirst, hlater, rfl⟩ := declareAll_append_eq_ok_iff.mp hmade
            obtain ⟨m, hm, rfl⟩ := (declareAll_file_eq_ok_iff hfile).mp hfirst
            simp only [hm, ih.mpr ⟨_, hread, hlater⟩]
            rfl

/-- A list of declarations is made to its end just where each of them is made after those before. -/
theorem declareAll_eq_ok_iff : c.declareAll ds = (.ok models, c') ↔
    ∃ made, made.map Made.item = ds ∧ Makes c made ∧
      models = made.flatMap (·.model.toList) ∧ c' = c.recordAll made := by
  induction ds generalizing c models with
  | nil =>
      constructor
      · intro h
        obtain ⟨hok, rfl⟩ := Prod.mk.inj h
        exact ⟨[], rfl, .nil, (Except.ok.inj hok).symm, by simp [recordAll]⟩
      · rintro ⟨made, hitems, -, rfl, rfl⟩
        obtain rfl := List.map_eq_nil_iff.mp hitems
        simp [declareAll, recordAll]
  | cons d rest ih =>
      rw [declareAll_cons_eq_ok_iff]
      constructor
      · rintro ⟨model, mid, later, hd, hrest, rfl⟩
        obtain ⟨⟨hname, hpending⟩, fs, hgives, rfl⟩ := declare_eq_ok_iff.mp hd
        obtain ⟨made, rfl, hmakes, rfl, rfl⟩ := ih.mp hrest
        exact ⟨⟨d, fs, model⟩ :: made, rfl, .cons hname hpending hgives hmakes, rfl,
          (recordAll_cons c ⟨d, fs, model⟩ made).symm⟩
      · rintro ⟨made, hitems, hmakes, rfl, rfl⟩
        obtain ⟨m, later, rfl, rfl, hlater⟩ := List.map_eq_cons_iff.mp hitems
        cases hmakes with
        | cons hname hpending hgives hmakes =>
            have hd : c.declare m.item = (.ok m.model, c.recordAll [m]) :=
              declare_eq_ok_iff.mpr ⟨⟨hname, hpending⟩, m.fields, hgives, rfl⟩
            have hrest := ih.mpr ⟨later, hlater, hmakes, rfl, recordAll_cons c m later⟩
            exact ⟨m.model, _, _, hd, hrest, rfl⟩

/-! ### Entries that were added -/

theorem get?_recordAll_of_forall_ne {name : String} (h : ∀ m ∈ made, m.item.name ≠ name) :
    (c.recordAll made).get? name = c.get? name := by
  have hnone : (made.map Made.entry).find? (·.1 = name) = none := by
    refine List.find?_eq_none.mpr fun e he => ?_
    obtain ⟨m, hm, rfl⟩ := List.mem_map.mp he
    exact fun hname => h m hm (of_decide_eq_true hname)
  simp [get?, recordAll, List.find?_append, hnone]

theorem get?_recordAll_of_some {name : String} {shape : Shape} (h : c.get? name = some shape) :
    (c.recordAll made).get? name = some shape := by
  obtain ⟨e, he, rfl⟩ := Option.map_eq_some_iff.mp h
  simp [get?, recordAll, List.find?_append, he]

/-- A name is free after declarations if it was before them and is that of none of them. -/
theorem contains_recordAll_eq_false {name : String} :
    (c.recordAll made).contains name = false ↔
      c.contains name = false ∧ ∀ m ∈ made, m.item.name ≠ name := by
  have hadded : ((made.map Made.entry).find? (·.1 = name)).isSome = false ↔
      ∀ m ∈ made, m.item.name ≠ name := by
    rw [Option.isSome_eq_false_iff, Option.isNone_iff_eq_none, List.find?_eq_none,
      List.forall_mem_map]
    exact forall₂_congr fun m _ => not_congr decide_eq_true_iff
  rw [contains, contains, get?, get?, Option.isSome_map, Option.isSome_map, recordAll,
    List.find?_append, Option.isSome_or, Bool.or_eq_false_iff, hadded]

/-- What is found under a name does not depend on the order of entries whose names come once. -/
theorem find?_eq_of_perm {α : Type} {p : α → Bool} {as bs : List α} (h : as.Perm bs)
    (hone : ∀ a ∈ as, ∀ b ∈ as, p a = true → p b = true → a = b) : as.find? p = bs.find? p := by
  cases has : as.find? p with
  | none =>
      refine (List.find?_eq_none.mpr fun b hb => ?_).symm
      exact List.find?_eq_none.mp has b (h.mem_iff.mpr hb)
  | some a =>
      obtain ⟨b, hb⟩ := Option.isSome_iff_exists.mp (List.find?_isSome.mpr
        ⟨a, h.mem_iff.mp (List.mem_of_find?_eq_some has), List.find?_some has⟩)
      rw [hb, hone a (List.mem_of_find?_eq_some has) b
        (h.mem_iff.mpr (List.mem_of_find?_eq_some hb)) (List.find?_some has) (List.find?_some hb)]

theorem get?_recordAll_perm {made' : List Made} (hnodup : (made.map (·.item.name)).Nodup)
    (h : made.Perm made') (name : String) :
    (c.recordAll made').get? name = (c.recordAll made).get? name := by
  have hentries : (made.map Made.entry).find? (·.1 = name)
      = (made'.map Made.entry).find? (·.1 = name) := by
    refine find?_eq_of_perm (h.map _) fun a ha b hb hpa hpb => ?_
    obtain ⟨m, hm, rfl⟩ := List.mem_map.mp ha
    obtain ⟨m', hm', rfl⟩ := List.mem_map.mp hb
    have hname : m.item.name = m'.item.name :=
      (of_decide_eq_true hpa).trans (of_decide_eq_true hpb).symm
    rw [List.inj_on_of_nodup_map hnodup hm hm' hname]
  simp [get?, recordAll, List.find?_append, hentries]

/-! ### Made in any order -/

/-- **What comes of declarations, whatever their order.**  Declarations are made one after another
just where their names are free and come once each, every one of them gives what it gives on the
catalog that all of them leave, and every one comes after those that it refers to. -/
theorem makes_iff : Makes c made ↔
    (made.map (·.item.name)).Nodup ∧
    (∀ m ∈ made, c.contains m.item.name = false ∧ m.item.name ∉ c.pending ∧
      m.item.Gives (c.recordAll made) m.fields m.model) ∧
    Ordered (made.map Made.item) := by
  induction made generalizing c with
  | nil => exact iff_of_true .nil ⟨List.nodup_nil, fun _ hm => absurd hm List.not_mem_nil, .nil⟩
  | cons m rest ih =>
      have hpersist : ∀ name, (∃ shape, c.get? name = some shape) →
          (c.recordAll (m :: rest)).get? name = c.get? name := by
        rintro name ⟨shape, hshape⟩
        rw [hshape, get?_recordAll_of_some hshape]
      rw [List.map_cons, List.map_cons, List.nodup_cons, List.forall_mem_cons]
      constructor
      · rintro (_ | ⟨hname, hpending, hgives, hrest⟩)
        obtain ⟨hnodup, hall, hordered⟩ := ih.mp hrest
        have hfree : ∀ e ∈ rest, c.contains e.item.name = false ∧ m.item.name ≠ e.item.name := by
          intro e he
          obtain ⟨hfree, hne⟩ := contains_recordAll_eq_false.mp (hall e he).1
          exact ⟨hfree, hne m List.mem_cons_self⟩
        refine ⟨⟨?_, hnodup⟩, ⟨⟨hname, hpending, hgives.congr rfl ?_⟩, ?_⟩,
          Ordered.cons ?_ hordered⟩
        · intro hmem
          obtain ⟨e, he, heq⟩ := List.mem_map.mp hmem
          exact (hfree e he).2 heq.symm
        · intro name hname
          exact hpersist name (hgives.exists_shape hname).2
        · intro e he
          refine ⟨(hfree e he).1, (hall e he).2.1, ?_⟩
          rw [recordAll_cons]
          exact (hall e he).2.2
        · -- What is referred to has an entry, and no name of the list has one yet.
          intro e he href
          obtain ⟨hne, shape, hshape⟩ := hgives.exists_shape href
          have hcontains : c.contains e.name = true := by rw [contains, hshape]; rfl
          rcases List.mem_cons.mp he with rfl | he
          · exact hne rfl
          · obtain ⟨other, hother, rfl⟩ := List.mem_map.mp he
            exact Bool.false_ne_true ((hfree other hother).1.symm.trans hcontains)
      · rintro ⟨⟨hnot, hnodup⟩, ⟨⟨hname, hpending, hgives⟩, hall⟩, hordered⟩
        have hhead : ∀ name ∈ m.item.references, ∀ e ∈ m :: rest, e.item.name ≠ name := by
          rintro _ href e he rfl
          exact hordered.head e.item (List.mem_map_of_mem (f := Made.item) he) href
        refine .cons hname hpending (hgives.congr rfl fun name href => ?_) (ih.mpr ⟨hnodup, ?_, ?_⟩)
        · exact (get?_recordAll_of_forall_ne (hhead name href)).symm
        · intro e he
          obtain ⟨hfree, hfreep, hgive⟩ := hall e he
          refine ⟨contains_recordAll_eq_false.mpr ⟨hfree, ?_⟩, hfreep,
            recordAll_cons c m rest ▸ hgive⟩
          rintro _ (_ | ⟨_, ⟨⟩⟩) heq
          exact hnot (List.mem_map.mpr ⟨e, he, heq.symm⟩)
        · refine hordered.tail fun hmem => hnot ?_
          obtain ⟨e, he, heq⟩ := List.mem_map.mp hmem
          exact List.mem_map.mpr ⟨e, he, congrArg Item.name heq⟩

/-- **Declarations in another order.**  Declarations that can all be made on a catalog can be made
on it in another order just where each still comes after those that it refers to; then they give
the same models, and the same entries. -/
theorem declareAll_perm {c₁ : Catalog} {ds' : List Item} (h : c.declareAll ds = (.ok models, c₁))
    (hperm : ds'.Perm ds) :
    ((∃ models' c₂, c.declareAll ds' = (.ok models', c₂)) ↔ Ordered ds') ∧
    ∀ models' c₂, c.declareAll ds' = (.ok models', c₂) →
      models'.Perm models ∧ c₂.entries.Perm c₁.entries ∧ (∀ name, c₂.get? name = c₁.get? name) ∧
        c₂.pending = c₁.pending := by
  obtain ⟨made, rfl, hmakes, rfl, rfl⟩ := declareAll_eq_ok_iff.mp h
  obtain ⟨made', hperm', rfl⟩ :
      ∃ made' : List Made, made'.Perm made ∧ made'.map Made.item = ds' := by
    have hcomp : Relation.Comp (fun l made => l = made.map Made.item) List.Perm ds' made := by
      rw [List.eq_map_comp_perm]
      exact hperm
    obtain ⟨made', hitems, hmade⟩ := hcomp
    exact ⟨made', hmade, hitems.symm⟩
  obtain ⟨hnodup, hall, -⟩ := makes_iff.mp hmakes
  have hget := get?_recordAll_perm (c := c) hnodup hperm'.symm
  have hmakes' : Makes c made' ↔ Ordered (made'.map Made.item) := by
    rw [makes_iff, (hperm'.map _).nodup_iff]
    refine ⟨fun h => h.2.2, fun hordered => ⟨hnodup, fun m hm => ?_, hordered⟩⟩
    obtain ⟨hname, hpending, hgives⟩ := hall m (hperm'.mem_iff.mp hm)
    exact ⟨hname, hpending, hgives.congr rfl fun name _ => hget name⟩
  have hordered {models' : List Model} {c₂ : Catalog}
      (h' : c.declareAll (made'.map Made.item) = (.ok models', c₂)) :
      Ordered (made'.map Made.item) := by
    obtain ⟨made'', hitems, hmakes'', -⟩ := declareAll_eq_ok_iff.mp h'
    exact hitems ▸ (makes_iff.mp hmakes'').2.2
  have hdeclare (hord : Ordered (made'.map Made.item)) : c.declareAll (made'.map Made.item)
      = (.ok (made'.flatMap (·.model.toList)), c.recordAll made') :=
    declareAll_eq_ok_iff.mpr ⟨made', rfl, hmakes'.mpr hord, rfl, rfl⟩
  refine ⟨⟨fun ⟨_, _, h'⟩ => hordered h', fun hord => ⟨_, _, hdeclare hord⟩⟩, ?_⟩
  intro models' c₂ h'
  obtain ⟨hok, rfl⟩ := Prod.mk.inj (h'.symm.trans (hdeclare (hordered h')))
  obtain rfl := Except.ok.inj hok
  exact ⟨hperm'.flatMap_right _, (hperm'.map _).append_left _, hget, rfl⟩

end Catalog

namespace Declaration.Item

/-- An object that a model and another object embed. -/
def address : Item :=
  .object { name := "Address", fields := [{ name := "city", kind := some .anyString }] }

/-- An object that embeds an address and that a model embeds. -/
def shop : Item :=
  .object { name := "Shop", fields := [{ name := "at", kind := some (.embedded "Address") }] }

/-- A model whose values embed addresses, and shops further in. -/
def town : Item :=
  .model {
    name := "Town"
    fields := [
      { name := "homes", kind := some (.arrayOf (.embedded "Address")) },
      { name := "shops", kind := some (.mapOf (.arrayOf (.embedded "Shop"))) }] }

/-- A model that embeds nothing. -/
def river : Item :=
  .model { name := "River", fields := [{ name := "length", kind := some .anyNumber }] }

end Declaration.Item

namespace Catalog

open Declaration.Item (address shop town river)

/-- The river can come first; the shop cannot come before the address. -/
theorem declareAll_river_first : ∃ models c₁,
    ({} : Catalog).declareAll [address, shop, town, river] = (.ok models, c₁) ∧
    (∃ models' c₂, ({} : Catalog).declareAll [river, address, shop, town] = (.ok models', c₂) ∧
      models'.Perm models ∧ ∀ name, c₂.get? name = c₁.get? name) ∧
    ¬ ∃ models' c₂, ({} : Catalog).declareAll [shop, address, town, river] = (.ok models', c₂) := by
  obtain ⟨models, c₁, h⟩ : ∃ models c₁,
      ({} : Catalog).declareAll [address, shop, town, river] = (.ok models, c₁) := ⟨_, _, rfl⟩
  refine ⟨models, c₁, h, ?_, ?_⟩
  · have hperm : ([river] ++ [address, shop, town]).Perm ([address, shop, town] ++ [river]) :=
      List.perm_append_comm
    obtain ⟨hiff, hsame⟩ := declareAll_perm h hperm
    have hordered : Ordered [river, address, shop, town] :=
      .cons (by decide) (.cons (by decide) (.cons (by decide) (.cons (by decide) .nil)))
    obtain ⟨models', c₂, h'⟩ := hiff.mpr hordered
    obtain ⟨hmodels, -, hget, -⟩ := hsame models' c₂ h'
    exact ⟨models', c₂, h', hmodels, hget⟩
  · obtain ⟨hiff, -⟩ := declareAll_perm h (.swap address shop [town, river])
    intro h'
    exact (hiff.mp h').head address (by simp) (by decide)

end Catalog

end Schemata

import Schemata.Proofs.Catalog.Ordering

/-!
# Schemata — Proofs — Catalog — Loading

What a load that fails leaves in the catalog.  A file is loaded by making what it declares, its
objects and then its model, up to the first that fails (`Catalog.loadFile_eq_error_iff`).  That one
leaves nothing, but what was made before it stays (`Catalog.declareAll_eq_error_iff`): nothing takes
an entry back.  Later loads find the entries, and a file that declares one of their names again is
refused; any other loads as it would have (`Catalog.makes_recordAll_iff`).  Several files are loaded
in the same way (`Catalog.loadFiles_eq_error_iff`), and the names with an entry are then those that
they declare (`Catalog.contains_of_loadFiles`).

* `Catalog.loadFile_keeps`: the catalog after a load that fails, and what loads then.
-/

namespace Schemata

open Declaration (Item Made Ordered)

/-- What a file declares, in the order in which it is made. -/
def Declaration.itemsOf (file : List Declaration.Object × Declaration.Model) : List Item :=
  file.1.map .object ++ [.model file.2]

open Declaration (itemsOf)

namespace Catalog

variable {c c' : Catalog} {d : Item} {ds : List Item} {models : List Model} {made : List Made}
  {e : DeclarationError} {disk : Disk Content} {path : FilePath}
  {file : List Declaration.Object × Declaration.Model}

/-! ### Where a list of declarations fails -/

/-- A declaration that fails leaves the catalog as it was. -/
theorem eq_of_declare_error (h : c.declare d = (.error e, c')) : c' = c := by
  by_cases hname : c.contains d.name = true ∨ d.name ∈ c.pending
  · rw [declare_of_contains hname] at h
    exact (Prod.mk.inj h).2.symm
  · rw [declare_of_free hname] at h
    split at h
    · exact (Prod.mk.inj h).2.symm
    · split at h
      · exact (Prod.mk.inj h).2.symm
      · nomatch (Prod.mk.inj h).1

/-- What is refused for a name is to declare that name, which has an entry. -/
theorem Performed.name_of_duplicate {name name' : String} {out : Outcome × Catalog}
    {fields : List Declaration.Field} {settings : Settings}
    (h : Performed c name' fields settings out)
    (hout : out.1 = .failed (.duplicateDeclaration name)) :
    name' = name ∧ c.contains name = true := by
  cases h with
  | refused hname =>
      obtain rfl := DeclarationError.duplicateDeclaration.inj (Outcome.failed.inj hout)
      exact ⟨rfl, hname⟩
  | failed _ he => exact absurd (Outcome.failed.inj hout) (he name)
  | dropped => cases hout
  | declared => cases hout

theorem name_of_declare_duplicate {name : String} (hc : c.pending = [])
    (h : c.declare d = (.error (.duplicateDeclaration name), c')) :
    d.name = name ∧ c.contains name = true := by
  have herror := (Prod.mk.inj h).1
  cases d with
  | model m =>
      exact (performed_model hc m).name_of_duplicate
        (congrArg Outcome.ofModel (eq_error_of_map herror))
  | object o =>
      exact (performed_object hc o).name_of_duplicate
        (congrArg Outcome.ofObject (eq_error_of_map herror))

/-- Declarations fail at one that fails after those before it were made. -/
theorem declareAll_eq_error_iff : c.declareAll ds = (.error e, c') ↔
    ∃ before d after models, ds = before ++ d :: after ∧
      c.declareAll before = (.ok models, c') ∧ c'.declare d = (.error e, c') := by
  rw [run_eq_error_iff declare declareAll (fun model later => model.toList ++ later) []
    (fun c => rfl) fun c d rest => by rw [declareAll]; rcases c.declare d with ⟨_ | _, _⟩ <;> rfl]
  constructor
  · rintro ⟨before, d, after, models, mid, hsplit, hbefore, hd⟩
    obtain rfl := eq_of_declare_error hd
    exact ⟨before, d, after, models, hsplit, hbefore, hd⟩
  · rintro ⟨before, d, after, models, hsplit, hbefore, hd⟩
    exact ⟨before, d, after, models, c', hsplit, hbefore, hd⟩

/-- Files fail to load at one that fails after those before it were loaded. -/
theorem loadFiles_eq_error_iff {paths : List FilePath} {e : LoadError} :
    c.loadFiles disk paths = (.error e, c') ↔
      ∃ before path after models mid, paths = before ++ path :: after ∧
        c.loadFiles disk before = (.ok models, mid) ∧
        mid.loadFile disk path = (.error e, c') := by
  refine run_eq_error_iff (loadFile · disk) (loadFiles · disk) (fun m later => m :: later) []
    (fun c => rfl) fun c path rest => ?_
  rw [loadFiles]
  rcases c.loadFile disk path with ⟨_ | _, _⟩ <;> rfl

/-! ### Where a file fails -/

/-- Objects are made before what comes after them. -/
theorem declareAll_objects_append (objects : List Declaration.Object) (ds : List Item) :
    c.declareAll (objects.map .object ++ ds) =
      match c.declareObjects objects with
      | (.error e, c) => (.error e, c)
      | (.ok (), c)   => c.declareAll ds := by
  induction objects generalizing c with
  | nil => rfl
  | cons o rest ih =>
      rw [List.map_cons, List.cons_append, declareAll, declareObjects, declare]
      rcases c.declareObject o with ⟨e | ⟨⟩, mid⟩
      · rfl
      · simp only [Prod.map_apply, id_eq, Except.map, ih]
        rcases mid.declareObjects rest with ⟨e | ⟨⟩, last⟩
        · rfl
        · dsimp only
          rcases last.declareAll ds with ⟨e | models, end'⟩ <;> rfl

theorem readFile_ne_invalid {path' : FilePath} {cause : DeclarationError} :
    readFile disk path ≠ .error (.invalid path' cause) := by
  intro h
  rcases bind_eq_error.mp h with h | ⟨text, -, h⟩
  · cases htext : disk.readText path with
    | error e => rw [htext] at h; cases h
    | ok text => rw [htext] at h; cases h
  · split at h <;> cases h

/-- A file that can be read fails to load where what it declares fails. -/
theorem loadFile_eq_error_iff (hfile : readFile disk path = .ok file) {e : LoadError} :
    c.loadFile disk path = (.error e, c') ↔
      ∃ cause, e = .invalid path cause ∧ c.declareAll (itemsOf file) = (.error cause, c') := by
  obtain ⟨objects, m⟩ := file
  simp only [loadFile, hfile, itemsOf, declareAll_objects_append]
  rcases c.declareObjects objects with ⟨cause | ⟨⟩, mid⟩
  · simp [eq_comm, and_comm]
  · simp only [declareAll, declare]
    rcases mid.declareModel m with ⟨cause | model, last⟩
    · simp [Except.mapError, Except.map, eq_comm, and_comm]
    · simp [Except.mapError, Except.map]

/-- A file that loads can be read, and what it declares is made. -/
theorem exists_makes_of_loadFile {m : Model} (h : c.loadFile disk path = (.ok m, c')) :
    ∃ file made, readFile disk path = .ok file ∧ made.map Made.item = itemsOf file ∧
      Makes c made ∧ made.flatMap (·.model.toList) = [m] ∧ c' = c.recordAll made := by
  cases hfile : readFile disk path with
  | error e => rw [loadFile, hfile] at h; cases h
  | ok file =>
      obtain ⟨made, hitems, hmakes, hmodels, hc'⟩ :=
        declareAll_eq_ok_iff.mp ((declareAll_file_eq_ok_iff hfile).mpr ⟨m, h, rfl⟩)
      exact ⟨file, made, rfl, hitems, hmakes, hmodels.symm, hc'⟩

/-! ### What stays -/

/-- A load stops with an error, after declarations of the file were made: the file cannot be read,
or the next declaration fails. -/
inductive Stops (c : Catalog) (disk : Disk Content) (path : FilePath) :
    LoadError → List Made → Prop where
  | unread {e : LoadError} (hfile : readFile disk path = .error e) : Stops c disk path e []
  | refused {file : List Declaration.Object × Declaration.Model} {d : Item} {after : List Item}
      {kept : List Made} {cause : DeclarationError} (hfile : readFile disk path = .ok file)
      (hitems : itemsOf file = kept.map Made.item ++ d :: after)
      (hd : (c.recordAll kept).declare d = (.error cause, c.recordAll kept)) :
      Stops c disk path (.invalid path cause) kept

@[simp] theorem recordAll_nil (c : Catalog) : c.recordAll [] = c := by simp [recordAll]

theorem recordAll_eq_self_iff : c.recordAll made = c ↔ made = [] := by
  refine ⟨fun h => ?_, by rintro rfl; exact recordAll_nil c⟩
  have hentries := congrArg entries h
  exact List.map_eq_nil_iff.mp (List.append_right_eq_self.mp hentries)

/-- **Where a load stops**, and what it leaves: the entries of the declarations that were made. -/
theorem loadFile_stops_iff {e : LoadError} : c.loadFile disk path = (.error e, c') ↔
    ∃ kept, Stops c disk path e kept ∧ Makes c kept ∧ c' = c.recordAll kept := by
  cases hfile : readFile disk path with
  | error e' =>
      rw [loadFile, hfile]
      constructor
      · intro h
        obtain ⟨he, rfl⟩ := Prod.mk.inj h
        obtain rfl := Except.error.inj he
        exact ⟨[], .unread hfile, .nil, (recordAll_nil c).symm⟩
      · rintro ⟨kept, hstops, -, rfl⟩
        cases hstops with
        | unread h =>
            obtain rfl := Except.error.inj (hfile.symm.trans h)
            rw [recordAll_nil]
        | refused h => cases hfile.symm.trans h
  | ok file =>
      rw [loadFile_eq_error_iff hfile]
      simp only [declareAll_eq_error_iff, declareAll_eq_ok_iff]
      constructor
      · rintro ⟨cause, rfl, before, d, after, models, hitems, ⟨kept, rfl, hmakes, -, rfl⟩, hd⟩
        exact ⟨kept, .refused hfile hitems hd, hmakes, rfl⟩
      · rintro ⟨kept, hstops, hmakes, rfl⟩
        cases hstops with
        | unread h => cases hfile.symm.trans h
        | @refused _ d after _ cause h hitems hd =>
            obtain rfl := Except.ok.inj (hfile.symm.trans h)
            exact ⟨cause, rfl, _, d, after, _, hitems, ⟨kept, rfl, hmakes, rfl, rfl⟩, hd⟩

/-! ### Later loads -/

theorem get?_recordAll (c : Catalog) (made : List Made) (name : String) :
    (c.recordAll made).get? name
      = (c.get? name).or (((made.map Made.entry).find? (·.1 = name)).map Prod.snd) := by
  rw [get?, get?, recordAll, List.find?_append, Option.map_or]

/-- Entries of other names make no difference to declarations that are made. -/
theorem makes_recordAll_iff {kept : List Made} (h : Makes c made) :
    Makes (c.recordAll kept) made ↔ ∀ m ∈ made, ∀ k ∈ kept, k.item.name ≠ m.item.name := by
  constructor
  · intro h' m hm
    exact (contains_recordAll_eq_false.mp ((makes_iff.mp h').2.1 m hm).1).2
  · intro hother
    obtain ⟨hnodup, hall, hordered⟩ := makes_iff.mp h
    refine makes_iff.mpr ⟨hnodup, fun m hm => ?_, hordered⟩
    obtain ⟨hname, hpending, hgives⟩ := hall m hm
    refine ⟨contains_recordAll_eq_false.mpr ⟨hname, hother m hm⟩, hpending,
      hgives.congr rfl fun name href => ?_⟩
    rw [get?_recordAll, get?_recordAll c made]
    -- what is referred to was there before, or is one of the declarations
    cases hget : c.get? name with
    | some shape => rw [get?_recordAll_of_some hget]
    | none =>
        obtain ⟨-, shape, hshape⟩ := hgives.exists_shape href
        by_cases hmade : ∃ m' ∈ made, m'.item.name = name
        · obtain ⟨m', hm', rfl⟩ := hmade
          rw [get?_recordAll_of_forall_ne (hother m' hm'), hget]
        · rw [get?_recordAll_of_forall_ne fun m' hm' he => hmade ⟨m', hm', he⟩, hget] at hshape
          nomatch hshape

/-- The file that a path leads to declares a name. -/
def Declares (disk : Disk Content) (path : FilePath) (name : String) : Prop :=
  ∃ file, readFile disk path = .ok file ∧ name ∈ (itemsOf file).map Item.name

theorem declares_iff {name : String} (hfile : readFile disk path = .ok file) :
    Declares disk path name ↔ name ∈ (itemsOf file).map Item.name := by
  refine ⟨fun ⟨file', hfile', hmem⟩ => ?_, fun hmem => ⟨file, hfile, hmem⟩⟩
  obtain rfl := Except.ok.inj (hfile.symm.trans hfile')
  exact hmem

/-- The names with an entry after declarations are those that had one and those of the
declarations. -/
theorem contains_recordAll {name : String} : (c.recordAll made).contains name = true ↔
    c.contains name = true ∨ ∃ m ∈ made, m.item.name = name := by
  rw [← not_iff_not, Bool.not_eq_true, contains_recordAll_eq_false, not_or, Bool.not_eq_true]
  simp only [not_exists, not_and]

/-- After files were loaded the names with an entry are those that had one and those that the files
declare. -/
theorem contains_of_loadFiles {paths : List FilePath}
    (h : c.loadFiles disk paths = (.ok models, c')) :
    c'.pending = c.pending ∧ (∀ path ∈ paths, ∃ file, readFile disk path = .ok file) ∧
      ∀ name, c'.contains name = true ↔
        c.contains name = true ∨ ∃ path ∈ paths, Declares disk path name := by
  induction paths generalizing c models with
  | nil =>
      obtain ⟨-, rfl⟩ := Prod.mk.inj h
      exact ⟨rfl, nofun, fun name => by simp⟩
  | cons path rest ih =>
      rw [loadFiles] at h
      split at h
      · cases h
      · next m mid hload =>
          obtain ⟨hresult, rfl⟩ := Prod.mk.inj h
          cases hrest : (mid.loadFiles disk rest).1 with
          | error e => rw [hrest] at hresult; cases hresult
          | ok later =>
              obtain ⟨hpending, hread, hnames⟩ := ih (Prod.ext hrest rfl)
              obtain ⟨file, made, hfile, hitems, -, -, rfl⟩ := exists_makes_of_loadFile hload
              refine ⟨hpending, List.forall_mem_cons.mpr ⟨⟨file, hfile⟩, hread⟩, fun name => ?_⟩
              have hdeclares : (∃ m ∈ made, m.item.name = name) ↔ Declares disk path name := by
                rw [declares_iff hfile, ← hitems, List.map_map, List.mem_map]
                rfl
              rw [hnames, contains_recordAll, hdeclares, or_assoc]
              simp

/-- A file that declares a name with an entry does not load. -/
theorem loadFile_of_declares {name : String} (h : Declares disk path name)
    (hname : c.contains name = true) : ∃ e, (c.loadFile disk path).1 = .error e := by
  cases hload : (c.loadFile disk path).1 with
  | error e => exact ⟨e, rfl⟩
  | ok m =>
      obtain ⟨file, made, hfile, hitems, hmakes, -⟩ := exists_makes_of_loadFile (Prod.ext hload rfl)
      rw [declares_iff hfile, ← hitems, List.map_map] at h
      obtain ⟨m', hm', rfl⟩ := List.mem_map.mp h
      exact absurd hname (Bool.eq_false_iff.mp ((makes_iff.mp hmakes).2.1 m' hm').1)

/-- A file that declares none of the names loads beside their entries as without them. -/
theorem loadFile_recordAll {m : Model} {kept : List Made}
    (h : c.loadFile disk path = (.ok m, c'))
    (hother : ∀ k ∈ kept, ¬ Declares disk path k.item.name) :
    ((c.recordAll kept).loadFile disk path).1 = .ok m := by
  obtain ⟨file, made, hfile, hitems, hmakes, hmodel, -⟩ := exists_makes_of_loadFile h
  have hmakes' : Makes (c.recordAll kept) made := by
    refine (makes_recordAll_iff hmakes).mpr fun m' hm' k hk he => hother k hk ⟨file, hfile, ?_⟩
    rw [← hitems, List.map_map]
    exact List.mem_map.mpr ⟨m', hm', he.symm⟩
  obtain ⟨m', hload, hm'⟩ := (declareAll_file_eq_ok_iff hfile).mp
    (declareAll_eq_ok_iff.mpr ⟨made, hitems, hmakes', rfl, rfl⟩)
  rw [hload]
  exact congrArg Except.ok (List.singleton_inj.mp (hm'.symm.trans hmodel))

/-- **What a load that fails leaves in the catalog**: what the file declares before the declaration
that failed stays, so the catalog is as it was just where there was none before it or the file could
not be read.  Every other entry is as it was.  A file that loads on the catalog as it was gives the
same model on what is left, as long as it declares none of the names that stay; a file that declares
one of them does not load any more, be it the corrected file itself. -/
theorem loadFile_keeps {e : LoadError} (h : c.loadFile disk path = (.error e, c')) :
    ∃ kept, Stops c disk path e kept ∧ c' = c.recordAll kept ∧ (c' = c ↔ kept = []) ∧
      (∀ k ∈ kept, c.get? k.item.name = none ∧ c'.get? k.item.name = some k.fields.shape) ∧
      (∀ name, (∀ k ∈ kept, k.item.name ≠ name) → c'.get? name = c.get? name) ∧
      (∀ disk' path' m c₁, c.loadFile disk' path' = (.ok m, c₁) →
        (∀ k ∈ kept, ¬ Declares disk' path' k.item.name) →
          (c'.loadFile disk' path').1 = .ok m) ∧
      ∀ disk' path', (∃ k ∈ kept, Declares disk' path' k.item.name) →
        ∃ e', (c'.loadFile disk' path').1 = .error e' := by
  obtain ⟨kept, hstops, hmakes, rfl⟩ := loadFile_stops_iff.mp h
  obtain ⟨hnodup, hall, -⟩ := makes_iff.mp hmakes
  have hnew : ∀ k ∈ kept, c.get? k.item.name = none := fun k hk => by
    simpa [contains] using (hall k hk).1
  have hentry : ∀ k ∈ kept, (c.recordAll kept).get? k.item.name = some k.fields.shape := by
    intro k hk
    have hkeys : ((kept.map Made.entry).map Prod.fst).Nodup := by rwa [List.map_map]
    have hfind := find?_of_nodup hkeys (List.mem_map_of_mem hk)
    rw [get?_recordAll, hnew k hk, Option.none_or]
    exact congrArg (Option.map Prod.snd) hfind
  refine ⟨kept, hstops, rfl, recordAll_eq_self_iff, fun k hk => ⟨hnew k hk, hentry k hk⟩,
    fun name => get?_recordAll_of_forall_ne, fun disk' path' m c₁ => loadFile_recordAll, ?_⟩
  rintro disk' path' ⟨k, hk, hdeclares⟩
  refine loadFile_of_declares hdeclares ?_
  rw [contains, hentry k hk]
  rfl

/-- Two declaration files with one object: the first gives a field of its model no kind, the second
is its correction. -/
def draftAndCorrection : Disk Content :=
  { files := .directory [
    ("draft.json", .file (.plain (
      "\x7b\"objects\":[\x7b\"name\":\"Address\"\x7d],\"model\":\x7b\"name\":\"User\"," ++
      "\"fields\":[\x7b\"name\":\"age\"\x7d]\x7d\x7d").toUTF8)),
    ("fixed.json", .file (.plain (
      "\x7b\"objects\":[\x7b\"name\":\"Address\"\x7d],\"model\":\x7b\"name\":\"User\"," ++
      "\"fields\":[\x7b\"name\":\"age\",\"declared\":\"number\"\x7d]\x7d\x7d").toUTF8))] }

/-- The object of a file whose model is refused stays, and whatever declares it fails. -/
theorem loadFile_keeps_object :
    let disk := draftAndCorrection
    let load := ({} : Catalog).loadFile disk "draft.json"
    ∃ e kept, load.1 = .error e ∧ Stops {} disk "draft.json" e kept ∧
      load.2 = ({} : Catalog).recordAll kept ∧ kept ≠ [] ∧
      ∀ disk' path', (∃ k ∈ kept, Declares disk' path' k.item.name) →
        ∃ e', (load.2.loadFile disk' path').1 = .error e' := by
  intro disk load
  have hfails : load.1.toOption.isNone = true := by decide +kernel
  have hentry : load.2.contains "Address" = true := by decide +kernel
  cases hload : load.1 with
  | ok m => rw [hload] at hfails; nomatch hfails
  | error e =>
      have h : ({} : Catalog).loadFile disk "draft.json" = (.error e, load.2) := Prod.ext hload rfl
      obtain ⟨kept, hstops, hkept, hsame, -, -, -, hrefused⟩ := loadFile_keeps h
      refine ⟨e, kept, rfl, hstops, hkept, fun hnil => ?_, hrefused⟩
      have hempty : load.2 = {} := hsame.mpr hnil
      rw [hempty] at hentry
      nomatch hentry

/-- The correction loads, but not after the draft. -/
theorem correction_refused :
    let disk := draftAndCorrection
    let load := ({} : Catalog).loadFile disk "draft.json"
    load.1.toOption.isNone = true ∧ ({} : Catalog).contains "Address" = false ∧
      load.2.contains "Address" = true ∧
      (({} : Catalog).loadFile disk "fixed.json").1.toOption.isSome = true ∧
      (load.2.loadFile disk "fixed.json").1.toOption.isNone = true := by
  decide +kernel

end Catalog

end Schemata

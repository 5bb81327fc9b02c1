import Schemata.Proofs.Catalog.Building
import Schemata.Proofs.Catalog.Loading
import Schemata.Proofs.Glob.Counting

/-!
# Schemata — Proofs — Glob — Listing

How often a pattern lists a file.  It lists a file as often as there are ways in which the pattern
selects its names (`selectFiles_lists`).  With at most one run of `**` there is one way at most
(`Glob.ways_le_one`): what follows the run selects as many names as it has components, so the run
stands for as many as are left.  With more runs there can be several ways, where a name comes more
than once on the path of a file.

A file that is listed twice comes right after itself, as the list is sorted, and its names are
declared by then (`loadFiles_duplicate_iff`).

* `selectFiles_counts`: how often files are listed, and when loading them fails for a name that is
  declared twice.
-/

namespace Schemata

variable {α : Type}

namespace Glob

variable {glob rest : Glob} {names names' path : List String} {count : String → List String → Nat}

/-! ### Patterns that descend once -/

/-- How often a pattern descends: the runs of `**` in it. -/
def descents : Glob → Nat
  | []                                  => 0
  | .name _ :: rest                     => descents rest
  | [.directories]                      => 1
  | .directories :: .directories :: rest => descents (.directories :: rest)
  | .directories :: .name _ :: rest     => descents rest + 1

theorem waysBy_le_one {tokens : List Token} {next : List String → Nat}
    (h : ∀ names, next names ≤ 1) (name : String) (later : List String) :
    waysBy tokens next name later ≤ 1 := by
  rw [waysBy]
  split
  · exact h later
  · exact Nat.zero_le 1

/-- Names that are selected without descending are as many, whatever they are. -/
theorem length_eq_of_ways : ∀ (glob : Glob) {names names' : List String}, glob.descents = 0 →
    0 < glob.ways names → 0 < glob.ways names' → names.length = names'.length
  | [], [], [], _, _, _ => rfl
  | [], _ :: _, _, _, h, _ => absurd h (Nat.lt_irrefl 0)
  | [], _, _ :: _, _, _, h => absurd h (Nat.lt_irrefl 0)
  | .name _ :: _, [], _, _, h, _ => absurd h (Nat.lt_irrefl 0)
  | .name _ :: _, _, [], _, _, h => absurd h (Nat.lt_irrefl 0)
  | .name [] :: rest, _ :: _, _ :: _, hd, h, h' => length_eq_of_ways rest hd h h'
  | .name (_ :: _) :: rest, _ :: _, _ :: _, hd, h, h' => by
      have hlength := length_eq_of_ways rest hd (waysBy_pos_iff.mp h).2 (waysBy_pos_iff.mp h').2
      rw [List.length_cons, List.length_cons, hlength]
  | [.directories], _, _, hd, _, _ => nomatch hd
  | .directories :: .directories :: rest, _, _, hd, h, h' =>
      length_eq_of_ways (.directories :: rest) hd h h'
  | .directories :: .name _ :: _, _, _, hd, _, _ => nomatch hd

/-- Of the ends of a list at most one has the length that counts. -/
theorem sumEnds_le_one (hone : ∀ name later, count name later ≤ 1)
    (hlength : ∀ name later name' later', 0 < count name later → 0 < count name' later' →
      later.length = later'.length) : sumEnds count names ≤ 1 := by
  induction names with
  | nil => exact Nat.zero_le 1
  | cons name later ih =>
      rw [sumEnds]
      rcases Nat.eq_zero_or_pos (count name later) with hzero | hpos
      · rwa [hzero, Nat.zero_add]
      · have hlater : sumEnds count later = 0 := by
          refine Nat.eq_zero_of_not_pos fun hsum => ?_
          obtain ⟨front, name', later', rfl, hpos'⟩ := sumEnds_pos_iff.mp hsum
          have hsame := hlength name _ name' later' hpos hpos'
          simp only [List.length_append, List.length_cons] at hsame
          omega
        rw [hlater]
        exact hone name later

/-- **A pattern that descends once or never** selects names in one way at most. -/
theorem ways_le_one : ∀ (glob : Glob) (names : List String), glob.descents ≤ 1 →
    glob.ways names ≤ 1
  | [], [], _ => Nat.le_refl 1
  | [], _ :: _, _ => Nat.zero_le 1
  | .name _ :: _, [], _ => Nat.zero_le 1
  | .name [] :: rest, name :: later, hd => ways_le_one rest (name :: later) hd
  | .name (_ :: _) :: rest, name :: later, hd =>
      waysBy_le_one (fun names => ways_le_one rest names hd) name later
  | [.directories], _, _ => Nat.zero_le 1
  | .directories :: .directories :: rest, names, hd =>
      ways_le_one (.directories :: rest) names hd
  | .directories :: .name tokens :: rest, names, hd => by
      have hrest : descents rest = 0 := Nat.eq_zero_of_le_zero (Nat.le_of_succ_le_succ hd)
      rw [ways]
      refine sumEnds_le_one (waysBy_le_one fun names => ?_) fun name later name' later' h h' => ?_
      · exact ways_le_one rest names (hrest ▸ Nat.zero_le 1)
      · exact length_eq_of_ways rest hrest (waysBy_pos_iff.mp h).2 (waysBy_pos_iff.mp h').2

/-! ### How often a file is listed -/

/-- A file that is within reach where it is found is listed as often as it is found. -/
theorem count_paths_filesOf {found : List (Finding α)}
    (hreach : ∀ q, .found q ∈ found → q.tree.isFile = true → q.path = path →
      q.isWithinReach = true) :
    ((filesOf (found.filterMap Finding.place?)).map Place.path).count path
      = found.countP (Finding.isFileAt path) := by
  rw [List.count_eq_countP, List.countP_map, filesOf, (List.mergeSort_perm _ _).countP_eq,
    List.countP_filter, List.countP_filterMap]
  refine List.countP_congr fun f hf => ?_
  cases f with
  | unlisted q => exact Iff.rfl
  | found q =>
      simp only [Finding.place?, Option.map_some, Option.getD_some, Function.comp,
        Finding.isFileAt, Bool.and_eq_true, beq_iff_eq, decide_eq_true_eq]
      constructor
      · rintro ⟨hpath, hfile, -⟩
        exact ⟨hfile, hpath⟩
      · rintro ⟨hfile, hpath⟩
        exact ⟨hpath, hfile, hreach q hf hfile hpath⟩

end Glob

/-! ### A file that is loaded twice -/

open Declaration (Item itemsOf)
open Catalog (readFile Declares)

/-- A tree holds a file at the end of a path. -/
def FileTree.HasFile (files : FileTree α) (path : List String) : Prop :=
  ∃ content, files.get? path = some (.file content)

/-- All the names are different that the files declare to which paths from one start lead. -/
structure Disk.DeclaresOnce (disk : Disk Content) (isAbsolute : Bool) : Prop where
  within : ∀ path file, (disk.start isAbsolute).tree.HasFile path →
    readFile disk (.ofNames isAbsolute path) = .ok file → ((itemsOf file).map Item.name).Nodup
  across : ∀ path path' name, (disk.start isAbsolute).tree.HasFile path →
    (disk.start isAbsolute).tree.HasFile path' → Declares disk (.ofNames isAbsolute path) name →
    Declares disk (.ofNames isAbsolute path') name → path = path'

theorem FileName.eq_of_map_bytes {p q : List String} (hp : ∀ name ∈ p, FileName.IsProper name)
    (hq : ∀ name ∈ q, FileName.IsProper name)
    (h : p.map FileName.bytes = q.map FileName.bytes) : p = q := by
  have hback : ∀ {p : List String}, (∀ name ∈ p, FileName.IsProper name) →
      (p.map FileName.bytes).map FileName.ofBytes = p := by
    intro p hp
    rw [List.map_map]
    exact (List.map_congr_left fun name hname => (hp name hname).ofBytes).trans (List.map_id p)
  rw [← hback hp, h, hback hq]

/-- What comes before itself in a sorted list does so at once. -/
theorem exists_concat_of_sorted {before after : List (List String)} {path : List String}
    (hproper : ∀ p ∈ before ++ path :: after, ∀ name ∈ p, FileName.IsProper name)
    (hsorted : (before ++ path :: after).Pairwise
      fun p q => p.map FileName.bytes ≤ q.map FileName.bytes)
    (hmem : path ∈ before) : ∃ front, before = front ++ [path] := by
  obtain ⟨front, last, rfl⟩ :=
    (List.eq_nil_or_concat' before).resolve_left (List.ne_nil_of_mem hmem)
  refine ⟨front, ?_⟩
  rcases List.mem_append.mp hmem with hfront | hlast
  · obtain ⟨hbefore, -, hle⟩ := List.pairwise_append.mp hsorted
    have hle' := (List.pairwise_append.mp hbefore).2.2 path hfront last List.mem_cons_self
    have hsame := List.le_antisymm hle' (hle last (by simp) path List.mem_cons_self)
    rw [FileName.eq_of_map_bytes (hproper path (by simp)) (hproper last (by simp)) hsame]
  · rw [List.mem_singleton.mp hlast]

/-- **Files that are loaded twice.**  Where all declared names are different, sorted files fail to
load for a name that is declared twice just where one comes again right after itself, and it and
those before it load. -/
theorem loadFiles_duplicate_iff {disk : Disk Content} {isAbsolute : Bool}
    (hproper : (disk.start isAbsolute).tree.Proper) (honce : disk.DeclaresOnce isAbsolute)
    {paths : List (List String)}
    (hfiles : ∀ path ∈ paths, (disk.start isAbsolute).tree.HasFile path)
    (hsorted : paths.Pairwise fun p q => p.map FileName.bytes ≤ q.map FileName.bytes) :
    (∃ path name, (({} : Catalog).loadFiles disk (paths.map (.ofNames isAbsolute))).1
        = .error (.invalid path (.duplicateDeclaration name))) ↔
      ∃ before path after, paths = before ++ path :: path :: after ∧ ∃ models,
        (({} : Catalog).loadFiles disk ((before ++ [path]).map (.ofNames isAbsolute))).1
          = .ok models := by
  constructor
  · rintro ⟨text, name, h⟩
    obtain ⟨_, _, _, models, mid, hsplit, hbefore, hload⟩ :=
      Catalog.loadFiles_eq_error_iff.mp (Prod.ext h rfl)
    obtain ⟨before, _, rfl, rfl, hrest⟩ := List.map_eq_append_iff.mp hsplit
    obtain ⟨path, after, rfl, rfl, rfl⟩ := List.map_eq_cons_iff.mp hrest
    obtain ⟨hpending, -, hnames⟩ := Catalog.contains_of_loadFiles hbefore
    obtain ⟨kept, hstops, -, -⟩ := Catalog.loadFile_stops_iff.mp hload
    have hpath := hfiles path (List.mem_append_right _ List.mem_cons_self)
    cases hstops with
    | unread hfile => exact absurd hfile Catalog.readFile_ne_invalid
    | @refused file d _ _ _ hfile hitems hd =>
      have hpending' : (mid.recordAll kept).pending = [] := hpending
      obtain ⟨rfl, hname⟩ := Catalog.name_of_declare_duplicate hpending' hd
      have hdeclares : Declares disk (.ofNames isAbsolute path) d.name := by
        rw [Catalog.declares_iff hfile, hitems]
        exact List.mem_map_of_mem (List.mem_append_right _ List.mem_cons_self)
      rcases Catalog.contains_recordAll.mp hname with hmid | ⟨k, hk, hsame⟩
      · obtain ⟨_, htext, hdeclares'⟩ := ((hnames d.name).mp hmid).resolve_left nofun
        obtain ⟨other, hother, rfl⟩ := List.mem_map.mp htext
        obtain rfl := honce.across other path d.name (hfiles other (List.mem_append_left _ hother))
          hpath hdeclares' hdeclares
        have hnames : ∀ p ∈ before ++ other :: after, ∀ name ∈ p, FileName.IsProper name := by
          intro p hp
          obtain ⟨_, hget⟩ := hfiles p hp
          exact hproper.isProper_of_get? hget
        obtain ⟨front, rfl⟩ := exists_concat_of_sorted hnames hsorted hother
        exact ⟨front, other, after, by simp, models, congrArg Prod.fst hbefore⟩
      · -- the file itself declares no name twice
        have hnodup := honce.within path file hpath hfile
        rw [hitems, List.map_append, List.map_cons, List.map_map] at hnodup
        refine absurd hsame ((List.nodup_append.mp hnodup).2.2 _ ?_ _ List.mem_cons_self)
        exact List.mem_map.mpr ⟨k, hk, rfl⟩
  · rintro ⟨before, path, after, rfl, models, h⟩
    obtain ⟨mid, hload⟩ : ∃ mid, ({} : Catalog).loadFiles disk
        ((before ++ [path]).map (.ofNames isAbsolute)) = (.ok models, mid) := ⟨_, Prod.ext h rfl⟩
    obtain ⟨-, hread, hnames⟩ := Catalog.contains_of_loadFiles hload
    obtain ⟨file, hfile⟩ := hread (.ofNames isAbsolute path) (by simp)
    obtain ⟨d, rest, hitems⟩ : ∃ d rest, itemsOf file = d :: rest :=
      List.exists_cons_of_ne_nil (by simp [itemsOf])
    have hname : mid.contains d.name = true := by
      refine (hnames d.name).mpr (.inr ⟨.ofNames isAbsolute path, by simp, ?_⟩)
      rw [Catalog.declares_iff hfile, hitems]
      exact List.mem_cons_self
    have hagain : mid.loadFile disk (.ofNames isAbsolute path)
        = (.error (.invalid (.ofNames isAbsolute path) (.duplicateDeclaration d.name)), mid) := by
      refine (Catalog.loadFile_eq_error_iff hfile).mpr ⟨_, rfl, ?_⟩
      rw [hitems, Catalog.declareAll, Catalog.declare_of_contains (.inl hname)]
    exact ⟨_, _, congrArg Prod.fst (Catalog.loadFiles_eq_error_iff.mpr
      ⟨_, _, after.map (.ofNames isAbsolute), models, mid, by simp, hload, hagain⟩)⟩

/-! ### The files that a pattern lists -/

open Glob

/-- Where the paths start that a pattern selects. -/
def Disk.startOf (disk : Disk α) (pattern : String) : Place α :=
  disk.start (Path.isAbsolute pattern)

/-- The files that a pattern can list: by a path within reach, and by a pattern without a slash at
its end. -/
structure Listable (disk : Disk Content) (pattern : String) (path : List String) : Prop where
  unslashed : pattern.toList.getLast? ≠ some '/'
  reach : (disk.startOf pattern).Reaches path
  file : (disk.startOf pattern).tree.HasFile path

section Files

variable {disk : Disk Content} {pattern : String} {glob : Glob} {path : List String}
  {q : Place Content} (hfiles : (disk.startOf pattern).tree.Proper)
  (hdotless : ∀ component ∈ glob, component.IsDotless)
include hfiles hdotless

/-- What is found is at the end of its path, from where the search starts. -/
theorem leadsTo_bare_of_found (hq : .found q ∈ findings glob (disk.startOf pattern)) :
    q.IsTidy ∧ (disk.startOf pattern).LeadsTo q.bare.path q.bare := by
  have hstart : (disk.startOf pattern).IsProper := Place.isProper_start hfiles
  obtain ⟨hq, names, hleads⟩ := isBelow_of_mem_findings hstart.isTidy hdotless _ hq
  rw [hstart.bare_eq] at hleads
  obtain rfl : q.bare.path = names := by
    rw [hleads.path, Disk.startOf, disk.path_start, List.nil_append]
  exact ⟨hq, hleads⟩

/-- Files are found at the end of their paths. -/
theorem leadsTo_of_file (hq : .found q ∈ findings glob (disk.startOf pattern))
    (hfile : q.tree.isFile = true) : (disk.startOf pattern).LeadsTo q.path q := by
  obtain ⟨htidy, hleads⟩ := leadsTo_bare_of_found hfiles hdotless hq
  rwa [htidy.file hfile] at hleads

/-- A file is found once for each way in which its names are selected. -/
theorem countP_findings_start (hglob : parse pattern = .ok glob)
    (h : Listable disk pattern path) :
    (findings glob (disk.startOf pattern)).countP (Finding.isFileAt path) = glob.ways path := by
  obtain ⟨content, hget⟩ := h.file
  have hstart : (disk.startOf pattern).IsProper := Place.isProper_start hfiles
  have hcount := countP_findings hstart.isTidy hdotless (fun hhere hhead => ?_) hget
    (by rw [hstart.bare_eq]; exact h.reach)
  · rwa [hstart.bare_eq, Disk.startOf, disk.path_start, List.nil_append] at hcount
  · -- only a pattern that starts with a slash starts with an empty component
    rw [Disk.startOf, isAbsolute_of_parse hglob hhead] at hhere
    nomatch hhere

/-- The files that are found are listed in the order of the bytes of their names, each as often as
there are ways in which its names are selected. -/
theorem lists_filesOf (hglob : parse pattern = .ok glob)
    (hslash : pattern.toList.getLast? ≠ some '/') {paths : List (List String)}
    (hpaths : paths = (filesOf ((findings glob (disk.startOf pattern)).filterMap
      Finding.place?)).map Place.path) :
    (paths.Pairwise fun p q => p.map FileName.bytes ≤ q.map FileName.bytes) ∧
      (∀ path ∈ paths, Listable disk pattern path) ∧
      ∀ path, Listable disk pattern path → paths.count path = glob.ways path := by
  subst hpaths
  refine ⟨pairwise_filesOf fun q hq hfile => ?_, fun path hpath => ?_, fun path h => ?_⟩
  · have hleads := leadsTo_of_file hfiles hdotless (mem_filterMap_place?.mp hq) hfile
    exact hfiles.isProper_of_get? hleads.tree
  · obtain ⟨q, hq, rfl⟩ := List.mem_map.mp hpath
    obtain ⟨hq, hfile, hreach⟩ := mem_filesOf.mp hq
    have hleads := leadsTo_of_file hfiles hdotless (mem_filterMap_place?.mp hq) hfile
    refine ⟨hslash, hleads.reaches_iff.mpr hreach, ?_⟩
    cases htree : q.tree with
    | file content => exact ⟨content, hleads.tree.trans (congrArg some htree)⟩
    | directory => rw [htree] at hfile; cases hfile
  · rw [count_paths_filesOf fun q hq hfile hpath => ?_,
      countP_findings_start hfiles hdotless hglob h]
    exact (leadsTo_of_file hfiles hdotless hq hfile).reaches_iff.mp (hpath ▸ h.reach)

/-- What a pattern lists, if the search does not fail for a path that is too long. -/
theorem selectFiles_lists (hglob : parse pattern = .ok glob) :
    (∃ paths : List (List String),
      selectFiles disk pattern = .ok (paths.map (.ofNames (Path.isAbsolute pattern))) ∧
      (paths.Pairwise fun p q => p.map FileName.bytes ≤ q.map FileName.bytes) ∧
      (∀ path ∈ paths, Listable disk pattern path) ∧
      ∀ path, Listable disk pattern path → paths.count path = glob.ways path) ∨
    ∃ path : FilePath, disk.limit ≤ path.size ∧
      selectFiles disk pattern = .error (.unreadable path .nameTooLong) := by
  have hsearch : search pattern disk = .ok (findings glob (disk.startOf pattern)) := by
    rw [search, hglob]
    rfl
  rw [selectFiles_of_search hsearch]
  cases hobstacle : (findings glob (disk.startOf pattern)).findSome? Finding.obstacle? with
  | some q =>
      obtain ⟨f, hf, hq⟩ := List.exists_of_findSome?_eq_some hobstacle
      have hstart : (disk.startOf pattern).IsProper := Place.isProper_start hfiles
      have hbelow := isBelow_of_mem_findings hstart.isTidy hdotless f hf
      cases f with
      | found p => cases hq
      | unlisted p =>
          obtain rfl := Option.some.inj hq
          obtain ⟨⟨-, hlong⟩, hroute⟩ := hbelow
          rw [Place.isWithinReach, hroute, Disk.startOf, disk.route_start] at hlong
          exact .inr ⟨p.filePath, Nat.not_lt.mp (of_decide_eq_false hlong), rfl⟩
  | none =>
      by_cases hslash : pattern.toList.getLast? = some '/'
      · exact .inl ⟨[], congrArg Except.ok (if_pos hslash), .nil,
          List.forall_mem_nil _, fun path h => absurd hslash h.unslashed⟩
      · refine .inl ⟨_, congrArg Except.ok (filePaths_eq hslash fun q hq => ?_),
          lists_filesOf hfiles hdotless hglob hslash rfl⟩
        have hroute := (leadsTo_bare_of_found hfiles hdotless hq).2.route
        rw [Disk.startOf, disk.route_start] at hroute
        exact congrArg Route.isAbsolute hroute

end Files

theorem loadPattern_of_select {disk : Disk Content} {pattern : String} {paths : List FilePath}
    (h : selectFiles disk pattern = .ok paths) :
    loadPattern disk pattern = (({} : Catalog).loadFiles disk paths).1 := by
  rw [loadPattern, h]
  rfl

/-- **How often a pattern lists a file**, whatever files a file system holds, and for a pattern
whose components do not start with a dot, be it searched from the root of all paths or from the
working directory.  It lists a file as often as there are ways in which the names of its path are
selected, so each file once at most just where there is one way at most for every file, as with a
single run of `**` or none.  If all the names that the files there declare are different, then
loading fails for a name that is declared twice just where a file is listed again that was loaded
right before.  The list itself fails only for a path that is too long. -/
theorem selectFiles_counts {disk : Disk Content} {pattern : String}
    (hfiles : (disk.startOf pattern).tree.Proper) {glob : Glob} (hglob : parse pattern = .ok glob)
    (hpieces : ∀ piece ∈ Path.pieces pattern, piece.toList.head? ≠ some '.') :
    (∃ paths : List (List String),
      selectFiles disk pattern = .ok (paths.map (.ofNames (Path.isAbsolute pattern))) ∧
      (∀ path ∈ paths, Listable disk pattern path) ∧
      (∀ path, Listable disk pattern path → paths.count path = glob.ways path) ∧
      (paths.Nodup ↔ ∀ path, Listable disk pattern path → glob.ways path ≤ 1) ∧
      (glob.descents ≤ 1 → paths.Nodup) ∧
      (disk.DeclaresOnce (Path.isAbsolute pattern) →
        ((∃ path name, loadPattern disk pattern
            = .error (.invalid path (.duplicateDeclaration name))) ↔
          ∃ before path after, paths = before ++ path :: path :: after ∧ ∃ models,
            (({} : Catalog).loadFiles disk
              ((before ++ [path]).map (.ofNames (Path.isAbsolute pattern)))).1 = .ok models))) ∨
    ∃ path : FilePath, disk.limit ≤ path.size ∧
      selectFiles disk pattern = .error (.unreadable path .nameTooLong) := by
  rcases selectFiles_lists hfiles (isDotless_of_parse hpieces hglob) hglob with
    ⟨paths, hselect, hsorted, hlistable, hcount⟩ | hlong
  · have hnodup : paths.Nodup ↔ ∀ path, Listable disk pattern path → glob.ways path ≤ 1 := by
      rw [List.nodup_iff_count_le_one]
      refine ⟨fun h path hpath => hcount path hpath ▸ h path, fun h path => ?_⟩
      by_cases hmem : path ∈ paths
      · rw [hcount path (hlistable path hmem)]
        exact h path (hlistable path hmem)
      · rw [List.count_eq_zero.mpr hmem]
        exact Nat.zero_le 1
    refine .inl ⟨paths, hselect, hlistable, hcount, hnodup, fun hdescents => ?_, fun honce => ?_⟩
    · exact hnodup.mpr fun path _ => ways_le_one glob path hdescents
    · rw [loadPattern_of_select hselect]
      exact loadFiles_duplicate_iff hfiles honce (fun path hpath => (hlistable path hpath).file)
        hsorted
  · exact .inr hlong

/-- A declaration file in a directory whose name comes twice on the way to it. -/
def Disk.nested : Disk Content where
  files := .directory [("models", .directory [("models", .directory [
    ("item.json", .file (.plain "\x7b\"model\":\x7b\"name\":\"Item\"\x7d\x7d".toUTF8))])])]

theorem Disk.proper_nested : nested.files.Proper :=
  .single (by decide +kernel) (.single (by decide +kernel) (.single (by decide +kernel) (.file _)))

/-- What is in a directory with one entry is at the end of that entry's name. -/
theorem FileTree.get?_single {name : String} {t u : FileTree α} {path : List String}
    (h : (FileTree.directory [(name, t)]).get? path = some u) :
    path = [] ∧ u = .directory [(name, t)] ∨
      ∃ rest, path = name :: rest ∧ t.get? rest = some u := by
  cases path with
  | nil => exact .inl ⟨rfl, (Option.some.inj h).symm⟩
  | cons first rest =>
      obtain ⟨_, sub, ⟨⟩, hmem, -, hrest⟩ := exists_entry_of_get? h
      obtain ⟨rfl, rfl⟩ := Prod.mk.inj (List.mem_singleton.mp hmem)
      exact .inr ⟨rest, rfl, hrest⟩

theorem Disk.eq_of_hasFile_nested {path : List String} (h : nested.files.HasFile path) :
    path = ["models", "models", "item.json"] := by
  obtain ⟨content, houter⟩ := h
  obtain ⟨-, ⟨⟩⟩ | ⟨_, rfl, hinner⟩ := FileTree.get?_single houter
  obtain ⟨-, ⟨⟩⟩ | ⟨_, rfl, hitem⟩ := FileTree.get?_single hinner
  obtain ⟨-, ⟨⟩⟩ | ⟨rest, rfl, hrest⟩ := FileTree.get?_single hitem
  cases rest with
  | nil => rfl
  | cons => nomatch hrest

theorem Disk.declaresOnce_nested : nested.DeclaresOnce false where
  across path path' _ hpath hpath' _ _ :=
    (eq_of_hasFile_nested hpath).trans (eq_of_hasFile_nested hpath').symm
  within path file hpath hfile := by
    have hnames : (readFile nested (.ofNames false ["models", "models", "item.json"])).toOption.map
        (fun file => (itemsOf file).map Item.name) = some ["Item"] := by decide +kernel
    obtain rfl := eq_of_hasFile_nested hpath
    rw [hfile] at hnames
    have hone : (itemsOf file).map Item.name = ["Item"] := Option.some.inj hnames
    rw [hone]
    exact List.nodup_singleton _

/-- A pattern that asks for a directory of that name between two `**`. -/
theorem Glob.parse_models : parse "**/models/**/*.json" = .ok [.directories, .name
    [.literal 'm', .literal 'o', .literal 'd', .literal 'e', .literal 'l', .literal 's'],
    .directories, .name
    [.anyText, .literal '.', .literal 'j', .literal 's', .literal 'o', .literal 'n']] := by
  decide +kernel

theorem listable_nested :
    Listable .nested "**/models/**/*.json" ["models", "models", "item.json"] :=
  ⟨by decide, by decide +kernel, _, rfl⟩

/-- Of the two directories either can be the one that the pattern asks for. -/
theorem eq_of_count_nested {paths : List (List String)}
    (hlistable : ∀ path ∈ paths, Listable .nested "**/models/**/*.json" path)
    (hcount : paths.count ["models", "models", "item.json"] = 2) :
    paths = [["models", "models", "item.json"], ["models", "models", "item.json"]] := by
  have hall : ∀ path ∈ paths, ["models", "models", "item.json"] = path :=
    fun path hpath => (Disk.eq_of_hasFile_nested (hlistable path hpath).file).symm
  have hlength : paths.length = 2 := (List.count_eq_length.mpr hall).symm.trans hcount
  exact List.eq_replicate_iff.mpr ⟨hlength, fun path hpath => (hall path hpath).symm⟩

theorem selectFiles_nested : selectFiles .nested "**/models/**/*.json"
    = .ok [.ofText "models/models/item.json", .ofText "models/models/item.json"] := by
  have hproper : (Disk.startOf .nested "**/models/**/*.json").tree.Proper := Disk.proper_nested
  rcases selectFiles_lists hproper (isDotless_of_parse (by decide) Glob.parse_models)
    Glob.parse_models with
    ⟨paths, hpaths, -, hlistable, hcount⟩ | ⟨path, -, hfails⟩
  · rw [hpaths, eq_of_count_nested hlistable ((hcount _ listable_nested).trans (by decide))]
    exact congrArg Except.ok (by decide +kernel)
  · have hsome : (selectFiles .nested "**/models/**/*.json").toOption.isSome = true := by
      decide +kernel
    rw [hfails] at hsome
    nomatch hsome

/-- The file is listed twice, and cannot be loaded twice. -/
theorem selectFiles_counts_nested : ∃ paths : List (List String),
    selectFiles .nested "**/models/**/*.json" = .ok (paths.map (.ofNames false)) ∧
      paths = [["models", "models", "item.json"], ["models", "models", "item.json"]] ∧
      ∃ path name, loadPattern .nested "**/models/**/*.json"
        = .error (.invalid path (.duplicateDeclaration name)) := by
  obtain ⟨models, hmodels⟩ : ∃ models, (({} : Catalog).loadFiles .nested
      [.ofNames false ["models", "models", "item.json"]]).1 = .ok models := by
    have hload : (({} : Catalog).loadFiles .nested
        [.ofNames false ["models", "models", "item.json"]]).1.toOption.isSome = true := by
      decide +kernel
    cases h : (({} : Catalog).loadFiles .nested
        [.ofNames false ["models", "models", "item.json"]]).1 with
    | ok models => exact ⟨models, rfl⟩
    | error e => rw [h] at hload; nomatch hload
  have hproper : (Disk.startOf .nested "**/models/**/*.json").tree.Proper := Disk.proper_nested
  rcases selectFiles_counts hproper Glob.parse_models (by decide) with
    ⟨paths, hpaths, hlistable, hcount, -, -, hduplicate⟩ | ⟨path, -, hfails⟩
  · have htwice := eq_of_count_nested hlistable ((hcount _ listable_nested).trans (by decide))
    exact ⟨paths, hpaths, htwice, (hduplicate Disk.declaresOnce_nested).mpr
      ⟨[], _, [], htwice, models, hmodels⟩⟩
  · nomatch selectFiles_nested.symm.trans hfails

/-- All names are different there, and loading still fails for one that is declared twice. -/
theorem loadPattern_nested :
    Disk.nested.files.Proper ∧ Disk.nested.DeclaresOnce false ∧
      (parse "**/models/**/*.json").toOption.isSome = true ∧
      (∀ piece ∈ Path.pieces "**/models/**/*.json", piece.toList.head? ≠ some '.') ∧
      selectFiles .nested "**/models/**/*.json"
        = .ok [.ofText "models/models/item.json", .ofText "models/models/item.json"] ∧
      loadPattern .nested "**/models/**/*.json"
        = .error (.invalid (.ofText "models/models/item.json") (.duplicateDeclaration "Item")) := by
  have herror : (match (({} : Catalog).loadFiles .nested
      [.ofText "models/models/item.json", .ofText "models/models/item.json"]).1 with
      | .error e => some e
      | .ok _    => none)
      = some (.invalid (.ofText "models/models/item.json") (.duplicateDeclaration "Item")) := by
    decide +kernel
  refine ⟨Disk.proper_nested, Disk.declaresOnce_nested, by rw [Glob.parse_models]; rfl,
    by decide, selectFiles_nested, ?_⟩
  rw [loadPattern_of_select selectFiles_nested]
  split at herror
  · next he => rw [he, Option.some.inj herror]
  · nomatch herror

end Schemata

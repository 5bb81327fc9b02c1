import Schemata.FileTree.Disk
import Schemata.Proofs.FileTree
import Schemata.Proofs.Lists
import Schemata.Proofs.Path

/-!
# Schemata — Proofs — FileTree — Walking

Places that are reached downwards in a tree of files.  The trees are those that a file system can
hold (`FileTree.Proper`): the names in a directory differ, and each is one that a file system gives,
be it a text or not.  A place leads along names to what is at the end of them in its tree, by its
own path with the names behind (`Place.LeadsTo`).  Listing a directory leads along the names in it,
and listing all that is below it along any names (`Place.leadsTo_of_mem_children`,
`Place.leadsTo_of_mem_below`, and the other way `Place.exists_mem_children`,
`Place.exists_mem_below`).
-/

namespace Schemata

variable {α : Type}

namespace FileTree

/-- Trees that a file system can hold. -/
inductive Proper : FileTree α → Prop where
  | file (content : α) : Proper (.file content)
  | directory {entries : List (String × FileTree α)} (distinct : (entries.map Prod.fst).Nodup)
      (names : ∀ e ∈ entries, FileName.IsProper e.1)
      (trees : ∀ e ∈ entries, Proper e.2) : Proper (.directory entries)

variable {t u : FileTree α} {entries : List (String × FileTree α)} {e : String × FileTree α}
  {name : String} {names : List String}

/-! ### Names in a tree -/

/-- Where names come once, an entry is found by its name. -/
theorem entryOf_of_mem (h : (entries.map Prod.fst).Nodup) (he : e ∈ entries) :
    entryOf entries e.1 = some e.2 := by
  rw [entryOf, find?_of_nodup h he, Option.map_some]

/-- What is found by a name is an entry. -/
theorem mem_of_entryOf (h : entryOf entries name = some t) : (name, t) ∈ entries := by
  obtain ⟨e, he, rfl⟩ := Option.map_eq_some_iff.mp h
  have hname := List.find?_some he
  exact of_decide_eq_true hname ▸ List.mem_of_find?_eq_some he

/-- Names lead on from an entry of a directory. -/
theorem exists_entry_of_get? (h : t.get? (name :: names) = some u) :
    ∃ entries sub, t = .directory entries ∧ (name, sub) ∈ entries ∧
      entryOf entries name = some sub ∧ sub.get? names = some u := by
  cases t with
  | file => nomatch h
  | directory entries =>
      rw [get?_directory] at h
      obtain ⟨sub, hsub, hrest⟩ := Option.bind_eq_some_iff.mp h
      exact ⟨entries, sub, rfl, mem_of_entryOf hsub, hsub, hrest⟩

/-- Only a directory has something below it. -/
theorem isDirectory_of_get?_cons (h : t.get? (name :: names) = some u) :
    t.isDirectory = true := by
  obtain ⟨entries, -, rfl, -⟩ := exists_entry_of_get? h
  rfl

theorem isFile_of_get?_nil {content : α} (h : t.get? [] = some (.file content)) :
    t.isFile = true := by
  rw [Option.some.inj h]
  rfl

namespace Proper

/-- The entries of a proper directory have names of their own. -/
theorem distinct (h : (FileTree.directory entries).Proper) : (entries.map Prod.fst).Nodup := by
  cases h with
  | directory distinct _ _ => exact distinct

theorem isProper_name (h : (FileTree.directory entries).Proper) (he : e ∈ entries) :
    FileName.IsProper e.1 := by
  cases h with
  | directory _ names _ => exact names e he

/-- What is in a proper directory is proper. -/
theorem tree (h : (FileTree.directory entries).Proper) (he : e ∈ entries) : e.2.Proper := by
  cases h with
  | directory _ _ trees => exact trees e he

/-- A directory with one proper entry is proper. -/
theorem single (hname : FileName.IsProper name) (ht : t.Proper) :
    (FileTree.directory [(name, t)]).Proper :=
  .directory (by simp) (List.forall_mem_singleton.mpr hname)
    (List.forall_mem_singleton.mpr ht)

/-- What is in a proper tree is proper. -/
theorem get? (h : t.Proper) (hget : t.get? names = some u) : u.Proper := by
  induction names generalizing t with
  | nil => exact Option.some.inj hget ▸ h
  | cons first rest ih =>
      obtain ⟨entries, sub, rfl, hmem, -, hrest⟩ := exists_entry_of_get? hget
      exact ih (h.tree hmem) hrest

/-- The names that lead to something in a proper tree are proper. -/
theorem isProper_of_get? (h : t.Proper) (hget : t.get? names = some u) :
    ∀ name ∈ names, FileName.IsProper name := by
  induction names generalizing t with
  | nil => nofun
  | cons first rest ih =>
      obtain ⟨entries, sub, rfl, hmem, -, hrest⟩ := exists_entry_of_get? hget
      exact List.forall_mem_cons.mpr ⟨h.isProper_name hmem, ih (h.tree hmem) hrest⟩

end Proper

end FileTree

/-! ### Places along names -/

namespace Place

/-- A place leads along names to another. -/
structure LeadsTo (p : Place α) (names : List String) (q : Place α) : Prop where
  tree : p.tree.get? names = some q.tree
  route : q.route = p.route
  path : q.path = p.path ++ names

/-- A place in a proper tree that was reached by a path without pieces that are empty or stay. -/
structure IsProper (p : Place α) : Prop where
  tree : p.tree.Proper
  path : ∀ piece ∈ p.path, piece ≠ "" ∧ piece ≠ Path.current

variable {p q r : Place α} {name : String} {names later : List String} {t : FileTree α}

/-- A path without empty pieces has no slash at its end. -/
theorem unslashed_eq {path : List String} (h : "" ∉ path) : unslashed path = path :=
  if_neg fun hlast => h (List.mem_of_getLast? hlast)

/-- Where no piece is empty or stays, paths go on from the whole path. -/
theorem IsProper.stem_eq (hp : p.IsProper) : p.stem = p.path := by
  unfold stem
  split
  · next hhere =>
      -- a path of which all pieces stay has none
      have hall := (Bool.and_eq_true_iff.mp hhere).2
      refine (List.eq_nil_iff_forall_not_mem.mpr fun piece hpiece => ?_).symm
      exact (hp.path piece hpiece).2 (of_decide_eq_true (List.all_eq_true.mp hall piece hpiece))
  · exact unslashed_eq fun hempty => (hp.path "" hempty).1 rfl

/-- A name is put behind the path of a proper place. -/
theorem IsProper.joined_eq (hp : p.IsProper) (hname : name ≠ "") :
    p.joined name = p.path ++ [name] := by
  rw [joined, if_neg fun he => hname he.1, hp.stem_eq]

/-- A search starts at a proper place in a proper tree. -/
theorem isProper_start {d : Disk α} {isAbsolute : Bool} (h : (d.start isAbsolute).tree.Proper) :
    (d.start isAbsolute).IsProper :=
  ⟨h, by rw [d.path_start]; nofun⟩

namespace LeadsTo

theorem refl (p : Place α) : p.LeadsTo [] p := ⟨rfl, rfl, (List.append_nil _).symm⟩

/-- To go on from where one got to is to go the whole way. -/
theorem trans (h : p.LeadsTo names q) (h' : q.LeadsTo later r) :
    p.LeadsTo (names ++ later) r := by
  refine ⟨?_, h'.route.trans h.route, ?_⟩
  · rw [FileTree.get?_append, h.tree, Option.bind_some, h'.tree]
  · rw [h'.path, h.path, List.append_assoc]

/-- Names lead from a proper place to a proper place. -/
theorem isProper (h : p.LeadsTo names q) (hp : p.IsProper) : q.IsProper := by
  refine ⟨hp.tree.get? h.tree, ?_⟩
  rw [h.path, List.forall_mem_append]
  refine ⟨hp.path, fun name hname => ?_⟩
  have hproper := hp.tree.isProper_of_get? h.tree name hname
  exact ⟨hproper.ne_empty, hproper.ne_current⟩

end LeadsTo

/-- Names behind the path of a place give a path within reach. -/
def Reaches (p : Place α) (names : List String) : Prop :=
  (FilePath.ofNames p.route.isAbsolute (p.path ++ names)).size < p.route.limit

instance (p : Place α) (names : List String) : Decidable (p.Reaches names) := Nat.decLt _ _

/-- A path within reach goes on from places within reach. -/
theorem Reaches.isWithinReach (h : p.Reaches names) : p.isWithinReach = true :=
  decide_eq_true (Nat.lt_of_le_of_lt (FilePath.size_ofNames_append _ p.path names) h)

/-- What is within reach from a place further on is so from the place before. -/
theorem LeadsTo.reaches (h : p.LeadsTo names q) : q.Reaches later ↔ p.Reaches (names ++ later) := by
  rw [Reaches, Reaches, h.route, h.path, List.append_assoc]

/-- Names are within reach of a place if the place that they lead to is. -/
theorem LeadsTo.reaches_iff (h : p.LeadsTo names q) :
    p.Reaches names ↔ q.isWithinReach = true := by
  rw [Reaches, isWithinReach, decide_eq_true_eq, filePath, h.route, h.path]

/-! ### Listing a directory -/

/-- Listing a directory leads along the names in it. -/
theorem leadsTo_of_mem_children (hp : p.IsProper) (hq : q ∈ p.children) :
    p.LeadsTo [q.name] q := by
  unfold children at hq
  cases htree : p.tree with
  | file => simp [htree] at hq
  | directory entries =>
      simp only [htree] at hq
      obtain ⟨e, he, rfl⟩ := List.mem_map.mp hq
      rw [Place.name, List.getLastD_concat]
      refine ⟨?_, rfl, congrArg (· ++ [e.1]) hp.stem_eq⟩
      rw [htree, FileTree.get?_directory, FileTree.entryOf_of_mem (htree ▸ hp.tree).distinct he]
      rfl

/-- What is directly in a place is one of its children. -/
theorem exists_mem_children (hp : p.IsProper) (h : p.tree.get? [name] = some t) :
    ∃ q ∈ p.children, q.name = name ∧ p.LeadsTo [name] q ∧ q.tree = t := by
  obtain ⟨entries, sub, htree, hmem, -, hsub⟩ := FileTree.exists_entry_of_get? h
  obtain rfl := Option.some.inj hsub
  refine ⟨⟨sub, p.tree :: p.above, p.route, p.stem ++ [name], true⟩, ?_, ?_,
    ⟨h, rfl, congrArg (· ++ [name]) hp.stem_eq⟩, rfl⟩
  · rw [children, htree]
    exact List.mem_map.mpr ⟨(name, sub), hmem, by rw [← htree]⟩
  · rw [Place.name, List.getLastD_concat]

/-- The places of the entries of a directory have different paths. -/
theorem nodup_children (hp : p.IsProper) : (p.children.map Place.path).Nodup := by
  unfold children
  cases htree : p.tree with
  | file => exact List.nodup_nil
  | directory entries =>
      have hproper : (FileTree.directory entries).Proper := htree ▸ hp.tree
      have hnames : entries.Pairwise fun e e' => e.1 ≠ e'.1 :=
        List.pairwise_map.mp hproper.distinct
      simp only [List.map_map]
      refine List.pairwise_map.mpr (hnames.imp fun hne hpath => hne ?_)
      exact List.singleton_inj.mp (List.append_cancel_left hpath)

/-! ### Following a name -/

/-- Following a name leads along it. -/
theorem leadsTo_of_step (hp : p.IsProper) (hempty : name ≠ "") (hcurrent : name ≠ Path.current)
    (hparent : name ≠ Path.parent) (h : p.step name = .ok q) : p.LeadsTo [name] q := by
  unfold step at h
  split at h
  · nomatch h
  · next entries htree =>
      rw [if_neg hempty, if_neg hcurrent, if_neg hparent] at h
      split at h
      · nomatch h
      · split at h
        · nomatch h
        · next sub hsub =>
            obtain rfl := Except.ok.inj h
            refine ⟨?_, rfl, hp.joined_eq hempty⟩
            rw [htree, FileTree.get?_directory, hsub]
            rfl

/-- What is directly in a place is a step away. -/
theorem exists_step (hp : p.IsProper) (hname : FileName.IsProper name)
    (h : p.tree.get? [name] = some t) :
    ∃ q, p.step name = .ok q ∧ p.LeadsTo [name] q ∧ q.tree = t := by
  obtain ⟨entries, sub, htree, -, hentry, hsub⟩ := FileTree.exists_entry_of_get? h
  obtain rfl := Option.some.inj hsub
  refine ⟨⟨sub, p.tree :: p.above, p.route, p.joined name, false⟩, ?_,
    ⟨h, rfl, hp.joined_eq hname.ne_empty⟩, rfl⟩
  rw [step, htree]
  simp only [if_neg hname.ne_empty, if_neg hname.ne_current, if_neg hname.ne_parent,
    if_neg (Nat.not_lt.mpr hname.size), hentry]

/-! ### Listing all that is below -/

section Below

variable {above : List (FileTree α)} {route : Route} {path : List String}

/-- What is listed below a directory, entry by entry. -/
theorem entriesBelow_eq (above : List (FileTree α)) (route : Route) (path : List String)
    (entries : List (String × FileTree α)) :
    entriesBelow above route path entries = entries.flatMap fun e =>
      ⟨e.2, above, route, path ++ [e.1], true⟩ :: placesBelow above route (path ++ [e.1]) e.2 := by
  induction entries with
  | nil => rfl
  | cons e rest ih => rw [entriesBelow, ih, List.flatMap_cons]

mutual
/-- All that is below a tree is at the end of names. -/
theorem names_of_mem_placesBelow {above : List (FileTree α)} {path : List String} :
    ∀ {t : FileTree α}, t.Proper → q ∈ placesBelow above route path t → ∃ names, names ≠ [] ∧
      t.get? names = some q.tree ∧ q.route = route ∧ q.path = path ++ names
  | .file _, _, hq => nomatch hq
  | .directory entries, ht, hq => by
      obtain ⟨e, he, rest, hrest, hplace⟩ :=
        names_of_mem_entriesBelow (fun e he => ht.tree he) hq
      refine ⟨e.1 :: rest, List.cons_ne_nil _ _, ?_, hplace⟩
      rw [FileTree.get?_directory, FileTree.entryOf_of_mem ht.distinct he, Option.bind_some, hrest]
/-- A place below entries is found in one of them: by induction on the entries, and in each on what
is below it. -/
theorem names_of_mem_entriesBelow {above : List (FileTree α)} {path : List String} :
    ∀ {entries : List (String × FileTree α)}, (∀ e ∈ entries, e.2.Proper) →
      q ∈ entriesBelow above route path entries → ∃ e ∈ entries, ∃ rest,
        e.2.get? rest = some q.tree ∧ q.route = route ∧ q.path = path ++ e.1 :: rest
  | [], _, hq => nomatch hq
  | (name, t) :: later, hentries, hq => by
      obtain ⟨ht, hlater⟩ := List.forall_mem_cons.mp hentries
      rw [entriesBelow, List.cons_append, List.mem_cons, List.mem_append] at hq
      rcases hq with rfl | hq | hq
      · exact ⟨_, List.mem_cons_self, [], rfl, rfl, rfl⟩
      · obtain ⟨rest, -, hget, hroute, hpath⟩ := names_of_mem_placesBelow ht hq
        refine ⟨_, List.mem_cons_self, rest, hget, hroute, ?_⟩
        rw [hpath, List.append_assoc, List.singleton_append]
      · obtain ⟨e, he, rest, hfound⟩ := names_of_mem_entriesBelow hlater hq
        exact ⟨e, List.mem_cons_of_mem _ he, rest, hfound⟩
end

mutual
/-- All that is at the end of names is below a tree. -/
theorem exists_mem_placesBelow {above : List (FileTree α)} {path : List String} :
    ∀ {u : FileTree α} {names : List String}, names ≠ [] → u.get? names = some t →
      ∃ q ∈ placesBelow above route path u, q.tree = t ∧ q.route = route ∧ q.path = path ++ names
  | _, [], hne, _ => absurd rfl hne
  | .file _, _ :: _, _, hget => nomatch hget
  | .directory entries, first :: rest, _, hget => by
      obtain ⟨_, sub, ⟨⟩, hmem, -, hrest⟩ := FileTree.exists_entry_of_get? hget
      exact exists_mem_entriesBelow hmem hrest
/-- What is found in an entry is a place below the entries. -/
theorem exists_mem_entriesBelow {above : List (FileTree α)} {path : List String} :
    ∀ {entries : List (String × FileTree α)} {e : String × FileTree α} {rest : List String},
      e ∈ entries → e.2.get? rest = some t →
      ∃ q ∈ entriesBelow above route path entries, q.tree = t ∧ q.route = route ∧
        q.path = path ++ e.1 :: rest
  | [], _, _, he, _ => nomatch he
  | (name, u) :: later, e, rest, he, hget => by
      unfold entriesBelow
      rcases List.mem_cons.mp he with rfl | he
      · cases rest with
        | nil =>
            obtain rfl := Option.some.inj hget
            exact ⟨_, List.mem_cons_self, rfl, rfl, rfl⟩
        | cons second rest =>
            obtain ⟨q, hq, htree, hroute, hpath⟩ :=
              exists_mem_placesBelow (List.cons_ne_nil _ _) hget
            refine ⟨q, List.mem_cons_of_mem _ (List.mem_append_left _ hq), htree, hroute, ?_⟩
            rw [hpath, List.append_assoc, List.singleton_append]
      · obtain ⟨q, hq, hplace⟩ := exists_mem_entriesBelow he hget
        exact ⟨q, List.mem_append_right _ hq, hplace⟩
end

end Below

/-- Listing all that is below a place leads along names. -/
theorem leadsTo_of_mem_below (hp : p.IsProper) (hq : q ∈ p.below) :
    ∃ names, names ≠ [] ∧ p.LeadsTo names q := by
  obtain ⟨names, hne, hget, hroute, hpath⟩ := names_of_mem_placesBelow hp.tree hq
  exact ⟨names, hne, hget, hroute, by rw [hpath, hp.stem_eq]⟩

/-- What names lead to is a place below, however far. -/
theorem exists_mem_below (hp : p.IsProper) (hne : names ≠ [])
    (hget : p.tree.get? names = some t) : ∃ q ∈ p.below, p.LeadsTo names q ∧ q.tree = t := by
  obtain ⟨q, hq, rfl, hroute, hpath⟩ :
      ∃ q ∈ p.below, q.tree = t ∧ q.route = p.route ∧ q.path = p.stem ++ names :=
    exists_mem_placesBelow hne hget
  exact ⟨q, hq, ⟨hget, hroute, by rw [hpath, hp.stem_eq]⟩, rfl⟩

end Place

/-! ### Paths that are followed -/

namespace Disk

variable {d : Disk α} {t : FileTree α} {names : List String}

/-- The paths of the working directory and all that is below it are within reach. -/
def Follows (d : Disk α) : Prop :=
  ∀ q ∈ d.start false :: (d.start false).below, q.isWithinReach = true

instance (d : Disk α) : Decidable d.Follows := List.decidableBAll _ _

/-- The path along names in the working directory is within reach. -/
theorem Follows.reaches (h : d.Follows) (hd : d.files.Proper) (hget : d.files.get? names = some t) :
    (d.start false).Reaches names := by
  by_cases hnames : names = []
  · have hstart : (d.start false).isWithinReach = true := h _ List.mem_cons_self
    rw [Place.isWithinReach, decide_eq_true_eq] at hstart
    rw [hnames]
    exact hstart
  · obtain ⟨q, hq, hleads, -⟩ :=
      Place.exists_mem_below (p := d.start false) (Place.isProper_start hd) hnames hget
    exact hleads.reaches_iff.mpr (h q (List.mem_cons_of_mem _ hq))

/-- Whatever the files, their paths are followed where the limit is great enough. -/
theorem exists_follows {files : FileTree α} (hfiles : files.Proper) :
    ∃ least, ∀ limit ≥ least, ({ files, limit } : Disk α).Follows := by
  let sizes := (Place.placesBelow [] {} [] files).map fun q => (FilePath.ofNames false q.path).size
  refine ⟨sizes.max?.getD 0 + 1, fun limit hlimit => List.forall_mem_cons.mpr ⟨?_, fun q hq => ?_⟩⟩
  · exact decide_eq_true (Nat.lt_of_lt_of_le (Nat.succ_pos _) hlimit)
  · obtain ⟨names, hne, hget, hroute, hpath⟩ := Place.names_of_mem_placesBelow hfiles hq
    -- the same names lead below whatever the limit is
    obtain ⟨r, hr, -, -, hrpath⟩ := Place.exists_mem_placesBelow hne hget
    have hsize : (FilePath.ofNames false names).size ≤ sizes.max?.getD 0 := by
      refine List.le_max?_getD_of_mem (List.mem_map.mpr ⟨r, hr, ?_⟩)
      rw [hrpath, List.nil_append]
    rw [Place.isWithinReach, Place.filePath, hroute, hpath, decide_eq_true_eq]
    exact Nat.lt_of_lt_of_le (Nat.lt_succ_of_le hsize) hlimit

end Disk

end Schemata

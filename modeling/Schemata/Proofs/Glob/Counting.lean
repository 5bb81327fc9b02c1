import Mathlib.Data.List.Nodup
import Schemata.Proofs.FileTree.Slashes
import Schemata.Proofs.Glob.Selecting

/-!
# Schemata — Proofs — Glob — Counting

How often a search finds a file: once for each way in which the pattern selects the names that lead
to it, that is for each choice of the names that every run of `**` stands for (`Glob.ways`).
Components may be empty here; an empty one stays in a directory.

A search never leads up, so what it comes upon is below the place where it starts
(`Glob.isBelow_of_mem_findings`).  Of the places that one component leads to only the one on the way
to a file adds to how often that file is found (`Glob.countP_named`, `Glob.countP_placesBelow`), and
so for a whole pattern (`Glob.countP_findings`).
-/

namespace Schemata

variable {α β γ : Type}

/-! ### Counting in parts -/

theorem countP_flatMap_eq_zero {as : List α} {f : α → List β} {test : β → Bool}
    (h : ∀ a ∈ as, (f a).countP test = 0) : (as.flatMap f).countP test = 0 := by
  rw [List.countP_eq_zero]
  intro b hb
  obtain ⟨a, ha, hb⟩ := List.mem_flatMap.mp hb
  exact List.countP_eq_zero.mp (h a ha) b hb

/-- Where keys come once each and only the items of one key count, what is counted is that of the
item with this key. -/
theorem countP_flatMap_of_nodup {as : List α} {f : α → List β} {test : β → Bool} {key : α → γ}
    (h : (as.map key).Nodup) {a : α} (ha : a ∈ as)
    (hother : ∀ b ∈ as, key b ≠ key a → (f b).countP test = 0) :
    (as.flatMap f).countP test = (f a).countP test := by
  induction as with
  | nil => nomatch ha
  | cons b rest ih =>
      obtain ⟨hnew, hrest⟩ := List.nodup_cons.mp h
      rw [List.flatMap_cons, List.countP_append]
      rcases List.mem_cons.mp ha with rfl | ha
      · rw [countP_flatMap_eq_zero, Nat.add_zero]
        exact fun b hb => hother b (List.mem_cons_of_mem _ hb)
          fun he => hnew (he ▸ List.mem_map_of_mem hb)
      · rw [hother b List.mem_cons_self fun he => hnew (he ▸ List.mem_map_of_mem ha), Nat.zero_add]
        exact ih hrest ha fun b hb => hother b (List.mem_cons_of_mem _ hb)

namespace Glob

variable {p q r : Place α} {f : Finding α} {tokens : List Token} {glob : Glob} {name : String}
  {names front goal : List String} {inside : List (Finding α)}

/-! ### What is found is below -/

theorem lookIn_of_file (h : p.tree.isFile = true) : lookIn p inside = [] := if_pos h

/-- What is found in a directory does not depend on a slash at the end of its path. -/
theorem found_lookIn_bare (h : .found q ∈ lookIn p inside) : .found q ∈ lookIn p.bare inside := by
  unfold lookIn at h
  split at h
  · nomatch h
  · next hdirectory =>
      split at h
      · next hreach =>
          rw [lookIn_eq (by simpa [FileTree.isFile, Place.bare] using hdirectory)
            (Place.isWithinReach_bare hreach)]
          exact h
      · split at h
        · cases List.mem_singleton.mp h
        · nomatch h

theorem next?_bare (hp : p.bare.IsProper) (hempty : name ≠ "") (hcurrent : name ≠ Path.current)
    (hparent : name ≠ Path.parent) : next? p.bare name = next? p name := by
  rw [next?, next?, if_neg fun he => hempty he.1, if_neg fun he => hempty he.1,
    Place.step_bare hp hempty hcurrent hparent]

/-- An empty component stays in a directory, but not in the working directory. -/
theorem named_nil (p : Place α) :
    named [] p =
      if p.tree.isDirectory = true ∧ p.isHere = false then [.found p.slashed] else [] := by
  change (next? p "").toList.map Finding.found = _
  rw [next?, Place.step]
  by_cases hhere : p.isHere = true
  · simp [hhere]
  · cases htree : p.tree with
    | file => simp [FileTree.isDirectory, Except.toOption]
    | directory entries =>
        simp [FileTree.isDirectory, Except.toOption, Place.slashed, hhere, htree]

theorem found_named_bare (hp : p.bare.IsProper) (hplain : (Component.name tokens).IsPlain)
    (h : .found q ∈ named tokens p) : .found q ∈ named tokens p.bare := by
  unfold named at h ⊢
  split
  · next piece hpiece =>
      obtain ⟨hempty, hcurrent, hparent, -⟩ := ne_of_text? hplain hpiece
      rw [hpiece] at h
      rw [next?_bare hp hempty hcurrent hparent]
      exact h
  · next hpiece =>
      rw [hpiece] at h
      rw [dotted_eq_nil hplain, Place.children_bare hp, ← dotted_eq_nil hplain p]
      exact found_lookIn_bare h

/-- A finding is below a place: a place at the end of names, or a directory that cannot be
listed. -/
def Finding.IsBelow (p : Place α) : Finding α → Prop
  | .found q    => q.IsTidy ∧ ∃ names, p.bare.LeadsTo names q.bare
  | .unlisted q => IsObstacle q ∧ q.route = p.route

theorem Finding.IsBelow.after (h : f.IsBelow r) (hr : p.bare.LeadsTo front r.bare) :
    f.IsBelow p := by
  cases f with
  | unlisted q => exact ⟨h.1, h.2.trans hr.route⟩
  | found q =>
      obtain ⟨hq, names, hleads⟩ := h
      exact ⟨hq, front ++ names, hr.trans hleads⟩

/-- What tokens that are not none lead to has one name more. -/
theorem leadsTo_of_found_named (hp : p.bare.IsProper) (hplain : (Component.name tokens).IsPlain)
    (hq : .found q ∈ named tokens p) : ∃ name, p.bare.LeadsTo [name] q ∧
      FileName.isText name = true ∧ Token.matchesText tokens name.toList = true := by
  obtain ⟨_, hleads, name, rfl, htext, hmatch⟩ :=
    isFrom_of_mem_named hp hplain (found_named_bare hp hplain hq)
  exact ⟨name, hleads, htext, hmatch⟩

theorem isBelow_of_mem_named (hp : p.IsTidy) (hdotless : (Component.name tokens).IsDotless)
    (hf : f ∈ named tokens p) : f.IsBelow p := by
  by_cases htokens : tokens = []
  · rw [htokens, named_nil] at hf
    split at hf
    · next hdirectory =>
        obtain rfl := List.mem_singleton.mp hf
        exact ⟨hp.slashed hdirectory.1, [], Place.leadsTo_slashed hp.bare⟩
    · nomatch hf
  · cases f with
    | found q =>
        obtain ⟨name, hleads, -⟩ := leadsTo_of_found_named hp.bare ⟨htokens, hdotless⟩ hf
        have hq := hleads.isProper hp.bare
        exact ⟨hq.isTidy, [name], by rwa [hq.bare_eq]⟩
    | unlisted q =>
        unfold named at hf
        split at hf
        · obtain ⟨_, -, he⟩ := List.mem_map.mp hf
          nomatch he
        · rcases mem_lookIn hf with hf | ⟨he, hobstacle⟩
          · obtain ⟨_, -, he⟩ := List.mem_map.mp hf
            nomatch he
          · obtain rfl := Finding.unlisted.inj he
            exact ⟨hobstacle, rfl⟩

/-- What is found among all that is below is below, if what each place adds is below it. -/
theorem isBelow_of_mem_anywhere {here : Place α → List (Finding α)} (hp : p.IsTidy)
    (hhere : ∀ r, r.IsProper → ∀ f ∈ here r, f.IsBelow r) (hf : f ∈ anywhere here p) :
    f.IsBelow p := by
  rcases mem_anywhere hf with ⟨r, hr, hf⟩ | ⟨rfl, hobstacle⟩
  · obtain ⟨names, hleads⟩ := Place.exists_leadsTo_of_mem_below hp.bare hr
    have hproper := hleads.isProper hp.bare
    rcases hf with hf | ⟨rfl, hobstacle⟩
    · exact (hhere r hproper f hf).after (by rwa [hproper.bare_eq])
    · exact ⟨hobstacle, hleads.route⟩
  · exact ⟨hobstacle, rfl⟩

/-- **Whatever a search comes upon is below.** -/
theorem isBelow_of_mem_findings : ∀ {glob : Glob} {p : Place α}, p.IsTidy →
    (∀ component ∈ glob, component.IsDotless) → ∀ f ∈ findings glob p, f.IsBelow p
  | [], p, hp, _, f, hf => by
      obtain rfl := List.mem_singleton.mp hf
      exact ⟨hp, [], .refl p.bare⟩
  | .name tokens :: rest, p, hp, hdotless, f, hf => by
      obtain ⟨hname, hrest⟩ := List.forall_mem_cons.mp hdotless
      obtain ⟨g, hg, hf⟩ := List.mem_flatMap.mp hf
      have hbelow := isBelow_of_mem_named hp hname hg
      cases g with
      | unlisted q =>
          obtain rfl := List.mem_singleton.mp hf
          exact hbelow
      | found q =>
          obtain ⟨hq, names, hleads⟩ := hbelow
          exact (isBelow_of_mem_findings hq hrest f hf).after hleads
  | [.directories], p, hp, _, f, hf => by
      refine isBelow_of_mem_anywhere hp (fun r hr f hf => ?_) hf
      split at hf
      · obtain rfl := List.mem_singleton.mp hf
        exact ⟨hr.isTidy, [], .refl r.bare⟩
      · cases hf
  | .directories :: .directories :: rest, p, hp, hdotless, f, hf => by
      rw [findings] at hf
      exact isBelow_of_mem_findings hp (List.forall_mem_cons.mp hdotless).2 f hf
  | .directories :: .name tokens :: rest, p, hp, hdotless, f, hf => by
      obtain ⟨-, hrest⟩ := List.forall_mem_cons.mp (List.forall_mem_cons.mp hdotless).2
      refine isBelow_of_mem_anywhere hp (fun r hr f hf => ?_) hf
      split at hf
      · exact isBelow_of_mem_findings hr.isTidy hrest f hf
      · cases hf

/-! ### How often a file is found -/

/-- The sum over the ends of a list of names that are not empty: of each the first name, and those
behind it. -/
def sumEnds (count : String → List String → Nat) : List String → Nat
  | []            => 0
  | name :: later => count name later + sumEnds count later

/-- The ways behind a name, if it is a text and tokens match it. -/
def waysBy (tokens : List Token) (next : List String → Nat) (name : String)
    (later : List String) : Nat :=
  if Token.matchesName tokens name = true then next later else 0

/-- The number of ways in which a pattern selects the names of a file.  Tokens match one name, and a
run of `**` stands for any of the names in front of one that what follows it matches.  An empty
component stands for no name, but has one behind it, and what ends in `**` selects no files. -/
def ways : Glob → List String → Nat
  | [], []                              => 1
  | [], _ :: _                          => 0
  | .name _ :: _, []                    => 0
  | .name [] :: rest, name :: later     => ways rest (name :: later)
  | .name tokens :: rest, name :: later => waysBy tokens (ways rest) name later
  | [.directories], _                   => 0
  | .directories :: .directories :: rest, names => ways (.directories :: rest) names
  | .directories :: .name tokens :: rest, names => sumEnds (waysBy tokens (ways rest)) names

/-- Whether a finding is a file at the end of a path. -/
def Finding.isFileAt (path : List String) : Finding α → Bool
  | .found q    => q.tree.isFile && q.path = path
  | .unlisted _ => false

/-- A file is found only from places on the way to it. -/
theorem countP_findings_eq_zero (hp : p.IsTidy) (hdotless : ∀ component ∈ glob, component.IsDotless)
    (h : ¬ p.bare.path <+: goal) : (findings glob p).countP (Finding.isFileAt goal) = 0 := by
  rw [List.countP_eq_zero]
  intro f hf hfile
  have hbelow := isBelow_of_mem_findings hp hdotless f hf
  cases f with
  | unlisted q => nomatch hfile
  | found q =>
      obtain ⟨hq, names, hleads⟩ := hbelow
      obtain ⟨hisFile, hpath⟩ := Bool.and_eq_true_iff.mp hfile
      refine h ⟨names, ?_⟩
      rw [← hleads.path, hq.file hisFile]
      exact of_decide_eq_true hpath

theorem countP_findings_of_ne {other : String} {later : List String} (hp : p.bare.IsProper)
    (hdotless : ∀ component ∈ glob, component.IsDotless) (hr : p.bare.LeadsTo [other] r)
    (hne : other ≠ name) :
    (findings glob r).countP (Finding.isFileAt (p.bare.path ++ name :: later)) = 0 := by
  have hproper := hr.isProper hp
  refine countP_findings_eq_zero hproper.isTidy hdotless ?_
  rw [hproper.bare_eq, hr.path, List.prefix_append_right_inj]
  exact fun hprefix => hne (List.cons_prefix_cons.mp hprefix).1

/-! ### One name -/

theorem named_of_file (h : p.tree.isFile = true) : named tokens p = [] := by
  unfold named
  split
  · rw [next?, Place.step]
    cases htree : p.tree with
    | file => split <;> rfl
    | directory => rw [htree] at h; cases h
  · exact lookIn_of_file h

theorem named_bare (hp : p.bare.IsProper) (hplain : (Component.name tokens).IsPlain)
    (hdirectory : p.tree.isDirectory = true) (hreach : p.isWithinReach = true) :
    named tokens p.bare = named tokens p := by
  unfold named
  split
  · next piece hpiece =>
      obtain ⟨hempty, hcurrent, hparent, -⟩ := ne_of_text? hplain hpiece
      rw [next?_bare hp hempty hcurrent hparent]
  · rw [lookIn_eq (p := p.bare) hdirectory (Place.isWithinReach_bare hreach),
      lookIn_eq hdirectory hreach, dotted_eq_nil hplain, dotted_eq_nil hplain,
      Place.children_bare hp]

/-- One name leads to a path once. -/
theorem nodup_named (hp : p.IsProper) (hplain : (Component.name tokens).IsPlain)
    (hdirectory : p.tree.isDirectory = true) (hreach : p.isWithinReach = true) :
    ((named tokens p).map fun f => f.place?.map Place.path).Nodup := by
  unfold named
  split
  · cases next? p _ <;> simp
  · rw [lookIn_eq hdirectory hreach, dotted_eq_nil hplain, List.nil_append, List.map_map]
    have hpaths := (Place.nodup_children hp).sublist
      ((List.filter_sublist (p := fun q => Token.matchesName tokens q.name)).map Place.path)
    have hsome := hpaths.map fun _ _ => Option.some.inj
    rwa [List.map_map] at hsome

/-- What a search finds behind a name that tokens are to match. -/
theorem countP_named {rest : Glob} {later : List String} {t : FileTree α} (hp : p.IsTidy)
    (hplain : (Component.name tokens).IsPlain) (hrest : ∀ component ∈ rest, component.IsDotless)
    (hname : FileName.IsProper name) (hget : p.tree.get? [name] = some t)
    (hreach : p.isWithinReach = true)
    (hlater : ∀ q, p.bare.LeadsTo [name] q → q.tree = t →
      (findings rest q).countP (Finding.isFileAt (p.bare.path ++ name :: later))
        = ways rest later) :
    ((named tokens p).flatMap (Finding.andThen (findings rest))).countP
      (Finding.isFileAt (p.bare.path ++ name :: later)) = waysBy tokens (ways rest) name later := by
  have hdirectory := FileTree.isDirectory_of_get?_cons hget
  have hunlisted : ∀ q : Place α, ([Finding.unlisted q]).countP
      (Finding.isFileAt (p.bare.path ++ name :: later)) = 0 := fun q => rfl
  have hmatches : Token.matchesName tokens name = true ↔
      FileName.isText name = true ∧ Token.matchesText tokens name.toList = true := by
    rw [Token.matchesName_eq, Bool.and_eq_true]
  rw [waysBy]
  split
  · next hmatch =>
      obtain ⟨htext, hmatch⟩ := hmatches.mp hmatch
      obtain ⟨q, hq, hleads, htree⟩ := exists_named hp.bare (Place.isWithinReach_bare hreach)
        hname htext hmatch hget
      have hnodup := nodup_named hp.bare hplain hdirectory (Place.isWithinReach_bare hreach)
      rw [named_bare hp.bare hplain hdirectory hreach] at hq hnodup
      rw [countP_flatMap_of_nodup hnodup hq]
      · exact hlater q hleads htree
      · intro f hf hne
        cases f with
        | unlisted r => exact hunlisted r
        | found r =>
            obtain ⟨other, hother, -⟩ := leadsTo_of_found_named hp.bare hplain hf
            refine countP_findings_of_ne hp.bare hrest hother ?_
            rintro rfl
            exact hne (congrArg some (hother.path.trans hleads.path.symm))
  · next hmatch =>
      refine countP_flatMap_eq_zero fun f hf => ?_
      cases f with
      | unlisted r => exact hunlisted r
      | found r =>
          obtain ⟨other, hother, hother'⟩ := leadsTo_of_found_named hp.bare hplain hf
          refine countP_findings_of_ne hp.bare hrest hother ?_
          rintro rfl
          exact hmatch (hmatches.mpr hother')

/-! ### Any number of directories -/

/-- Of all that is below a directory only the places on the way to a file count, if all others add
nothing; each adds by its name and the names behind it. -/
theorem countP_placesBelow {here : Place α → List β} {test : β → Bool}
    {count : String → List String → Nat} {content : α} {route : Route} :
    ∀ {names : List String} {t : FileTree α} {above : List (FileTree α)} {path : List String},
      t.Proper → t.get? names = some (.file content) →
      (∀ q ∈ Place.placesBelow above route path t, ¬ q.path <+: path ++ names →
        (here q).countP test = 0) →
      (∀ q ∈ Place.placesBelow above route path t, ∀ front name later,
        names = front ++ name :: later → q.path = path ++ front ++ [name] →
        (here q).countP test = count name later) →
      ((Place.placesBelow above route path t).flatMap here).countP test = sumEnds count names
  | [], t, above, path, _, hget, _, _ => by
      obtain rfl := Option.some.inj hget
      rfl
  | name :: later, t, above, path, ht, hget, hoff, hon => by
      obtain ⟨entries, sub, rfl, hentry, -, hsub⟩ := FileTree.exists_entry_of_get? hget
      rw [Place.placesBelow, Place.entriesBelow_eq] at hoff hon ⊢
      rw [List.flatMap_assoc, countP_flatMap_of_nodup ht.distinct hentry]
      · -- the entry on the way, and what is below it
        have hmem : ∀ q ∈ Place.placesBelow (.directory entries :: above) route (path ++ [name])
            sub, q ∈ entries.flatMap fun e =>
              ⟨e.2, .directory entries :: above, route, path ++ [e.1], true⟩ ::
                Place.placesBelow (.directory entries :: above) route (path ++ [e.1]) e.2 :=
          fun q hq => List.mem_flatMap.mpr ⟨_, hentry, List.mem_cons_of_mem _ hq⟩
        rw [List.flatMap_cons, List.countP_append, sumEnds]
        refine congrArg₂ _ ?_ ?_
        · refine hon _ (List.mem_flatMap.mpr ⟨_, hentry, List.mem_cons_self⟩) [] name later rfl ?_
          rw [List.append_nil]
        · refine countP_placesBelow (ht.tree hentry) hsub (fun q hq hoffway => ?_) ?_
          · refine hoff q (hmem q hq) fun hprefix => hoffway ?_
            rwa [List.append_assoc, List.singleton_append]
          · rintro q hq front other rest rfl hpath
            refine hon q (hmem q hq) (name :: front) other rest rfl ?_
            rw [hpath, List.append_assoc path, List.singleton_append]
      · intro e he hne
        refine countP_flatMap_eq_zero fun q hq => hoff q (List.mem_flatMap.mpr ⟨e, he, hq⟩) ?_
        obtain ⟨rest, hpath⟩ : ∃ rest, q.path = path ++ e.1 :: rest := by
          rcases List.mem_cons.mp hq with rfl | hq
          · exact ⟨[], rfl⟩
          · obtain ⟨rest, -, -, -, hpath⟩ := Place.names_of_mem_placesBelow (ht.tree he) hq
            exact ⟨rest, by rw [hpath, List.append_assoc, List.singleton_append]⟩
        rw [hpath, List.prefix_append_right_inj]
        exact fun hprefix => hne (List.cons_prefix_cons.mp hprefix).1

/-- What a search finds behind any number of directories and a name that tokens are to match. -/
theorem countP_anywhere {rest : Glob} {content : α} (hp : p.IsTidy)
    (hrest : ∀ component ∈ rest, component.IsDotless)
    (hget : p.tree.get? names = some (.file content)) (hreach : p.bare.Reaches names)
    (hlater : ∀ (q : Place α) front later, p.bare.LeadsTo front q → front ≠ [] →
      names = front ++ later → q.tree.get? later = some (.file content) →
      (findings rest q).countP (Finding.isFileAt (p.bare.path ++ names)) = ways rest later) :
    (anywhere (fun q => if Token.matchesName tokens q.name then findings rest q else []) p).countP
      (Finding.isFileAt (p.bare.path ++ names)) = sumEnds (waysBy tokens (ways rest)) names := by
  cases names with
  | nil =>
      rw [anywhere, lookIn_of_file (FileTree.isFile_of_get?_nil hget)]
      rfl
  | cons first others =>
      have hdirectory := FileTree.isDirectory_of_get?_cons hget
      have hobstacle : ∀ q : Place α, (if q.isWithinReach then [] else lookIn q []).countP
          (Finding.isFileAt (p.bare.path ++ first :: others)) = 0 := by
        intro q
        rw [List.countP_eq_zero]
        intro f hf
        split at hf
        · cases hf
        · obtain ⟨rfl, -⟩ := (mem_lookIn hf).resolve_left List.not_mem_nil
          exact Bool.false_ne_true
      have hbelow : ∀ q ∈ Place.placesBelow p.above p.route p.bare.path p.tree,
          ∃ names, p.bare.LeadsTo names q := by
        intro q hq
        rw [← Place.stem_eq_bare hp.bare] at hq
        exact Place.exists_leadsTo_of_mem_below hp.bare hq
      rw [anywhere, lookIn_eq hdirectory (hreach.isWithinReach_of_bare (List.cons_ne_nil _ _)),
        Place.below, Place.stem_eq_bare hp.bare]
      refine countP_placesBelow hp.bare.tree hget
        (fun q hq hoff => ?_) fun q hq front name later hsplit hpath => ?_
      · obtain ⟨names, hleads⟩ := hbelow q hq
        have hproper := hleads.isProper hp.bare
        rw [List.countP_append, hobstacle, Nat.add_zero]
        split
        · exact countP_findings_eq_zero hproper.isTidy hrest (by rwa [hproper.bare_eq])
        · rfl
      · obtain ⟨names, hleads⟩ := hbelow q hq
        obtain rfl : names = front ++ [name] := by
          rw [hleads.path, List.append_assoc] at hpath
          exact List.append_cancel_left hpath
        have htree : p.tree.get? (front ++ [name]) = some q.tree := hleads.tree
        rw [hsplit, List.append_cons, FileTree.get?_append, htree] at hget
        have hqname : q.name = name := by rw [Place.name, hpath, List.getLastD_concat]
        rw [List.countP_append, hobstacle, Nat.add_zero, hqname, waysBy]
        split
        · exact hlater q _ later hleads (by simp) (by rw [hsplit, List.append_cons]) hget
        · rfl

mutual
/-- **A search finds a file once for each way** in which the pattern selects the names from where it
starts. -/
theorem countP_findings {content : α} : ∀ {glob : Glob} {p : Place α} {names : List String},
    p.IsTidy → (∀ component ∈ glob, component.IsDotless) →
    (p.isHere = true → glob.head? ≠ some (.name [])) → p.tree.get? names = some (.file content) →
    p.bare.Reaches names →
    (findings glob p).countP (Finding.isFileAt (p.bare.path ++ names)) = ways glob names
  | [], p, names, hp, _, _, hget, _ => by
      cases names with
      | nil =>
          have hfile := FileTree.isFile_of_get?_nil hget
          simp [findings, Finding.isFileAt, hfile, hp.file hfile, ways]
      | cons name later =>
          have hdirectory := FileTree.isDirectory_of_get?_cons hget
          simp [findings, Finding.isFileAt, FileTree.isFile, hdirectory, ways]
  | .name tokens :: rest, p, [], hp, _, _, hget, _ => by
      rw [findings, named_of_file (FileTree.isFile_of_get?_nil hget)]
      rfl
  | .name [] :: rest, p, name :: later, hp, hdotless, hhead, hget, hreach => by
      have hdirectory := FileTree.isDirectory_of_get?_cons hget
      have hhere : p.isHere = false := Bool.eq_false_iff.mpr fun he => hhead he rfl
      have hleads := Place.leadsTo_slashed hp.bare
      rw [findings, named_nil, if_pos ⟨hdirectory, hhere⟩, List.flatMap_singleton, ways,
        ← Place.path_bare_slashed hp.bare]
      refine countP_findings (hp.slashed hdirectory) (List.forall_mem_cons.mp hdotless).2
        (fun he => ?_) hget (hleads.reaches.mpr hreach)
      exact absurd he (Bool.eq_false_iff.mp (Place.isHere_slashed hhere))
  | .name (token :: tokens) :: rest, p, name :: later, hp, hdotless, _, hget, hreach => by
      have hname := hp.bare.tree.isProper_of_get? hget name List.mem_cons_self
      obtain ⟨hcomponent, hrest⟩ := List.forall_mem_cons.mp hdotless
      rw [← List.singleton_append, FileTree.get?_append] at hget
      obtain ⟨sub, hsub, hget⟩ := Option.bind_eq_some_iff.mp hget
      refine countP_named hp ⟨List.cons_ne_nil _ _, hcomponent⟩ hrest hname hsub
        (hreach.isWithinReach_of_bare (List.cons_ne_nil _ _)) ?_
      rintro q hleads rfl
      exact countP_findings_after hp hrest hleads (List.cons_ne_nil _ _) hget hreach
  | [.directories], p, names, _, _, _, _, _ => by
      rw [ways, List.countP_eq_zero]
      intro f hf
      rcases mem_anywhere hf with ⟨q, -, hf | ⟨rfl, -⟩⟩ | ⟨rfl, -⟩
      · split at hf
        · next hdirectory =>
            rw [List.mem_singleton.mp hf]
            simp [Finding.isFileAt, FileTree.isFile, hdirectory]
        · cases hf
      · exact Bool.false_ne_true
      · exact Bool.false_ne_true
  | .directories :: .directories :: rest, p, names, hp, hdotless, _, hget, hreach => by
      rw [findings, ways]
      exact countP_findings hp (List.forall_mem_cons.mp hdotless).2
        (fun _ hhead => by cases hhead) hget hreach
  | .directories :: .name tokens :: rest, p, names, hp, hdotless, _, hget, hreach => by
      obtain ⟨-, hrest⟩ := List.forall_mem_cons.mp (List.forall_mem_cons.mp hdotless).2
      rw [findings, ways]
      refine countP_anywhere hp hrest hget hreach fun q front later hleads hne hsplit hsub => ?_
      subst hsplit
      exact countP_findings_after hp hrest hleads hne hsub hreach
/-- What is behind names that lead on from a place. -/
theorem countP_findings_after {content : α} {rest : Glob} {p q : Place α}
    {front later : List String} (hp : p.IsTidy) (hrest : ∀ component ∈ rest, component.IsDotless)
    (hleads : p.bare.LeadsTo front q) (hne : front ≠ [])
    (hget : q.tree.get? later = some (.file content)) (hreach : p.bare.Reaches (front ++ later)) :
    (findings rest q).countP (Finding.isFileAt (p.bare.path ++ (front ++ later)))
      = ways rest later := by
  have hq := hleads.isProper hp.bare
  have hpath : q.bare.path = p.bare.path ++ front := by rw [hq.bare_eq, hleads.path]
  have hhere : q.isHere = false := Place.isHere_of_path_ne_nil hq.isTidy.bare (by simp [hpath, hne])
  rw [← List.append_assoc, ← hpath]
  refine countP_findings hq.isTidy hrest (fun he => absurd he (Bool.eq_false_iff.mp hhere)) hget ?_
  rw [hq.bare_eq]
  exact hleads.reaches.mpr hreach
end

/-! ### Names that are selected in some way -/

theorem sumEnds_pos_iff {count : String → List String → Nat} :
    0 < sumEnds count names ↔
      ∃ front name later, names = front ++ name :: later ∧ 0 < count name later := by
  induction names with
  | nil =>
      refine iff_of_false (Nat.lt_irrefl 0) ?_
      rintro ⟨front, name, later, hsplit, -⟩
      exact absurd hsplit.symm (List.append_ne_nil_of_right_ne_nil front (List.cons_ne_nil _ _))
  | cons first rest ih =>
      rw [sumEnds, Nat.add_pos_iff_pos_or_pos, ih]
      constructor
      · rintro (hfirst | ⟨front, name, later, rfl, hpos⟩)
        · exact ⟨[], first, rest, rfl, hfirst⟩
        · exact ⟨first :: front, name, later, rfl, hpos⟩
      · rintro ⟨front, name, later, hsplit, hpos⟩
        cases front with
        | nil =>
            obtain ⟨rfl, rfl⟩ := List.cons.inj hsplit
            exact .inl hpos
        | cons first' front =>
            obtain ⟨rfl, rfl⟩ := List.cons.inj hsplit
            exact .inr ⟨front, name, later, rfl, hpos⟩

theorem waysBy_pos_iff {next : List String → Nat} {later : List String} :
    0 < waysBy tokens next name later ↔
      Token.matchesName tokens name = true ∧ 0 < next later := by
  rw [waysBy]
  split
  · next hmatch => exact (and_iff_right hmatch).symm
  · next hmatch => exact iff_of_false (Nat.lt_irrefl 0) fun h => hmatch h.1

end Glob

end Schemata

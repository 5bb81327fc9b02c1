import Schemata.Proofs.Document.Forms
import Schemata.Proofs.Text.Bytes

/-!
# Schemata — Proofs — Document — Compiling

What fields and settings compile to, and when they do not.  Names of attached fields come once each,
and none is that of the field that counts revisions (`Fields.Attached.names`).  So nothing that is
put behind identity and version takes the place of anything (`Document.declaredProperties_eq`).

A timestamp is refused if its name is taken by the time it is added (`Document.Refuses`), a default
if it is for none of the properties (`Document.Lacks`).  What has a default is checked in ascending
order of the names, which is that of their bytes, so the default that is reported is the least
(`Document.checkDefaults_eq_error_iff`).

* `Document.compile_exact`: fields compile if nothing is refused and nothing lacks a property, and
  then to the document that has all of it in order (`Document.LaidOut`).
-/

namespace Schemata

/-! ### Attached fields -/

namespace Fields

/-- Fields that were attached one after another, whatever could be looked up at each. -/
inductive Attached : Fields → Prop where
  | nil : Attached []
  | attach {lookup : String → Lookup} {fs fs' : Fields} {name : String}
      {declared : Option HostType} {options : FieldOptions} (h : Attached fs)
      (hattach : fs.attach lookup name declared options = .ok fs') : Attached fs'

theorem Attached.names {fs : Fields} (h : fs.Attached) :
    fs.names.Nodup ∧ versionField ∉ fs.names := by
  induction h with
  | nil => exact ⟨.nil, List.not_mem_nil⟩
  | attach _ hattach ih =>
      obtain ⟨hversion, -, kind, fragment, -, -, rfl⟩ := attach_cases hattach
      refine ⟨nodup_attach ih.1 hattach, ?_⟩
      simpa [Fields.names] using ⟨by simpa [Fields.names] using ih.2, Ne.symm hversion⟩

end Fields

namespace Document

variable {fs : Fields} {settings : Settings} {name : String}

/-! ### The document that fields give -/

/-- The fields beside identity, in the order of their declaration. -/
def others (fs : Fields) : Fields := fs.filter (·.name ≠ idField)

/-- The names of the properties, in order. -/
def layout (fs : Fields) (settings : Settings) : List String :=
  idField :: versionField :: (others fs).names ++ stampNames settings.timestamps.names?

/-- A document has the properties of fields under settings, in order, and names those that are
required. -/
structure LaidOut (fs : Fields) (settings : Settings) (d : Document) : Prop where
  names : d.properties.names = layout fs settings
  declared : ∀ f ∈ fs, (f.name, f.fragment) ∈ d.properties
  identity : idField ∉ fs.names → (idField, .bson .objectId) ∈ d.properties
  version : (versionField, .typed .number) ∈ d.properties
  stamps : ∀ name ∈ stampNames settings.timestamps.names?, (name, .bson .date) ∈ d.properties
  /-- Identity is required unless it is declared and is not. -/
  required : d.required = (if ∀ f ∈ fs, f.name = idField → f.required = true then [idField] else [])
    ++ (others fs).required ++ stampNames settings.timestamps.names?
  closed : d.type = .object ∧ d.additionalProperties = false
  settings : d.action = settings.action ∧ d.level = settings.level ∧ d.defaults = settings.defaults

/-- A name is taken before timestamps are added. -/
def IsTaken (fs : Fields) (name : String) : Prop :=
  name = idField ∨ name = versionField ∨ name ∈ fs.names

/-- A timestamp is refused for its name: the one of creation because it is taken, or, if it is not,
the one of updates because it is taken or is the same. -/
inductive Refuses (fs : Fields) (settings : Settings) : String → Prop where
  | created {stamps : StampNames} (hstamps : settings.timestamps.names? = some stamps)
      (h : IsTaken fs stamps.created) : Refuses fs settings stamps.created
  | updated {stamps : StampNames} (hstamps : settings.timestamps.names? = some stamps)
      (hcreated : ¬ IsTaken fs stamps.created)
      (h : IsTaken fs stamps.updated ∨ stamps.updated = stamps.created) :
      Refuses fs settings stamps.updated

/-- A name has a default and is none of the properties. -/
def Lacks (fs : Fields) (settings : Settings) (name : String) : Prop :=
  ∃ defaults, settings.defaults = some defaults ∧ name ∈ defaults.names ∧
    name ∉ layout fs settings

/-- The least such name, in the order of their bytes. -/
def LacksFirst (fs : Fields) (settings : Settings) (name : String) : Prop :=
  Lacks fs settings name ∧
    ∀ other, Lacks fs settings other → name.toUTF8.toList ≤ other.toUTF8.toList

/-! ### Properties in order -/

/-- The properties are identity and version and behind them the other fields, all as they are. -/
theorem declaredProperties_eq (h : fs.Attached) : declaredProperties fs =
    (idField, ((fs.get? idField).map Field.fragment).getD (.bson .objectId)) ::
      (versionField, .typed .number) :: (others fs).map fun f => (f.name, f.fragment) := by
  obtain ⟨hnames, hversion⟩ := h.names
  have hothers : (others fs).names.Sublist fs.names := List.filter_sublist.map _
  have hid : idField ∉ (others fs).names := by simp [others, Fields.names]
  have hnodup : ([idField, versionField] ++ (others fs).map Field.name).Nodup := by
    refine List.nodup_cons.mpr ⟨?_, List.nodup_cons.mpr ⟨?_, hnames.sublist hothers⟩⟩
    · exact fun hmem => (List.mem_cons.mp hmem).elim (by decide) hid
    · exact fun hmem => hversion (hothers.subset hmem)
  exact Properties.foldl_insert_of_nodup hnodup

theorem addStamp_of_mem {ps : Properties} (h : name ∈ ps.names) :
    addStamp ps name = .error (.reservedField name) :=
  if_pos (Properties.contains_iff.mpr h)

theorem addStamp_of_notMem {ps : Properties} (h : name ∉ ps.names) :
    addStamp ps name = .ok (ps ++ [(name, .bson .date)]) := by
  have hnew : ps.contains name = false := Bool.eq_false_iff.mpr (mt Properties.contains_iff.mp h)
  exact addStamp_eq_ok_iff.mpr ⟨hnew, (Properties.insert_of_notMem h _).symm⟩

theorem isTaken_iff : IsTaken fs name ↔ name ∈ (declaredProperties fs).names :=
  mem_names_iff.symm

/-- Timestamps are put behind the properties, or the first whose name is taken is refused. -/
theorem addStamps_cases (fs : Fields) (settings : Settings) :
    (∃ name, Refuses fs settings name ∧ addStamps (declaredProperties fs) settings.timestamps.names?
      = .error (.reservedField name)) ∨
    (∀ name, ¬ Refuses fs settings name) ∧
      addStamps (declaredProperties fs) settings.timestamps.names? = .ok (declaredProperties fs ++
        (stampNames settings.timestamps.names?).map fun name => (name, .bson .date)) := by
  cases hstamps : settings.timestamps.names? with
  | none =>
      refine .inr ⟨fun name h => ?_, by simp [addStamps, stampNames]⟩
      cases h with
      | created h => cases hstamps.symm.trans h
      | updated h => cases hstamps.symm.trans h
  | some stamps =>
      by_cases hcreated : IsTaken fs stamps.created
      · exact .inl ⟨_, .created hstamps hcreated, by
          rw [addStamps, addStamp_of_mem (isTaken_iff.mp hcreated)]
          rfl⟩
      have hfirst := addStamp_of_notMem (mt isTaken_iff.mpr hcreated)
      have hnames : Properties.names (declaredProperties fs ++ [(stamps.created, .bson .date)])
          = (declaredProperties fs).names ++ [stamps.created] := List.map_append
      by_cases hupdated : IsTaken fs stamps.updated ∨ stamps.updated = stamps.created
      · refine .inl ⟨_, .updated hstamps hcreated hupdated, ?_⟩
        have hmem : stamps.updated ∈ (declaredProperties fs).names ++ [stamps.created] := by
          simpa [← isTaken_iff] using hupdated
        rw [addStamps, hfirst]
        exact addStamp_of_mem (hnames ▸ hmem)
      · refine .inr ⟨fun name h => ?_, ?_⟩
        · cases h with
          | created h h' =>
              obtain rfl := Option.some.inj (hstamps.symm.trans h)
              exact hcreated h'
          | updated h _ h' =>
              obtain rfl := Option.some.inj (hstamps.symm.trans h)
              exact hupdated h'
        · have hnot : stamps.updated ∉ (declaredProperties fs).names ++ [stamps.created] := by
            simpa [← isTaken_iff] using hupdated
          rw [addStamps, hfirst]
          refine (addStamp_of_notMem (hnames ▸ hnot)).trans ?_
          rw [List.append_assoc]
          rfl

/-! ### Defaults -/

/-- The first name of an ascending list that passes a test is the least that does. -/
theorem find?_eq_some_iff_of_pairwise {names : List String} (h : names.Pairwise (· < ·))
    {test : String → Bool} : names.find? test = some name ↔
      (name ∈ names ∧ test name = true) ∧ ∀ other ∈ names, test other = true → name ≤ other := by
  rw [List.find?_eq_some_iff_append]
  constructor
  · rintro ⟨hname, before, after, rfl, hbefore⟩
    refine ⟨⟨by simp, hname⟩, fun other hother htest => ?_⟩
    rcases List.mem_append.mp hother with hother | hother
    · have hnot := hbefore other hother
      simp [htest] at hnot
    · rcases List.mem_cons.mp hother with rfl | hother
      · exact String.le_refl _
      · have hlt := (List.pairwise_cons.mp (List.pairwise_append.mp h).2.1).1 other hother
        exact String.not_lt.mp fun hgt => String.lt_irrefl _ (String.lt_trans hlt hgt)
  · rintro ⟨⟨hmem, hname⟩, hleast⟩
    obtain ⟨before, after, rfl⟩ := List.append_of_mem hmem
    refine ⟨hname, before, after, rfl, fun other hother => ?_⟩
    have hlt := (List.pairwise_append.mp h).2.2 other hother name List.mem_cons_self
    rw [Bool.not_eq_true', Bool.eq_false_iff]
    exact fun htest => String.not_lt.mpr (hleast other (List.mem_append_left _ hother) htest) hlt

/-- The names that have a default ascend. -/
theorem pairwise_names (defaults : Defaults) : defaults.names.Pairwise (· < ·) := by
  have h := defaults.isCanonical
  rw [Json.isCanonical, Bool.and_eq_true] at h
  have hascending : defaults.members.Pairwise (·.1 < ·.1) := by
    simpa [Json.ascending, List.pairwise_map] using h.1
  exact List.pairwise_map.mpr hascending

/-- Every default is for a property, or the least that is for none is reported. -/
theorem checkDefaults_cases {ps : Properties} (hps : ps.names = layout fs settings) :
    (∃ name, LacksFirst fs settings name ∧
      checkDefaults ps settings.defaults = .error (.undeclaredDefault name)) ∨
    (∀ name, ¬ Lacks fs settings name) ∧ checkDefaults ps settings.defaults = .ok () := by
  have htest : ∀ n, (!ps.contains n) = true ↔ n ∉ layout fs settings := fun n => by
    rw [Bool.not_eq_true', ← Bool.not_eq_true, Properties.contains_iff, hps]
  unfold checkDefaults
  cases hdefaults : settings.defaults with
  | none =>
      refine .inr ⟨?_, rfl⟩
      rintro name ⟨defaults, hsome, -⟩
      nomatch hdefaults.symm.trans hsome
  | some defaults =>
      have hlacks : ∀ n, Lacks fs settings n ↔ n ∈ defaults.names ∧ n ∉ layout fs settings := by
        simp [Lacks, hdefaults]
      rw [Option.bind_some]
      cases hfind : defaults.names.find? (!ps.contains ·) with
      | none =>
          refine .inr ⟨fun name hname => ?_, rfl⟩
          obtain ⟨hmem, hnot⟩ := (hlacks name).mp hname
          exact List.find?_eq_none.mp hfind name hmem ((htest name).mpr hnot)
      | some name =>
          obtain ⟨⟨hmem, hname⟩, hleast⟩ :=
            (find?_eq_some_iff_of_pairwise (pairwise_names defaults)).mp hfind
          refine .inl ⟨name, ⟨(hlacks name).mpr ⟨hmem, (htest name).mp hname⟩, ?_⟩, rfl⟩
          intro other hother
          obtain ⟨hmem', hnot⟩ := (hlacks other).mp hother
          exact le_iff_toUTF8_le.mp (hleast other hmem' ((htest other).mpr hnot))

/-! ### Documents -/

/-- What the properties are called, with the timestamps behind them. -/
theorem names_declaredProperties (h : fs.Attached) (settings : Settings) :
    Properties.names (declaredProperties fs ++
      (stampNames settings.timestamps.names?).map fun name => (name, .bson .date))
      = layout fs settings := by
  simp [declaredProperties_eq h, Properties.names, layout, Fields.names, Function.comp_def]

/-- Identity comes first among the required fields unless it is declared and not required. -/
theorem declaredRequired_eq (h : fs.Attached) : declaredRequired fs
    = (if ∀ f ∈ fs, f.name = idField → f.required = true then [idField] else []) ++
      (others fs).required := by
  have hid : ((fs.get? idField).map Field.required).getD true = true ↔
      ∀ f ∈ fs, f.name = idField → f.required = true := by
    cases hget : fs.get? idField with
    | none =>
        have hnone := List.find?_eq_none.mp hget
        exact iff_of_true rfl fun f hf hname => absurd (decide_eq_true hname) (hnone f hf)
    | some g =>
        obtain ⟨hg, hmem⟩ : g.name = idField ∧ g ∈ fs :=
          ⟨by simpa using List.find?_some hget, List.mem_of_find?_eq_some hget⟩
        refine ⟨fun hrequired f hf hname => ?_, fun hall => hall g hmem hg⟩
        have hsame := Fields.get?_of_mem h.names.1 hf
        rw [hname, hget] at hsame
        exact Option.some.inj hsame ▸ hrequired
  rw [declaredRequired]
  congr 1
  exact if_congr hid rfl rfl

/-- What fields compile to if nothing is in the way. -/
theorem laidOut (h : fs.Attached) (settings : Settings) : LaidOut fs settings {
    type := .object
    properties := declaredProperties fs ++
      (stampNames settings.timestamps.names?).map fun name => (name, .bson .date)
    required := declaredRequired fs ++ stampNames settings.timestamps.names?
    additionalProperties := false
    action := settings.action
    level := settings.level
    defaults := settings.defaults } where
  names := names_declaredProperties h settings
  declared f hf := by
    rw [declaredProperties_eq h]
    by_cases hid : f.name = idField
    · have hget : fs.get? idField = some f := hid ▸ Fields.get?_of_mem h.names.1 hf
      simp [hget, hid]
    · refine List.mem_append_left _ (List.mem_cons_of_mem _ (List.mem_cons_of_mem _ ?_))
      have hother : f ∈ others fs := List.mem_filter.mpr ⟨hf, by simpa using hid⟩
      exact List.mem_map_of_mem hother
  identity hid := by
    have hget : fs.get? idField = none := by
      cases hget : fs.get? idField with
      | none => rfl
      | some g =>
          refine absurd (Fields.contains_iff.mp ?_) hid
          rw [Fields.contains, hget]
          rfl
    simp [declaredProperties_eq h, hget]
  version := by simp [declaredProperties_eq h]
  stamps name hname := List.mem_append_right _ (List.mem_map.mpr ⟨name, hname, rfl⟩)
  required := congrArg (· ++ _) (declaredRequired_eq h)
  closed := ⟨rfl, rfl⟩
  settings := ⟨rfl, rfl, rfl⟩

/-- Fields compile, or the first thing in the way is reported: a timestamp before any default. -/
theorem compile_cases (h : fs.Attached) (settings : Settings) :
    (∃ name, Refuses fs settings name ∧
      compile fs settings = .error (.reservedField name)) ∨
    (∀ name, ¬ Refuses fs settings name) ∧
      ((∃ name, LacksFirst fs settings name ∧
        compile fs settings = .error (.undeclaredDefault name)) ∨
      (∀ name, ¬ Lacks fs settings name) ∧
        ∃ d, compile fs settings = .ok d ∧ LaidOut fs settings d) := by
  rcases addStamps_cases fs settings with ⟨name, hname, hstamps⟩ | ⟨hnone, hstamps⟩
  · exact .inl ⟨name, hname, by rw [compile, hstamps]; rfl⟩
  refine .inr ⟨hnone, ?_⟩
  rcases checkDefaults_cases (names_declaredProperties h settings) with
    ⟨name, hname, hdefaults⟩ | ⟨hall, hdefaults⟩
  · exact .inl ⟨name, hname, by simp only [compile, hstamps, bind, Except.bind, hdefaults]⟩
  · refine .inr ⟨hall, _, ?_, laidOut h settings⟩
    simp only [compile, hstamps, bind, Except.bind, hdefaults]
    rfl

theorem Refuses.unique {other : String} (h : Refuses fs settings name)
    (h' : Refuses fs settings other) : name = other := by
  cases h with
  | created hstamps hcreated =>
      cases h' with
      | created hstamps' => rw [Option.some.inj (hstamps.symm.trans hstamps')]
      | updated hstamps' hnot =>
          obtain rfl := Option.some.inj (hstamps.symm.trans hstamps')
          exact absurd hcreated hnot
  | updated hstamps hnot =>
      cases h' with
      | created hstamps' hcreated =>
          obtain rfl := Option.some.inj (hstamps.symm.trans hstamps')
          exact absurd hcreated hnot
      | updated hstamps' => rw [Option.some.inj (hstamps.symm.trans hstamps')]

theorem LacksFirst.unique {other : String} (h : LacksFirst fs settings name)
    (h' : LacksFirst fs settings other) : name = other :=
  String.le_antisymm (le_iff_toUTF8_le.mpr (h.2 other h'.1)) (le_iff_toUTF8_le.mpr (h'.2 name h.1))

/-- **What fields and settings compile to.**  A timestamp is refused just where its name is taken,
the one of creation before the one of updates.  If none is and some name has a default and no
property, the least of these names in the order of their bytes is reported.  If there is none the
fields compile, to the document that has all of them in order. -/
theorem compile_exact (h : fs.Attached) (settings : Settings) :
    (∀ name, compile fs settings = .error (.reservedField name) ↔ Refuses fs settings name) ∧
    ((∃ name, compile fs settings = .error (.undeclaredDefault name)) ↔
      (∀ name, ¬ Refuses fs settings name) ∧ ∃ name, Lacks fs settings name) ∧
    (∀ name, compile fs settings = .error (.undeclaredDefault name) →
      LacksFirst fs settings name) ∧
    ((∃ d, compile fs settings = .ok d) ↔
      (∀ name, ¬ Refuses fs settings name) ∧ ∀ name, ¬ Lacks fs settings name) ∧
    ∀ d, compile fs settings = .ok d → LaidOut fs settings d := by
  rcases compile_cases h settings with
    ⟨first, hfirst, heq⟩ | ⟨hnone, ⟨first, hfirst, heq⟩ | ⟨hall, d, heq, hd⟩⟩
  · refine ⟨fun name => ⟨?_, fun hname => hfirst.unique hname ▸ heq⟩, ?_, ?_, ?_, ?_⟩ <;> rw [heq]
    · rintro ⟨⟩
      exact hfirst
    · exact iff_of_false nofun fun hfree => hfree.1 first hfirst
    · exact nofun
    · exact iff_of_false nofun fun hfree => hfree.1 first hfirst
    · exact nofun
  · refine ⟨fun name => ?_, ?_, fun name => ?_, ?_, ?_⟩ <;> rw [heq]
    · exact iff_of_false nofun (hnone name)
    · exact iff_of_true ⟨first, rfl⟩ ⟨hnone, first, hfirst.1⟩
    · rintro ⟨⟩
      exact hfirst
    · exact iff_of_false nofun fun hfree => hfree.2 first hfirst.1
    · exact nofun
  · refine ⟨fun name => ?_, ?_, fun name => ?_, ?_, ?_⟩ <;> rw [heq]
    · exact iff_of_false nofun (hnone name)
    · exact iff_of_false nofun fun ⟨_, name, hname⟩ => hall name hname
    · exact nofun
    · exact iff_of_true ⟨d, rfl⟩ ⟨hnone, hall⟩
    · rintro _ ⟨⟩
      exact hd

/-- A title that is required, and behind it an identity of its own that is not. -/
def titled : Fields := [⟨"title", .typed .string, true⟩, ⟨idField, .typed .number, false⟩]

theorem attached_titled : titled.Attached := by
  have htitle : Fields.attach (fun _ => .missing) [] "title" none ⟨some .anyString, true⟩
      = .ok [⟨"title", .typed .string, true⟩] := rfl
  have hid : Fields.attach (fun _ => .missing) [⟨"title", .typed .string, true⟩] idField none
      ⟨some .anyNumber, false⟩ = .ok titled := rfl
  exact .attach (.attach .nil htitle) hid

/-- A default may be for a timestamp; a timestamp may not have the name of a field. -/
theorem compile_exact_titled :
    (∃ d, compile titled {
        timestamps := .named ⟨"made", "changed"⟩
        defaults := some (Defaults.empty.insert "made" ⟨.string "now", rfl⟩) } = .ok d ∧
      d.properties.names = ["_id", "__v", "title", "made", "changed"] ∧
      d.required = ["title", "made", "changed"]) ∧
    compile titled { timestamps := .named ⟨"made", "title"⟩ }
      = .error (.reservedField "title") := by
  obtain ⟨-, -, -, -, hlaidOut⟩ := compile_exact attached_titled {
    timestamps := .named ⟨"made", "changed"⟩
    defaults := some (Defaults.empty.insert "made" ⟨.string "now", rfl⟩) }
  obtain ⟨hrefuses, -⟩ := compile_exact attached_titled { timestamps := .named ⟨"made", "title"⟩ }
  refine ⟨⟨_, rfl, (hlaidOut _ rfl).names, (hlaidOut _ rfl).required⟩, ?_⟩
  have htitle : IsTaken titled "title" := .inr (.inr List.mem_cons_self)
  have hmade : ¬ IsTaken titled "made" := by
    simp [IsTaken, titled, idField, versionField, Fields.names]
  exact (hrefuses _).mpr (@Refuses.updated _ _ ⟨"made", "title"⟩ rfl hmade (.inl htitle))

end Document

end Schemata

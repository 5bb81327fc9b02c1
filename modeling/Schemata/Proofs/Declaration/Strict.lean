import Schemata.Proofs.Declaration.Described
import Schemata.Proofs.Json.Content

/-!
# Schemata — Proofs — Declaration — Strict

Reading declarations loses nothing.  A value with a key that is not defined, or with a key that is
given twice, is not read, however deep in the value the key is (`Layout.keyed_of_rewrite?`); and in
what is written again every key that was given has the content that it had, but for those that were
null, and only keys with a default are new (`Layout.kept_of_rewrite?`).  Both are shown of the table
of layouts, a level at a time, and hold of all declarations (`Declaration.reading_strict`).
-/

namespace Schemata

/-! ### Names -/

theorem Json.name?_string (room : Nat) (s : String) : name? room (.string s) = some s := by
  cases room <;> rfl

theorem HostType.name_of_read? {room : Nat} {s : String} {t : HostType}
    (h : read? room (.string s) = some t) : t.name = s := by
  rw [read?, Json.name?_string, Option.bind_some] at h
  unfold ofName? at h
  split at h <;> cases h <;> rfl

theorem ValidationAction.name_of_read? {room : Nat} {s : String} {a : ValidationAction}
    (h : read? room (.string s) = some a) : a.name = s := by
  rw [read?, Json.name?_string, Option.bind_some] at h
  unfold ofName? at h
  split at h <;> cases h <;> rfl

theorem ValidationLevel.name_of_read? {room : Nat} {s : String} {l : ValidationLevel}
    (h : read? room (.string s) = some l) : l.name = s := by
  rw [read?, Json.name?_string, Option.bind_some] at h
  unfold ofName? at h
  split at h <;> cases h <;> rfl

namespace Layout

/-! ### Levels -/

/-- A value one level further in, with its layout. -/
inductive Child : Layout → Json → Layout → Json → Prop where
  | item {layout : Layout} {items : List Json} {j : Json} (hj : j ∈ items) :
      Child (.list layout) (.array items) layout j
  | member {r : Record} {members : List (String × Json)} {entries : List Entry} {e : Entry}
      {j : Json} (hentries : r.entries? (.object members) = some entries) (he : e ∈ entries)
      (hj : (e.key, j) ∈ members) (hvalue : e.Holds j) :
      Child (.record r) (.object members) e.layout j
  | place {r : Record} {items : List Json} {entries : List Entry} {e : Entry} {j : Json}
      (hentries : r.entries? (.array items) = some entries) (hj : (e, j) ∈ entries.zip items)
      (hvalue : e.Holds j) : Child (.record r) (.array items) e.layout j
  | unflagged {r : Record} {j : Json} (hj : ∀ on, j ≠ .bool on) :
      Child (.flagOr r) j (.record r) j

/-- The values in a value at any depth, itself included, each with its layout. -/
inductive Within : Layout → Json → Layout → Json → Prop where
  | self (layout : Layout) (j : Json) : Within layout j layout j
  | child {layout layout' layout'' : Layout} {j j' j'' : Json} (hj : Child layout j layout' j')
      (hwithin : Within layout' j' layout'' j'') : Within layout j layout'' j''

/-- Every key is defined and given once. -/
def Record.Sound (r : Record) (members : List (String × Json)) : Prop :=
  (members.map Prod.fst).Nodup ∧ ∃ entries, r.entries? (.object members) = some entries ∧
    ∀ m ∈ members, m.1 ∈ entries.map Entry.key

/-- At every level, every key is defined and given once. -/
def Keyed (layout : Layout) (j : Json) : Prop :=
  ∀ r members, Within layout j (.record r) (.object members) → r.Sound members

/-- What is read as a name. -/
def Leaf.IsName : Leaf → Prop
  | .tag _ | .hostType | .action | .level => True
  | .text | .flag | .count | .number | .values | .defaults => False

/-- Records are spelled as objects and names as strings. -/
def Spelled : Layout → Json → Prop
  | .record _, j => ∃ members, j = .object members
  | .leaf l, j   => l.IsName → ∃ s, j = .string s
  | .list _, _   => True
  | .flagOr _, _ => True

/-- So are all of them, at every level. -/
def Plain (layout : Layout) (j : Json) : Prop :=
  ∀ layout' j', Within layout j layout' j' → layout'.Spelled j'

/-- What is written keeps what was given, level by level.  Of a record the keys that are not written
were null, those that are written have the content that they had, and those that are new have a
default. -/
inductive Kept : Layout → Json → Json → Prop where
  | leaf {l : Leaf} {j j' : Json} (same : Json.Same j j') : Kept (.leaf l) j j'
  | list {layout : Layout} {items items' : List Json} (length : items.length = items'.length)
      (item : ∀ p ∈ items.zip items', Kept layout p.1 p.2) :
      Kept (.list layout) (.array items) (.array items')
  | flag {r : Record} {on : Bool} : Kept (.flagOr r) (.bool on) (.bool on)
  | unflagged {r : Record} {j j' : Json} (kept : Kept (.record r) j j') : Kept (.flagOr r) j j'
  | record {r : Record} {members members' : List (String × Json)} {entries : List Entry}
      (hentries : r.entries? (.object members) = some entries)
      (once : (members'.map Prod.fst).Nodup)
      (omitted : ∀ m ∈ members, m.1 ∉ members'.map Prod.fst →
        m.2 = .null ∧ ∃ e ∈ entries, e.key = m.1 ∧ e.presence = .optional)
      (content : ∀ e ∈ entries, ∀ v v', (e.key, v) ∈ members → (e.key, v') ∈ members' →
        Kept e.layout v v')
      (added : ∀ m ∈ members', m.1 ∉ members.map Prod.fst →
        ∃ e ∈ entries, e.key = m.1 ∧ e.presence = .byDefault m.2) :
      Kept (.record r) (.object members) (.object members')

/-! ### Keys -/

variable {room : Nat} {layout layout' : Layout} {j j' k : Json}

/-- What is in a value that is rewritten is rewritten in its own layout. -/
theorem Child.rewritten (h : Child layout j layout' j') (hj : rewrite? room layout j = some k) :
    ∃ room' k', rewrite? room' layout' j' = some k' := by
  cases h with
  | item hmem =>
      cases room with
      | zero => cases hj
      | succ inner =>
          obtain ⟨items, hitems, -⟩ := Option.map_eq_some_iff.mp hj
          obtain ⟨k', -, hk⟩ := Json.exists_of_mem_mapM hitems hmem
          exact ⟨inner, k', hk⟩
  | member hentries he hmem hvalue =>
      obtain ⟨inner, rfl, entries, slots, row, hentries', hslots, hrow, rfl⟩ :=
        rewrite?_record_cases hj
      obtain rfl := Option.some.inj (hentries.symm.trans hentries')
      obtain ⟨slot', hslot', -⟩ := exists_row_of_member hslots hrow he hmem
      obtain ⟨k', -, hk⟩ := hvalue.rewritten hslot'
      exact ⟨inner, k', hk⟩
  | place hentries hmem hvalue =>
      obtain ⟨inner, rfl, entries, slots, row, hentries', hslots, hrow, rfl⟩ :=
        rewrite?_record_cases hj
      obtain rfl := Option.some.inj (hentries.symm.trans hentries')
      rw [Json.record?] at hslots
      split at hslots
      · obtain rfl := Option.some.inj hslots
        obtain ⟨slot', hslot', -⟩ := exists_row hrow (mem_zip_append hmem _)
        obtain ⟨k', -, hk⟩ := hvalue.rewritten hslot'
        exact ⟨inner, k', hk⟩
      · cases hslots
  | unflagged hbool => exact ⟨room, k, (rewrite?_flagOr hbool).symm.trans hj⟩

theorem Record.sound_of_rewrite? {r : Record} {members : List (String × Json)}
    (h : Layout.rewrite? room (.record r) (.object members) = some k) : r.Sound members := by
  obtain ⟨inner, -, entries, slots, -, hentries, hslots, -, -⟩ := rewrite?_record_cases h
  obtain ⟨honce, hdefined, -⟩ := Json.record?_object hslots
  exact ⟨honce, entries, hentries, hdefined⟩

/-- **What is read has sound keys at every level.** -/
theorem keyed_of_rewrite? (h : rewrite? room layout j = some k) : Keyed layout j := by
  intro r members hwithin
  generalize hlayout : Layout.record r = layout', hmembers : Json.object members = j' at hwithin
  induction hwithin generalizing room k with
  | self =>
      subst hlayout hmembers
      exact Record.sound_of_rewrite? h
  | child hchild _ ih =>
      obtain ⟨room', k', h'⟩ := hchild.rewritten h
      exact ih h' hlayout hmembers

/-! ### Content -/

theorem Plain.child (h : Plain layout j) (hchild : Child layout j layout' j') : Plain layout' j' :=
  fun layout'' j'' hwithin => h layout'' j'' (.child hchild hwithin)

/-- A leaf keeps its content. -/
theorem Leaf.same_of_rewrite? {l : Leaf} (h : l.rewrite? room j = some k)
    (hplain : Spelled (.leaf l) j) : Json.Same j k := by
  cases l with
  | text =>
      cases j <;> cases h
      exact .refl _
  | flag =>
      cases j <;> cases h
      exact .refl _
  | number =>
      cases j <;> cases h
      exact .refl _
  | count =>
      obtain ⟨n, hn, rfl⟩ := Option.map_eq_some_iff.mp h
      rw [Json.count_of_count? hn]
      exact .refl _
  | tag nested =>
      obtain ⟨s, rfl⟩ := hplain trivial
      cases h
      exact .refl _
  | hostType =>
      obtain ⟨s, rfl⟩ := hplain trivial
      obtain ⟨t, ht, rfl⟩ := Option.map_eq_some_iff.mp h
      rw [HostType.toJson, HostType.name_of_read? ht]
      exact .refl _
  | action =>
      obtain ⟨s, rfl⟩ := hplain trivial
      obtain ⟨a, ha, rfl⟩ := Option.map_eq_some_iff.mp h
      rw [ValidationAction.toJson, ValidationAction.name_of_read? ha]
      exact .refl _
  | level =>
      obtain ⟨s, rfl⟩ := hplain trivial
      obtain ⟨v, hv, rfl⟩ := Option.map_eq_some_iff.mp h
      rw [ValidationLevel.toJson, ValidationLevel.name_of_read? hv]
      exact .refl _
  | values =>
      obtain ⟨vs, hvs, rfl⟩ := Option.map_eq_some_iff.mp h
      exact Json.same_of_values? hvs
  | defaults =>
      obtain ⟨d, hd, rfl⟩ := Option.map_eq_some_iff.mp h
      exact Json.same_of_defaults? hd

/-- A record keeps what was given if what is in it does. -/
theorem kept_record {inner : Nat}
    (ih : ∀ {layout j k}, rewrite? inner layout j = some k → Plain layout j → Kept layout j k)
    {r : Record} (h : rewrite? (inner + 1) (.record r) j = some k) (hplain : Plain (.record r) j) :
    Kept (.record r) j k := by
  obtain ⟨members, rfl⟩ := hplain _ _ (.self _ _)
  obtain ⟨_, hroom, entries, slots, row, hentries, hslots, hrow, rfl⟩ := rewrite?_record_cases h
  obtain rfl := Nat.succ.inj hroom
  obtain ⟨-, hdefined, -⟩ := Json.record?_object hslots
  obtain ⟨members', hwritten⟩ : ∃ members', written row = .object members' := ⟨_, rfl⟩
  have hfst := map_fst_row hrow ((Json.length_record? hslots).trans (List.length_map _))
  have hkeys : (row.map fun p => p.1.key).Nodup := by
    have hnodup := Record.nodup_entries hentries
    rwa [← hfst, List.map_map] at hnodup
  rw [hwritten]
  refine .record hentries (nodup_written hwritten hkeys) (fun m hm hout => ?_)
    (fun e he v v' hv hv' => ?_) (fun m hm hnew => ?_)
  · -- a key that is not written is the null of a setting
    obtain ⟨e, he, hkey⟩ := List.mem_map.mp (hdefined m hm)
    obtain ⟨slot, hrewrite, hmem⟩ :=
      exists_row_of_member hslots hrow he (hkey ▸ hm : (e.key, m.2) ∈ members)
    rcases Entry.rewrite?_some hrewrite with ⟨hp, hnull, -⟩ | ⟨-, j', rfl, -⟩
    · exact ⟨hnull, e, he, hkey, hp⟩
    · have hin : (m.1, j') ∈ members' := (mem_written hwritten).mpr ⟨e, hmem, hkey⟩
      exact absurd (List.mem_map_of_mem hin) hout
  · -- what is written under a key is what was given under it, as the row has each key once
    obtain ⟨slot, hrewrite, hmem⟩ := exists_row_of_member hslots hrow he hv
    obtain ⟨e', hmem', hkey⟩ := (mem_written hwritten).mp hv'
    obtain ⟨rfl, rfl⟩ := Prod.mk.inj (List.inj_on_of_nodup_map hkeys hmem hmem' hkey.symm)
    rcases Entry.rewrite?_some hrewrite with ⟨-, -, hnone⟩ | ⟨hvalue, j', hsome, hj'⟩
    · cases hnone
    · obtain rfl := Option.some.inj hsome
      exact ih hj' (hplain.child (.member hentries he hv hvalue))
  · -- a key that is new has an empty slot
    obtain ⟨e, hmem, hkey⟩ := (mem_written hwritten).mp hm
    obtain ⟨slot, hzip, hrewrite⟩ := mem_row hrow hmem
    rw [zip_slots hslots] at hzip
    obtain ⟨e, he, hp⟩ := List.mem_map.mp hzip
    obtain ⟨rfl, rfl⟩ := Prod.mk.inj hp
    rw [Json.valuesOf_eq_nil.mpr (hkey ▸ hnew)] at hrewrite
    exact ⟨e, he, hkey, Entry.rewrite?_none hrewrite⟩

theorem kept_flagOr {r : Record} (h : rewrite? room (.flagOr r) j = some k)
    (hplain : Plain (.flagOr r) j)
    (hrecord : rewrite? room (.record r) j = some k → Plain (.record r) j → Kept (.record r) j k) :
    Kept (.flagOr r) j k := by
  rcases rewrite?_flagOr_cases h with ⟨on, rfl, rfl⟩ | ⟨hj, h⟩
  · exact .flag
  · exact .unflagged (hrecord h (hplain.child (.unflagged hj)))

/-- **What is written keeps what was given.** -/
theorem kept_of_rewrite? (h : rewrite? room layout j = some k) (hplain : Plain layout j) :
    Kept layout j k := by
  induction room generalizing layout j k with
  | zero =>
      cases layout with
      | leaf l => exact .leaf (Leaf.same_of_rewrite? h (hplain _ _ (.self _ _)))
      | list item => cases h
      | record r => cases h
      | flagOr r => exact kept_flagOr h hplain fun h _ => nomatch h
  | succ inner ih =>
      cases layout with
      | leaf l => exact .leaf (Leaf.same_of_rewrite? h (hplain _ _ (.self _ _)))
      | list item =>
          cases j with
          | array items =>
              obtain ⟨items', hitems, rfl⟩ := Option.map_eq_some_iff.mp h
              have hall := Json.forall₂_of_mapM hitems
              refine .list hall.length_eq fun p hp => ?_
              exact ih (List.forall₂_zip hall hp)
                (hplain.child (.item (List.of_mem_zip hp).1))
          | null | bool _ | number _ | string _ | object _ | unreadable => cases h
      | record r => exact kept_record ih h hplain
      | flagOr r => exact kept_flagOr h hplain fun h hplain => kept_record ih h hplain

/-- Whatever is read has sound keys, and whatever is read from plain JSON is written with all of
it. -/
structure Strict {α : Type} (layout : Layout) (read : Nat → Json → Option α) (write : α → Json) :
    Prop where
  keyed : ∀ {room j a}, read room j = some a → layout.Keyed j
  kept : ∀ {room j a}, read room j = some a → layout.Plain j → layout.Kept j (write a)

/-- A type that is laid out by the table is read strictly. -/
theorem Describes.strict {α : Type} {layout : Layout} {read : Nat → Json → Option α}
    {write : α → Json} (h : Describes layout read write) : Strict layout read write where
  keyed {room j _} ha := keyed_of_rewrite? ((h room j).trans (congrArg (Option.map write) ha))
  kept {room j _} ha := kept_of_rewrite? ((h room j).trans (congrArg (Option.map write) ha))

end Layout

namespace Declaration

/-- **Reading loses nothing.**  A kind, the options of a field, a field, an object, the settings of
a model and a model are read only if at every level each key is defined and given once; and if
records are spelled as objects and names as strings, what is written again has every key that was
given with the content that it had, but for nulls of optional settings, and no others but those with
a default.  A file with a key that is not defined or given twice, at any level, is not read. -/
theorem reading_strict :
    Layout.Strict (.record (.kind false)) Kind.read? Kind.toJson ∧
    Layout.Strict (.record .options) FieldOptions.read? FieldOptions.toJson ∧
    Layout.Strict (.record .field) Field.read? Field.toJson ∧
    Layout.Strict (.record .object) Object.read? Object.toJson ∧
    Layout.Strict (.record .settings) Settings.read? Settings.toJson ∧
    Layout.Strict (.record .model) Model.read? Model.toJson ∧
    ∀ room j, ¬ Layout.Keyed (.record .file) j → File.read? room j = none := by
  refine ⟨Layout.describes_kind.strict, Layout.describes_options.strict,
    Layout.describes_field.strict, Layout.describes_object.strict,
    Layout.describes_settings.strict, Layout.describes_model.strict, fun room j hkeys => ?_⟩
  rw [Option.eq_none_iff_forall_ne_some]
  exact fun file hfile => hkeys (Layout.describes_file.strict.keyed hfile)

/-- A file that misspells a key of the kind of an item of a field. -/
def misspelt : Json :=
  .object [("model", .object [("name", .string "shop"), ("fields", .array [
    .object [("name", .string "tags"), ("type", .object [("kind", .string "array"),
      ("item", .object [("kind", .string "string"), ("minLenght", .count 3)])])]])])]

/-- The file is not read in any room, and options with a null are written without it. -/
theorem reading_strict_misspelt :
    (∀ room, File.read? room misspelt = none) ∧
    Layout.Kept (.record .options) (.object [("type", .null), ("required", .bool true)])
      (.object [("required", .bool true)]) := by
  refine ⟨fun room => reading_strict.2.2.2.2.2.2 room misspelt fun hkeys => ?_, ?_⟩
  · have hitem : Layout.Within (.record .file) misspelt (.record (.kind true))
        (.object [("kind", .string "string"), ("minLenght", .count 3)]) :=
      .child (.member rfl (.tail _ (.head _)) (.head _) nofun) <|
      .child (.member rfl (.tail _ (.head _)) (.tail _ (.head _)) nofun) <|
      .child (.item (.head _)) <|
      .child (.member rfl (.tail _ (.tail _ (.head _))) (.tail _ (.head _)) nofun) <|
      .child (.member rfl (.tail _ (.head _)) (.tail _ (.head _)) nofun) <|
      .self _ _
    obtain ⟨-, entries, hentries, hdefined⟩ := hkeys _ _ hitem
    cases hentries
    exact absurd (hdefined ("minLenght", .count 3) (by simp)) (by decide)
  · have hplain : Layout.Plain (.record .options)
        (.object [("type", .null), ("required", .bool true)]) := by
      intro layout j hwithin
      cases hwithin with
      | self => exact ⟨_, rfl⟩
      | child hchild hrest =>
          cases hchild with
          | member hentries he hj hvalue =>
              obtain rfl := Option.some.inj hentries
              rcases List.mem_pair.mp he with rfl | rfl
              · exact absurd (by simpa using hj) (hvalue rfl)
              · cases hrest with
                | self => exact nofun
                | child hleaf _ => cases hleaf
    have hread : FieldOptions.read? 1 (.object [("type", .null), ("required", .bool true)])
        = some ⟨none, true⟩ := rfl
    exact reading_strict.2.1.kept hread hplain

end Declaration

end Schemata

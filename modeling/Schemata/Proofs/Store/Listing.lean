import Schemata.Proofs.Store.Reading
import Schemata.Proofs.Text.Bytes

/-!
# Schemata — Proofs — Store — Listing

The listing of a store against the lookup of each of its names, whatever the rows hold
(`Store.list_agrees`).  A row is read as what its columns hold, and where some hold nothing the
first of them is its fault (`Row.read_cases`); the rows are in the order of their names' bytes, so
the listing fails as the first of the names that cannot be read, and a name before or behind it is
still looked up.
-/

namespace Schemata

/-! ### The columns of a row -/

/-- A cell keeps a text of which a value is read. -/
def Cell.Holds {α : Type} (cell : Cell) (parse : String → Option α) (a : α) : Prop :=
  ∃ text, cell = .text text ∧ parse text = some a

theorem Cell.Holds.unique {α : Type} {cell : Cell} {parse : String → Option α} {a b : α}
    (h : cell.Holds parse a) (h' : cell.Holds parse b) : a = b := by
  obtain ⟨text, rfl, htext⟩ := h
  obtain ⟨_, ⟨⟩, htext'⟩ := h'
  exact Option.some.inj (htext.symm.trans htext')

namespace Row

/-- The fault of a column that holds no value. -/
def unread {α : Type} (position : Nat) : Option α → List StoreFault
  | some _ => []
  | none   => [.unreadable position]

/-- The fault of a column that should keep a text of which a value is read. -/
def unparsed {α : Type} (position : Nat) (parse : String → Option α) : Cell → List StoreFault
  | .text text => unread position (parse text)
  | .other     => [.mistyped position]

/-- What is wrong with the columns of a row, in the order in which they are read. -/
def faults (r : Row) : List StoreFault :=
  unparsed 1 Document.ofText? r.document ++
  unread 2 (ValidationAction.ofName? r.action) ++ unread 3 (ValidationLevel.ofName? r.level) ++
  (match r.revision with
    | .inexact => [.mistyped 4]
    | .count _ => []) ++
  unparsed 5 Instant.ofText? r.createdAt ++ unparsed 6 Instant.ofText? r.updatedAt

/-- Each column of a row holds what is read of it. -/
structure Holds (r : Row) (m : StoredModel) : Prop where
  document : r.document.Holds Document.ofText? m.document
  action : ValidationAction.ofName? r.action = some m.action
  level : ValidationLevel.ofName? r.level = some m.level
  revision : r.revision = .count m.revision
  createdAt : r.createdAt.Holds Instant.ofText? m.createdAt
  updatedAt : r.updatedAt.Holds Instant.ofText? m.updatedAt

variable {r : Row} {name : String} {m : StoredModel} {fault : StoreFault}

/-- A column is read as the value of its text, or has one fault. -/
theorem parsed_cases {α : Type} (position : Nat) (parse : String → Option α) (cell : Cell) :
    (∃ fault, unparsed position parse cell = [fault] ∧ parsed position parse cell = .error fault) ∨
      ∃ a, unparsed position parse cell = [] ∧ cell.Holds parse a ∧
        parsed position parse cell = .ok a := by
  cases cell with
  | other => exact .inl ⟨.mistyped position, rfl, rfl⟩
  | text text =>
      rw [parsed, unparsed]
      cases hparse : parse text with
      | none => exact .inl ⟨.unreadable position, rfl, rfl⟩
      | some a => exact .inr ⟨a, rfl, ⟨text, rfl, hparse⟩, rfl⟩

/-- A column that holds a value has no fault. -/
theorem unparsed_of_holds {α : Type} {position : Nat} {parse : String → Option α} {cell : Cell}
    {a : α} (h : cell.Holds parse a) : unparsed position parse cell = [] := by
  obtain ⟨text, rfl, htext⟩ := h
  rw [unparsed, htext, unread]

/-- A row is read as what its columns hold; where one holds nothing, the first such is the fault. -/
theorem read_cases (name : String) (r : Row) :
    (∃ fault, r.faults.head? = some fault ∧ r.read name = .error fault) ∨
      ∃ m, r.faults = [] ∧ m.name = name ∧ r.Holds m ∧ r.read name = .ok m := by
  obtain ⟨document, action, level, revision, createdAt, updatedAt⟩ := r
  simp only [read, faults, bind, Except.bind]
  rcases parsed_cases 1 Document.ofText? document with ⟨fault, hfault, hread⟩ |
    ⟨document', hfault, hdocument, hread⟩ <;> simp only [hfault, hread]
  · exact .inl ⟨fault, rfl, rfl⟩
  rcases haction : ValidationAction.ofName? action with _ | action'
  · exact .inl ⟨.unreadable 2, rfl, rfl⟩
  rcases hlevel : ValidationLevel.ofName? level with _ | level'
  · exact .inl ⟨.unreadable 3, rfl, rfl⟩
  rcases revision with n | _
  swap
  · exact .inl ⟨.mistyped 4, rfl, rfl⟩
  rcases parsed_cases 5 Instant.ofText? createdAt with ⟨fault, hfault, hread⟩ |
    ⟨createdAt', hfault, hcreated, hread⟩ <;> simp only [hfault, hread]
  · exact .inl ⟨fault, rfl, rfl⟩
  rcases parsed_cases 6 Instant.ofText? updatedAt with ⟨fault, hfault, hread⟩ |
    ⟨updatedAt', hfault, hupdated, hread⟩ <;> simp only [hfault, hread]
  · exact .inl ⟨fault, rfl, rfl⟩
  exact .inr ⟨⟨name, document', action', level', n, createdAt', updatedAt'⟩, rfl, rfl,
    ⟨hdocument, haction, hlevel, rfl, hcreated, hupdated⟩, rfl⟩

/-- Columns hold one model under a name at most. -/
theorem Holds.unique {m' : StoredModel} (h : r.Holds m) (h' : r.Holds m')
    (hname : m.name = m'.name) : m = m' := by
  have hdocument := h.document.unique h'.document
  have haction := Option.some.inj (h.action.symm.trans h'.action)
  have hlevel := Option.some.inj (h.level.symm.trans h'.level)
  have hrevision := Revision.count.inj (h.revision.symm.trans h'.revision)
  have hcreated := h.createdAt.unique h'.createdAt
  have hupdated := h.updatedAt.unique h'.updatedAt
  cases m
  cases m'
  simp_all

/-- No column of a row that holds a model has a fault. -/
theorem Holds.faults_eq_nil (h : r.Holds m) : r.faults = [] := by
  simp [faults, unparsed_of_holds h.document, unparsed_of_holds h.createdAt,
    unparsed_of_holds h.updatedAt, h.action, h.level, h.revision, unread]

/-- A row that holds a model has no other fault than a level that there is not. -/
theorem Holds.faults_of_level (h : r.Holds m) {level : String}
    (hlevel : ValidationLevel.ofName? level = none) :
    ({ r with level } : Row).faults = [.unreadable 3] := by
  simp [faults, unparsed_of_holds h.document, unparsed_of_holds h.createdAt,
    unparsed_of_holds h.updatedAt, h.action, hlevel, h.revision, unread]

theorem read_eq_ok_iff : r.read name = .ok m ↔ m.name = name ∧ r.Holds m := by
  rcases read_cases name r with ⟨fault, hfault, hread⟩ | ⟨m', -, hname, hholds, hread⟩
  · rw [hread]
    refine iff_of_false nofun ?_
    rintro ⟨-, hholds⟩
    rw [hholds.faults_eq_nil] at hfault
    nomatch hfault
  · rw [hread]
    constructor
    · intro h
      obtain rfl := Except.ok.inj h
      exact ⟨hname, hholds⟩
    · rintro ⟨hname', hholds'⟩
      exact congrArg Except.ok (hholds.unique hholds' (hname.trans hname'.symm))

theorem read_eq_error_iff : r.read name = .error fault ↔ r.faults.head? = some fault := by
  rcases read_cases name r with ⟨fault', hfault, hread⟩ | ⟨m', hfaults, -, -, hread⟩
  · rw [hread, hfault, Except.error.injEq, Option.some.injEq]
  · rw [hread, hfaults]
    exact iff_of_false nofun nofun

end Row

/-! ### Listing -/

namespace Store

variable {s : Store} {t : Table}

theorem list_of_migrated (h : s.migratedTable = .ok t) :
    s.list = t.rows.mapM fun e => e.2.read e.1 := by
  rw [list, h]
  rfl

theorem get?_of_migrated (h : s.migratedTable = .ok t) (name : String) :
    s.get? name = match t.get? name with
      | some row => (row.read name).map some
      | none     => .ok none := by
  rw [get?, h]
  rfl

/-- A name is read as a model where it has a row that is. -/
theorem get?_eq_some_iff (h : s.migratedTable = .ok t) {name : String} {m : StoredModel} :
    s.get? name = .ok (some m) ↔ ∃ row, t.get? name = some row ∧ row.read name = .ok m := by
  rw [get?_of_migrated h]
  cases t.get? name with
  | none => simp
  | some row => cases hread : row.read name <;> simp [Except.map, hread]

/-- A name is not read where it has a row that is not. -/
theorem get?_eq_error_iff (h : s.migratedTable = .ok t) {name : String} {fault : StoreFault} :
    s.get? name = .error fault ↔
      ∃ row, t.get? name = some row ∧ row.read name = .error fault := by
  rw [get?_of_migrated h]
  cases t.get? name with
  | none => simp
  | some row => cases hread : row.read name <;> simp [Except.map, hread]

/-- The stored names, in the order of the rows. -/
theorem mem_names_iff {name : String} :
    name ∈ t.rows.map Prod.fst ↔ (t.get? name).isSome := by
  rw [List.mem_map, Option.isSome_iff_exists]
  constructor
  · rintro ⟨e, he, rfl⟩
    exact ⟨e.2, Table.mem_rows_iff.mp he⟩
  · rintro ⟨row, hrow⟩
    exact ⟨(name, row), Table.mem_rows_iff.mpr hrow, rfl⟩

/-- Every stored name is read just where the store is listed. -/
theorem list_ok_iff (h : s.migratedTable = .ok t) : (∃ ms, s.list = .ok ms) ↔
    ∀ name, (t.get? name).isSome → ∃ m, s.get? name = .ok (some m) := by
  rw [list_of_migrated h, mapM_ok_iff]
  constructor
  · intro hread name hname
    obtain ⟨row, hrow⟩ := Option.isSome_iff_exists.mp hname
    obtain ⟨m, hm⟩ := hread (name, row) (Table.mem_rows_iff.mpr hrow)
    exact ⟨m, (get?_eq_some_iff h).mpr ⟨row, hrow, hm⟩⟩
  · intro hget e he
    have hrow := Table.mem_rows_iff.mp he
    obtain ⟨m, hm⟩ := hget e.1 (Option.isSome_iff_exists.mpr ⟨_, hrow⟩)
    obtain ⟨row, hrow', hread⟩ := (get?_eq_some_iff h).mp hm
    obtain rfl := Option.some.inj (hrow.symm.trans hrow')
    exact ⟨m, hread⟩

/-- A listing has the names of the rows. -/
theorem names_of_list (h : s.migratedTable = .ok t) {ms : List StoredModel}
    (hlist : s.list = .ok ms) : ms.map (·.name) = t.rows.map Prod.fst := by
  rw [list_of_migrated h] at hlist
  exact map_eq_of_mapM_ok (fun e m hread => (Row.read_eq_ok_iff.mp hread).1) hlist

/-- A listing stops at the first name in order that is not read. -/
theorem list_eq_error_iff (h : s.migratedTable = .ok t) {fault : StoreFault} :
    s.list = .error fault ↔ ∃ name, s.get? name = .error fault ∧
      ∀ other, (t.get? other).isSome → other < name → ∃ m, s.get? other = .ok (some m) := by
  rw [list_of_migrated h, mapM_eq_error_iff]
  constructor
  · rintro ⟨before, e, after, hrows, hbefore, hread⟩
    have hrow : t.get? e.1 = some e.2 := Table.mem_rows_iff.mp (by simp [hrows])
    refine ⟨e.1, (get?_eq_error_iff h).mpr ⟨e.2, hrow, hread⟩, fun other hother hlt => ?_⟩
    obtain ⟨row, hrow'⟩ := Option.isSome_iff_exists.mp hother
    have hmem : (other, row) ∈ before ++ e :: after := hrows ▸ Table.mem_rows_iff.mpr hrow'
    have hascending := hrows ▸ t.ascending
    obtain ⟨-, hafter, -⟩ := List.pairwise_append.mp hascending
    -- what is not before the row that fails has no lesser name
    have hearlier : (other, row) ∈ before := by
      rcases List.mem_append.mp hmem with hmem | hmem
      · exact hmem
      · rcases List.mem_cons.mp hmem with rfl | hmem
        · exact absurd hlt (String.lt_irrefl _)
        · exact absurd (String.lt_trans hlt ((List.pairwise_cons.mp hafter).1 _ hmem))
            (String.lt_irrefl _)
    obtain ⟨m, hm⟩ := mapM_ok_iff.mp hbefore _ hearlier
    exact ⟨m, (get?_eq_some_iff h).mpr ⟨row, hrow', hm⟩⟩
  · rintro ⟨name, hname, hothers⟩
    obtain ⟨row, hrow, hread⟩ := (get?_eq_error_iff h).mp hname
    obtain ⟨before, after, hrows⟩ :=
      List.append_of_mem (Table.mem_rows_iff.mpr hrow : (name, row) ∈ t.rows)
    refine ⟨before, (name, row), after, hrows, mapM_ok_iff.mpr fun e he => ?_, hread⟩
    have hascending := hrows ▸ t.ascending
    obtain ⟨-, -, hapart⟩ := List.pairwise_append.mp hascending
    have hrow' : t.get? e.1 = some e.2 := Table.mem_rows_iff.mp (by simp [hrows, he])
    obtain ⟨m, hm⟩ := hothers e.1 (Option.isSome_iff_exists.mpr ⟨_, hrow'⟩)
      (hapart e he _ List.mem_cons_self)
    obtain ⟨row', hrow'', hm⟩ := (get?_eq_some_iff h).mp hm
    obtain rfl := Option.some.inj (hrow'.symm.trans hrow'')
    exact ⟨m, hm⟩

/-- **Listing a store and looking its names up agree.**  The store is listed just where each stored
name is read; then the listing has those names by their bytes, each with what its lookup gives.
Else it fails as the first name by its bytes that is not read.  What a name is read as, or why it is
not, depends on its own row alone. -/
theorem list_agrees (h : s.migratedTable = .ok t) :
    ((∃ ms, s.list = .ok ms) ↔
      ∀ name, (t.get? name).isSome → ∃ m, s.get? name = .ok (some m)) ∧
    (∀ ms, s.list = .ok ms →
      (ms.map (·.name)).Pairwise (·.toUTF8.toList < ·.toUTF8.toList) ∧
      (∀ name, name ∈ ms.map (·.name) ↔ (t.get? name).isSome) ∧
      ∀ m ∈ ms, s.get? m.name = .ok (some m)) ∧
    (∀ fault, s.list = .error fault ↔ ∃ name, s.get? name = .error fault ∧
      ∀ other, (t.get? other).isSome → other.toUTF8.toList < name.toUTF8.toList →
        ∃ m, s.get? other = .ok (some m)) ∧
    ∀ name row, t.get? name = some row →
      (∀ m, s.get? name = .ok (some m) ↔ m.name = name ∧ row.Holds m) ∧
      ∀ fault, s.get? name = .error fault ↔ row.faults.head? = some fault := by
  refine ⟨list_ok_iff h, fun ms hms => ⟨?_, fun name => ?_, fun m hm => ?_⟩, fun fault => ?_,
    fun name row hrow => ⟨fun m => ?_, fun fault => ?_⟩⟩
  · simp only [← lt_iff_toUTF8_lt, names_of_list h hms]
    exact List.pairwise_map.mpr t.ascending
  · rw [names_of_list h hms, mem_names_iff]
  · rw [list_of_migrated h] at hms
    obtain ⟨e, he, hread⟩ := exists_of_mem_mapM_ok hms hm
    obtain ⟨hname, -⟩ := Row.read_eq_ok_iff.mp hread
    rw [hname]
    exact (get?_eq_some_iff h).mpr ⟨e.2, Table.mem_rows_iff.mp he, hread⟩
  · simp only [list_eq_error_iff h, lt_iff_toUTF8_lt]
  · simp [get?_eq_some_iff h, hrow, Row.read_eq_ok_iff]
  · simp [get?_eq_error_iff h, hrow, Row.read_eq_error_iff]

/-- Three rows, the second of them under a level that there is not: the listing fails as the lookup
of that name does, and the other names are still read. -/
theorem list_agrees_unknown_level :
    let readable : Row := .first (.nested 0) (Instant.text ⟨0, 0, 0⟩)
    let damaged : Row := { readable with level := "lax" }
    let t := ((Table.empty.put "é" readable).put "Z" readable).put "a" damaged
    let s := (((fresh.putRow "é" readable).2.putRow "Z" readable).2.putRow "a" damaged).2
    s.migratedTable = .ok t ∧ s.list = .error (.unreadable 3) ∧
      s.get? "a" = .error (.unreadable 3) ∧ (∃ m, s.get? "Z" = .ok (some m)) ∧
      ∃ m, s.get? "é" = .ok (some m) := by
  intro readable damaged t s
  have hmigrated : s.migratedTable = .ok t := rfl
  have hholds : ∀ name, ∃ m, m.name = name ∧ readable.Holds m := by
    intro name
    have hclock : Instant.OnClock ⟨0, 0, 0⟩ := ⟨by decide, by decide, by decide⟩
    have hread := @Row.read_written readable (.nested 0) 0 ⟨0, 0, 0⟩ ⟨0, 0, 0⟩
      (Model.compiled_nested 0).distinct (Row.document_first _ _) rfl rfl rfl ⟨rfl, hclock⟩
      ⟨rfl, hclock⟩ name
    have hfits : (Document.nested 0).Fits 0 := ⟨by rw [Document.depth_nested]; decide, by decide⟩
    obtain ⟨m, hm⟩ := (@Document.readAs_ok_iff _ name _ ⟨0, 0, 0⟩ ⟨0, 0, 0⟩).mpr hfits
    exact ⟨m, Row.read_eq_ok_iff.mp (hread.trans hm)⟩
  have hfaults : damaged.faults = [.unreadable 3] := by
    obtain ⟨m, -, hm⟩ := hholds "a"
    exact hm.faults_of_level (by decide)
  have hlast : t.get? "é" = some readable := by
    rw [Table.get?_put_of_ne _ _ (by decide), Table.get?_put_of_ne _ _ (by decide),
      Table.get?_put_self]
  have hfirst : t.get? "Z" = some readable := by
    rw [Table.get?_put_of_ne _ _ (by decide), Table.get?_put_self]
  have ha : t.get? "a" = some damaged := Table.get?_put_self ..
  obtain ⟨-, -, herror, hrow⟩ := list_agrees hmigrated
  have hreads : ∀ name, t.get? name = some readable → ∃ m, s.get? name = .ok (some m) :=
    fun name hname => (hholds name).imp fun m hm => ((hrow name _ hname).1 m).mpr hm
  have hget : s.get? "a" = .error (.unreadable 3) :=
    ((hrow "a" _ ha).2 _).mpr (by rw [hfaults]; rfl)
  refine ⟨hmigrated, (herror _).mpr ⟨"a", hget, fun other hother hlt => ?_⟩, hget, hreads _ hfirst,
    hreads _ hlast⟩
  have hlt : other < "a" := lt_iff_toUTF8_lt.mpr hlt
  by_cases hother' : other = "Z"
  · exact hother' ▸ hreads _ hfirst
  · by_cases hother'' : other = "é"
    · exact hother'' ▸ hreads _ hlast
    · rw [Table.get?_put_of_ne _ _ (ne_of_lt hlt), Table.get?_put_of_ne _ _ hother',
        Table.get?_put_of_ne _ _ hother''] at hother
      nomatch hother

end Store

end Schemata

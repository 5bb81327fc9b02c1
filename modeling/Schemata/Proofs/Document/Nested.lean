import Schemata.Proofs.Catalog.Gathering
import Schemata.Proofs.Document.Reading

/-!
# Schemata — Proofs — Document — Nested

Maps of maps.  A level of them is one container in the text of a declaration and two in the text of
the document that the declaration gives, an object of patterns in an object.  So a declaration is
read with more levels than its document is: up to 123 of them against 62
(`Declaration.Model.decode?_nested`, `Document.depth_nested`).
-/

namespace Schemata

/-! ### The kind and its fragment -/

/-- Maps of maps, so many levels of them, to strings. -/
def Kind.nested : Nat → Kind
  | 0     => .anyString
  | n + 1 => .mapOf (nested n)

/-- What validates the values of nested maps. -/
def Fragment.nested : Nat → Fragment
  | 0     => .typed .string
  | n + 1 => { Fragment.typed .object with
      patternProperties := some [(anyKey, nested n)]
      additionalProperties := some false }

theorem Kind.resolve_nested (lookup : String → Lookup) (n : Nat) :
    (nested n).resolve lookup = .ok (.nested n) := by
  induction n with
  | zero => rfl
  | succ n ih =>
      simp only [nested, mapOf, resolve, ih]
      rfl

/-- A level of maps is two containers of the fragment. -/
theorem Fragment.depth_nested (n : Nat) : (nested n).toJson.depth = 2 * n + 1 := by
  induction n with
  | zero => rfl
  | succ n ih =>
      have h : (nested (n + 1)).toJson = .object [("type", .string "object"),
        ("patternProperties", .object [(anyKey, (nested n).toJson)]),
        ("additionalProperties", .bool false)] := rfl
      rw [h]
      simp [Json.depth, Json.membersDepth, ih]
      omega

/-- There are no numbers in it. -/
theorem Fragment.reread_nested (n : Nat) : (nested n).reread = nested n := by
  induction n with
  | zero => rfl
  | succ n ih =>
      have hlevel : (nested (n + 1)).reread = { nested (n + 1) with
          patternProperties := some [(anyKey, (nested n).reread)] } := rfl
      rw [hlevel, ih]
      rfl

/-! ### The text of the kind -/

namespace Kind

theorem toJson_nested (n : Nat) : (nested (n + 1)).toJson
    = .object [("kind", .string "objectGeneric"), ("value", (nested n).toJson)] := rfl

theorem toJson_nested_ne_null (n : Nat) : (nested n).toJson ≠ .null := by
  cases n <;> exact Json.object_ne_null _

theorem readable_nested (n : Nat) : (nested n).toJson.readable = true := by
  induction n with
  | zero => rfl
  | succ n ih => simp [toJson_nested, Json.readable, Json.membersReadable, ih]

/-- There are no numbers in it, so its text is read as it is. -/
theorem numbers_nested (n : Nat) : (nested n).toJson.numbers = [] := by
  induction n with
  | zero => rfl
  | succ n ih => simp [toJson_nested, Json.numbers, Json.membersNumbers, ih]

theorem tagged?_nested (below : Bool) (n : Nat) : tagged? below (nested (n + 1)).toJson
    = some ("objectGeneric", .object [("value", (nested n).toJson)]) := by
  simp [toJson_nested, tagged?, Json.valuesOf, tag?]

theorem ofSettings?_nested (inner : Json → Option Kind) (room n : Nat) :
    ofSettings? inner room "objectGeneric" (.object [("value", (nested n).toJson)])
      = (inner (nested n).toJson).map mapOf := by
  have hslots : Json.record? true ["value", "pattern", "minProperties", "maxProperties"]
      (.object [("value", (nested n).toJson)])
        = some [some (nested n).toJson, none, none, none] := by
    simp [Json.record?, Json.slots?, Json.valuesOf]
  have hvalue : Json.optional inner (some (nested n).toJson)
      = (inner (nested n).toJson).map some := by
    rw [Json.optional]
    exact toJson_nested_ne_null n
  simp only [ofSettings?, hslots, Option.bind_eq_bind, Option.bind_some, hvalue]
  cases inner (nested n).toJson <;> rfl

/-- Nested maps are read where there is room for one container a level. -/
theorem readNested?_nested {n room : Nat} (h : n < room) :
    readNested? room (nested n).toJson = some (nested n) := by
  induction n generalizing room with
  | zero =>
      obtain ⟨room, rfl⟩ : ∃ r, room = r + 1 := ⟨room - 1, by omega⟩
      rfl
  | succ n ih =>
      obtain ⟨room, rfl⟩ : ∃ r, room = r + 1 := ⟨room - 1, by omega⟩
      have hinner := ih (show n < room by omega)
      simp only [readNested?, tagged?_nested, Option.bind_some, ofSettings?_nested, hinner]
      rfl

theorem read?_nested {n room : Nat} (h : n < room) :
    read? room (nested n).toJson = some (nested n) := by
  obtain ⟨room, rfl⟩ : ∃ r, room = r + 1 := ⟨room - 1, by omega⟩
  cases n with
  | zero => rfl
  | succ n =>
      have hinner := readNested?_nested (show n < room by omega)
      simp only [read?, tagged?_nested, Option.bind_some, ofSettings?_nested, hinner]
      rfl

end Kind

/-! ### The declaration and its document -/

/-- A model with one field, of nested maps. -/
def Declaration.Model.nested (n : Nat) : Declaration.Model where
  name := "Deep"
  fields := [{ name := "tree", kind := some (.nested n) }]

/-- The document of that model. -/
def Document.nested (n : Nat) : Document where
  type := .object
  properties :=
    [(idField, .bson .objectId), (versionField, .typed .number), ("tree", .nested n)]
  required := [idField]
  additionalProperties := false
  action := .error
  level := .strict
  defaults := none

/-- The declaration is read from its text if no more containers are open in that than a reader
allows. -/
theorem Declaration.Model.decode?_nested {n : Nat} (h : n ≤ 123) :
    Json.decode? read? (nested n).toJson.render = some (nested n) := by
  obtain ⟨field, hfield⟩ : ∃ field : Json, field = .object [("name", .string "tree"),
      ("type", (Kind.nested n).toJson), ("required", .bool false)] := ⟨_, rfl⟩
  have hmodel : (nested n).toJson = .object [("name", .string "Deep"), ("fields", .array [field]),
      ("timestamps", .bool false), ("validationAction", .string "error"),
      ("validationLevel", .string "strict")] := by
    rw [hfield]
    rfl
  have hreadable : (nested n).toJson.readable = true := by
    simp [hmodel, hfield, Json.readable, Json.membersReadable, Json.itemsReadable,
      Kind.readable_nested]
  have hlasts : (nested n).toJson.Lasts := by
    simp [hmodel, hfield, Json.Lasts, Json.numbers, Json.membersNumbers, Json.itemsNumbers,
      Kind.numbers_nested]
  have hkind : Json.optional (Kind.read? 124) (some (Kind.nested n).toJson)
      = some (some (.nested n)) := by
    rw [Json.optional, Kind.read?_nested (by omega)]
    · rfl
    · exact Kind.toJson_nested_ne_null n
  have hread : Field.read? 125 field = some { name := "tree", kind := some (.nested n) } := by
    have hslots : Json.record? true ["name", "declared", "type", "required"] field
        = some [some (.string "tree"), none, some (Kind.nested n).toJson, some (.bool false)] := by
      simp [hfield, Json.record?, Json.slots?, Json.valuesOf]
    simp only [Field.read?, hslots, Option.bind_eq_bind, Option.bind_some, hkind]
    rfl
  have hslots : Json.record? true (["name", "fields"] ++ Settings.keys) (nested n).toJson
      = some [some (.string "Deep"), some (.array [field]), some (.bool false), none,
        some (.string "error"), some (.string "strict")] := by
    simp [hmodel, Settings.keys, Json.record?, Json.slots?, Json.valuesOf]
  have hfields : Json.list? Field.read? 126 (.array [field])
      = some [{ name := "tree", kind := some (.nested n) }] := by
    simp [Json.list?, hread]
  rw [Json.decode?, Json.parse?_render hreadable, (Json.reread_eq_self_iff _).mpr hlasts,
    Option.bind_some]
  simp only [Json.maxDepth, read?, hslots, Option.bind_eq_bind, Option.bind_some,
    Json.withDefault, hfields]
  rfl

/-- The declaration gives the document. -/
theorem Catalog.declareModel_nested (n : Nat) :
    (Catalog.declareModel {} (.nested n)).1 = .ok ⟨"Deep", .nested n⟩ := by
  have hattach : ∀ lookup, Fields.attach lookup [] "tree" none ⟨some (.nested n), false⟩
      = .ok [⟨"tree", .nested n, false⟩] := by
    intro lookup
    have hname : "tree" ≠ versionField := by decide
    have hnew : Fields.contains [] "tree" = false := rfl
    simp [Fields.attach_eq, Fields.kindOf, hname, hnew, bind, Except.bind, Kind.resolve_nested,
      Except.mapError, pure, Except.pure]
  have hfields : (⟨{ pending := ["Deep"] }, "Deep", []⟩ : Draft).attachAll
      (Declaration.Model.nested n).fields
        = .ok ⟨{ pending := ["Deep"] }, "Deep", [⟨"tree", .nested n, false⟩]⟩ := by
    simp [Draft.attachAll, Declaration.Model.nested, Draft.attach, Declaration.Field.options,
      hattach, Except.map, bind, Except.bind, pure, Except.pure]
  have hname : (Declaration.Model.nested n).name = "Deep" := rfl
  have hdraft : Catalog.draft {} "Deep" = .ok ⟨{ pending := ["Deep"] }, "Deep", []⟩ := rfl
  have hcompile : Document.compile [⟨"tree", .nested n, false⟩]
      (Declaration.Model.nested n).settings = .ok (.nested n) := rfl
  simp only [declareModel, hname, hdraft, hfields, Draft.finishModel, hcompile]

theorem Model.compiled_nested (n : Nat) : Model.Compiled ⟨"Deep", .nested n⟩ :=
  ⟨{}, .nested n, .empty, Catalog.declareModel_nested n⟩

/-- Two containers a level, and those of the document around them. -/
theorem Document.depth_nested (n : Nat) : (nested n).toJson.depth = 2 * n + 3 := by
  have hproperties : (nested n).properties.toJson
      = .object [(idField, (Fragment.bson .objectId).toJson),
        (versionField, (Fragment.typed .number).toJson),
        ("tree", (Fragment.nested n).toJson)] := rfl
  have hdocument : (nested n).toJson = .object [("type", .string "object"),
      ("properties", (nested n).properties.toJson), ("required", .array [.string idField]),
      ("additionalProperties", .bool false), ("$validationAction", .string "error"),
      ("$validationLevel", .string "strict")] := rfl
  have hid : (Fragment.bson .objectId).toJson.depth = 1 := rfl
  have hversion : (Fragment.typed .number).toJson.depth = 1 := rfl
  rw [hdocument, hproperties]
  simp [Json.depth, Json.membersDepth, Json.itemsDepth, hid, hversion, Fragment.depth_nested]

/-- The text of the document is read as it is. -/
theorem Document.reread_nested (n : Nat) : (nested n).reread = nested n := by
  have hlevels : (nested n).reread = { nested n with
      properties := [(idField, .bson .objectId), (versionField, .typed .number),
        ("tree", (Fragment.nested n).reread)] } := rfl
  rw [hlevels, Fragment.reread_nested]
  rfl

/-- The text of the document tells how many levels there are. -/
theorem Document.text_nested_injective {m n : Nat} (h : (nested m).text = (nested n).text) :
    m = n := by
  have hsame : nested m = nested n :=
    eq_of_text_eq (Model.compiled_nested m).distinct (Model.compiled_nested n).distinct h
  have hdepth : (nested m).toJson.depth = (nested n).toJson.depth := by rw [hsame]
  rw [depth_nested, depth_nested] at hdepth
  omega

end Schemata

import Schemata.Proofs.Document.Compiling
import Schemata.Proofs.Fragment.Places

/-!
# Schemata — Proofs — Document — Validator

The validator of a document is the document without its directives, and nothing less
(`Document.validator_exact`).  A document apart from its directives is a closed object
(`Document.body`), and its validator is that object in canonical form (`Document.validator_eq`); so
only keys at the top are ever left out, whatever the names of properties further in.  Bringing the
rest into canonical form forgets the order of properties and nothing else
(`Fragment.canonical_eq_iff_at?`).
-/

namespace Schemata

/-- Fields attached one after another, each with whatever shapes could be looked up then: those have
distinct names. -/
inductive Fields.Sourced : Fields → Prop where
  | nil : Sourced []
  | attach {lookup : String → Lookup} {fs fs' : Fields} {name : String}
      {declared : Option HostType} {options : FieldOptions} (h : Sourced fs)
      (hlookup : Lookup.Distinct lookup)
      (hattach : fs.attach lookup name declared options = .ok fs') : Sourced fs'

theorem Fields.Sourced.distinct {fs : Fields} (h : fs.Sourced) : fs.Distinct := by
  induction h with
  | nil => exact nofun
  | attach _ hlookup hattach ih => exact distinct_attach hlookup ih hattach

/-- Fields attached on catalogs are such. -/
theorem Fields.Gathered.sourced {fs : Fields} (h : fs.Gathered) : fs.Sourced := by
  induction h with
  | nil => exact .nil
  | attach ops pending _ hattach ih =>
      refine ih.attach (fun name shape hfound => ?_) hattach
      obtain ⟨fs, hfs, rfl⟩ := (hereditary_distinct.run ops).lookup pending name shape hfound
      exact distinct_properties hfs

namespace Document

/-- A document that compiling such fields gives, whatever the settings. -/
def Returned (d : Document) : Prop := ∃ fs settings, Fields.Sourced fs ∧ compile fs settings = .ok d

/-- Every document that a catalog gives is such. -/
theorem Compilable.returned {d : Document} (h : d.Compilable) : d.Returned := by
  obtain ⟨fs, settings, hfs, hcompile⟩ := h
  exact ⟨fs, settings, hfs.sourced, hcompile⟩

variable {d d' : Document}

theorem Returned.distinct (h : d.Returned) : Properties.Distinct d.properties := by
  obtain ⟨fs, settings, hfs, hcompile⟩ := h
  exact distinct_compile hfs.distinct hcompile

theorem Returned.closed (h : d.Returned) : d.type = .object ∧ d.additionalProperties = false := by
  obtain ⟨fs, settings, -, hcompile⟩ := h
  obtain ⟨ps, -, h⟩ := bind_eq_ok.mp hcompile
  obtain ⟨-, -, h⟩ := bind_eq_ok.mp h
  obtain rfl := Except.ok.inj h
  exact ⟨rfl, rfl⟩

/-! ### The body of a document -/

/-- A document apart from its directives. -/
def body (d : Document) : Fragment where
  type := some d.type
  properties := some d.properties
  required := some d.required
  additionalProperties := some d.additionalProperties

theorem toJson_body (d : Document) : d.body.toJson = .object
    [("type", d.type.toJson), ("properties", d.properties.toJson),
      ("required", Json.strings d.required),
      ("additionalProperties", .bool d.additionalProperties)] := by
  rw [Fragment.toJson_eq_given ⟨rfl, rfl⟩]
  rfl

/-- **The validator is the body in canonical form**: the directives are all keys that are left
out. -/
theorem validator_eq (d : Document) : d.validator = d.body.toJson.canonical := by
  have hdirective : isDirective "$validationAction" = true ∧ isDirective "$validationLevel" = true ∧
    isDirective "$defaults" = true := by decide
  have hkept : isDirective "type" = false ∧ isDirective "properties" = false ∧
    isDirective "required" = false ∧ isDirective "additionalProperties" = false := by decide
  rw [toJson_body, validator, toJson]
  cases d.defaults <;> simp [Json.member, hdirective, hkept]

/-- Where a step leads from a document, a property being one of its own. -/
theorem at?_body (name : String) (path : List Fragment.Step) :
    d.body.at? (.property name :: path)
      = (d.properties.get? name).bind fun f => f.at? path := rfl

theorem distinct_body (h : Properties.Distinct d.properties) : d.body.Distinct :=
  (Fragment.distinct_iff _).mpr ⟨⟨rfl, rfl⟩, nofun, by rintro _ ⟨⟩; exact h, nofun⟩

/-- Nothing but a property leads on from a document. -/
theorem forall_at?_body_iff :
    (∀ path, (d.body.at? path).map Fragment.own = (d'.body.at? path).map Fragment.own) ↔
      (d.type = d'.type ∧ d.additionalProperties = d'.additionalProperties ∧
        d.required = d'.required) ∧
      ∀ name path, ((d.properties.get? name).bind (·.at? path)).map Fragment.own
        = ((d'.properties.get? name).bind (·.at? path)).map Fragment.own := by
  constructor
  · intro h
    have hown := (Fragment.own_eq_iff ⟨rfl, rfl⟩ ⟨rfl, rfl⟩).mp (Option.some.inj (h []))
    refine ⟨⟨Option.some.inj hown.1, ?_, ?_⟩, fun name path => h (.property name :: path)⟩
    · exact Option.some.inj hown.2.2.2.2.2.1
    · exact Option.some.inj hown.2.2.2.2.1
  · rintro ⟨⟨htype, hadditional, hrequired⟩, hproperties⟩ path
    match path with
    | [] =>
        rw [Fragment.at?, Fragment.at?, body, body, htype, hadditional, hrequired]
        rfl
    | .items :: _ => rfl
    | .property name :: path => exact hproperties name path
    | .pattern _ :: _ => rfl

/-- Of the keys at the top the validator has those that are no directives. -/
theorem child?_validator (d : Document) (name : String) :
    d.validator.child? (.key name) = if isDirective name then none
      else (d.toJson.child? (.key name)).map Json.canonical := by
  obtain ⟨members, hmembers⟩ : ∃ members, d.toJson = .object members := ⟨_, rfl⟩
  have hvalues : Json.valuesOf (members.filter fun m => !isDirective m.1) name
      = if isDirective name then [] else Json.valuesOf members name := by
    rw [Json.valuesOf, Json.valuesOf, List.filter_filter]
    split
    · next hname =>
        rw [List.map_eq_nil_iff, List.filter_eq_nil_iff]
        intro m _ hm
        simp only [Bool.and_eq_true, decide_eq_true_eq] at hm
        rw [hm.1, hname] at hm
        exact Bool.false_ne_true hm.2
    · next hname =>
        refine congrArg _ (List.filter_congr fun m _ => ?_)
        by_cases hm : m.1 = name <;> simp [hm, hname]
  rw [validator, hmembers, Json.child?_canonical, Json.child?, Json.child?, hvalues]
  split <;> rfl

/-- **The validator is exactly the document without its directives.**  Two documents have the same
validator just where they require the same and say the same at every place, whatever the order of
properties; the directives do not matter.  Of the keys at the top the directives are left out; what
a property leads to is there, whatever its name; and a key that looks like a directive is the name
of a property, a pattern, or a key within allowed values. -/
theorem validator_exact (hd : d.Returned) (hd' : d'.Returned) :
    (d.validator = d'.validator ↔ d.required = d'.required ∧
      ∀ name path, ((d.properties.get? name).bind (·.at? path)).map Fragment.own
        = ((d'.properties.get? name).bind (·.at? path)).map Fragment.own) ∧
    (∀ action level defaults,
      ({ d with action, level, defaults } : Document).validator = d.validator) ∧
    (∀ name, d.validator.child? (.key name) = if isDirective name then none
      else (d.toJson.child? (.key name)).map Json.canonical) ∧
    (∀ name path, d.validator.at? (Fragment.keys (.property name :: path))
      = ((d.properties.get? name).bind (·.at? path)).map (·.toJson.canonical)) ∧
    ∀ steps name, isDirective name = true → (d.validator.at? (steps ++ [.key name])).isSome →
      d.body.FreeKey steps name := by
  have hbody := distinct_body hd.distinct
  refine ⟨?_, fun action level defaults => ?_, child?_validator d, fun name path => ?_,
    fun steps name hname h => ?_⟩
  · rw [validator_eq, validator_eq,
      Fragment.canonical_eq_iff_at? hbody (distinct_body hd'.distinct), forall_at?_body_iff,
      hd.closed.1, hd'.closed.1, hd.closed.2, hd'.closed.2]
    simp only [true_and]
  · rw [validator_eq, validator_eq]
    rfl
  · rw [validator_eq, Json.at?_canonical, Fragment.at?_keys hbody, at?_body, Option.map_map]
    rfl
  · rw [validator_eq, Json.at?_canonical, Option.isSome_map] at h
    rcases Fragment.keyword_or_freeKey hbody h with ⟨path, -, hkeyword⟩ | hfree
    · have hnone : ∀ keyword ∈ Fragment.keywords, isDirective keyword = false := by decide
      rw [hnone name hkeyword] at hname
      nomatch hname
    · exact hfree

/-- A field that is named like a directive, and another. -/
def dollarFields : List Declaration.Field :=
  [{ name := "$defaults", kind := some .anyString },
    { name := "title", kind := some .anyNumber, required := true }]

/-- Neither the order of fields nor a directive matters to the validator, and a field that is named
like a directive stays. -/
theorem validator_exact_dollar : ∃ m m' : Model,
    ((Catalog.run {} []).perform (.model { name := "Price", fields := dollarFields })).1
      = .declared (some m) ∧
    ((Catalog.run {} []).perform (.model
      { name := "Price", fields := dollarFields.reverse
        settings := { action := .warn, level := .moderate } })).1 = .declared (some m') ∧
    m.document.Returned ∧ m'.document.Returned ∧
    m.document.properties.names = ["_id", "__v", "$defaults", "title"] ∧
    m'.document.properties.names = ["_id", "__v", "title", "$defaults"] ∧
    m.document.validator = m'.document.validator ∧
    m.document.validator.at? [.key "properties", .key "$defaults"]
      = some (.object [("type", .string "string")]) := by
  have hget : ∀ name, Properties.get? [("_id", .bson .objectId), ("__v", .typed .number),
      ("$defaults", .typed .string), ("title", .typed .number)] name
        = Properties.get? [("_id", .bson .objectId), ("__v", .typed .number),
          ("title", .typed .number), ("$defaults", .typed .string)] name := by
    intro name
    by_cases hname : "$defaults" = name
    · subst hname
      rfl
    · simp [Properties.get?, List.find?_cons, hname]
  obtain ⟨m, hm⟩ : ∃ m, ((Catalog.run {} []).perform (.model
    { name := "Price", fields := dollarFields })).1 = .declared (some m) := ⟨_, rfl⟩
  obtain ⟨m', hm'⟩ : ∃ m', ((Catalog.run {} []).perform (.model
    { name := "Price", fields := dollarFields.reverse
      settings := { action := .warn, level := .moderate } })).1 = .declared (some m') := ⟨_, rfl⟩
  have hd := (Catalog.compilable_of_perform hm).returned
  have hd' := (Catalog.compilable_of_perform hm').returned
  refine ⟨m, m', hm, hm', hd, hd', ?_⟩
  obtain rfl := Option.some.inj (Catalog.Outcome.declared.inj hm)
  obtain rfl := Option.some.inj (Catalog.Outcome.declared.inj hm')
  obtain ⟨hsame, -, -, hplace, -⟩ := validator_exact hd hd'
  refine ⟨rfl, rfl, hsame.mpr ⟨rfl, fun name path => ?_⟩, hplace "$defaults" []⟩
  exact congrArg (fun f : Option Fragment => (f.bind (·.at? path)).map Fragment.own) (hget name)

end Document

end Schemata

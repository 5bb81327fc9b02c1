import Schemata.Proofs.Catalog.Places
import Schemata.Proofs.Number.Denoting

/-!
# Schemata — Proofs — Catalog — Bounds

The bounds of numbers, from a declaration to the document.  A bound is written at the place of the
document that its kind has in the declaration (`Catalog.bound_of_perform`), and it is written as the
number that its literal was read as.  So an integer that is declared as a bound is written as the
same integer just where it fits 64 bits, signed or unsigned, or is the shortest decimal of the float
that it is read as (`Catalog.bounds_kept`).  Integers below `10⁴¹` of at most eight significant
digits are; `18446744073709551617` is not (`Catalog.bounds_shifted`).
-/

namespace Schemata

/-- The bounds that a number may have. -/
inductive NumberLimits.Bound where
  | minimum
  | maximum
  | exclusiveMinimum
  | exclusiveMaximum
  | multipleOf
deriving DecidableEq, Repr

namespace NumberLimits.Bound

/-- The bound of that name. -/
def of (limits : NumberLimits) : Bound → Option Number
  | .minimum          => limits.minimum
  | .maximum          => limits.maximum
  | .exclusiveMinimum => limits.exclusiveMinimum
  | .exclusiveMaximum => limits.exclusiveMaximum
  | .multipleOf       => limits.multipleOf

/-- The keyword that states the bound. -/
def keyword : Bound → String
  | .minimum          => "minimum"
  | .maximum          => "maximum"
  | .exclusiveMinimum => "exclusiveMinimum"
  | .exclusiveMaximum => "exclusiveMaximum"
  | .multipleOf       => "multipleOf"

/-- A fragment states each bound under its keyword. -/
theorem child?_toJson (bound : Bound) {f : Fragment} (h : f.OwnsAllowed) :
    f.toJson.child? (.key bound.keyword) = (bound.of f.numberLimits).map .number := by
  cases bound <;> exact Fragment.child?_toJson h (by simp [keyword, of, Fragment.keywords,
    Fragment.slots])

end NumberLimits.Bound

open NumberLimits (Bound)
open Literal (Denotes SpellsInteger)

namespace Document

/-- The properties of a document are where those of its body are. -/
theorem at?_toJson (d : Document) (name : String) (path : List Fragment.Step)
    (more : List Json.Step) :
    d.toJson.at? (Fragment.keys (.property name :: path) ++ more)
      = d.body.toJson.at? (Fragment.keys (.property name :: path) ++ more) := by
  have hdocument : d.toJson.child? (.key "properties") = some d.properties.toJson := by
    rw [toJson]
    cases d.defaults <;> simp [Json.child?, Json.valuesOf, Json.member]
  have hbody : d.body.toJson.child? (.key "properties") = some d.properties.toJson := by
    rw [toJson_body]
    simp [Json.child?, Json.valuesOf]
  rw [Fragment.keys_cons, Fragment.Step.keys, List.append_assoc, List.cons_append, Json.at?_cons,
    Json.at?_cons, hdocument, hbody]

end Document

namespace Catalog

variable {before : List Operation} {op : Operation} {m : Model}

/-- **A bound that is declared is written at its place**, however deep within its field. -/
theorem bound_of_perform (h : ((run {} before).perform op).1 = .declared (some m)) :
    ∃ decl, op.declaration? (run {} before) = some decl ∧
      ∀ f ∈ decl.fields, ∀ kind limits path, f.kind = some kind →
        kind.Leads (completed {} before) path (.number limits) →
        ∀ bound : Bound, m.document.toJson.at?
          (Fragment.keys (.property f.name :: path) ++ [.key bound.keyword])
            = (bound.of limits).map .number := by
  obtain ⟨decl, hdecl, hplaces⟩ := at?_of_perform h
  refine ⟨decl, hdecl, fun f hf kind limits path hkind hpath bound => ?_⟩
  obtain ⟨g, hat, hresolve⟩ := hplaces f hf kind _ path hkind hpath
  cases Kind.resolve_eq_ok_iff.mp hresolve
  have hdistinct := Document.distinct_body (compilable_of_perform h).distinct
  rw [Document.at?_toJson, Json.at?_append, Fragment.at?_keys hdistinct, hat, Option.map_some,
    Option.bind_some, Json.at?_cons, bound.child?_toJson ⟨rfl, rfl⟩]
  have hmoved : bound.of { limits with allowed := none } = bound.of limits := by cases bound <;> rfl
  rw [hmoved]
  cases bound.of limits <;> rfl

/-- **Which integer bounds stay the same.**  Wherever a number is declared with a bound that an
integer literal was read as, what is written at its place of the document denotes the same integer
just where it fits 64 bits, signed or unsigned, or is the shortest decimal of the float that was
read; and every integer below `10⁴¹` of at most eight significant digits is. -/
theorem bounds_kept (h : ((run {} before).perform op).1 = .declared (some m)) :
    ∃ decl, op.declaration? (run {} before) = some decl ∧
      ∀ f ∈ decl.fields, ∀ kind limits path, f.kind = some kind →
        kind.Leads (completed {} before) path (.number limits) →
        ∀ (bound : Bound) (num : Number) (text : List Char) (n : Int),
          bound.of limits = some num → SpellsInteger text n →
          Number.ofLiteral? text = some (some num) →
          ∃ written, m.document.toJson.at?
              (Fragment.keys (.property f.name :: path) ++ [.key bound.keyword]) = some written ∧
            (Denotes written.chars n ↔ (-2 ^ 63 ≤ n ∧ n < 2 ^ 64) ∨
              ∃ x, num = .float x ∧ x.shortest.quantity = n.natAbs) ∧
            ∀ digits zeros, digits < 10 ^ 8 → n.natAbs < 10 ^ 41 →
              n.natAbs = digits * 10 ^ zeros →
              Denotes written.chars n := by
  obtain ⟨decl, hdecl, hbounds⟩ := bound_of_perform h
  refine ⟨decl, hdecl, fun f hf kind limits path hkind hpath bound num text n hbound
    htext hnum => ⟨.number num, ?_, ?_, fun digits zeros hdigits hsize hn => ?_⟩⟩
  · rw [hbounds f hf kind limits path hkind hpath bound, hbound, Option.map_some]
  · exact Number.denotes_integer_iff htext hnum
  · exact Number.denotes_integer_of_digits htext hnum hdigits hn hsize

end Catalog

/-! ### Bounds that stay, and one that does not -/

/-- Bounds that are read from literals: the least integer of 64 bits, and `10²⁰`, a float. -/
def NumberLimits.wide : NumberLimits where
  minimum := (Number.ofLiteral? "-9223372036854775808".toList).join
  exclusiveMaximum := (Number.ofLiteral? "100000000000000000000".toList).join

/-- A bound that is read from a literal: `2⁶⁴ + 1`, a float. -/
def NumberLimits.beyond : NumberLimits where
  minimum := (Number.ofLiteral? "18446744073709551617".toList).join

/-- A number with such bounds. -/
def Declaration.Field.low (limits : NumberLimits) : Declaration.Field where
  name := "low"
  kind := some (.number limits)

/-- An object with such a number. -/
def Declaration.Object.range : Declaration.Object := ⟨"Range", [.low .wide]⟩

/-- A model with such objects in maps in a list. -/
def Declaration.Model.probe : Declaration.Model where
  name := "Probe"
  fields := [{ name := "ranges", kind := some (.arrayOf (.mapOf (.embedded "Range"))) }]

/-- A model with a number that is bounded beyond 64 bits. -/
def Declaration.Model.beyond : Declaration.Model where
  name := "Beyond"
  fields := [.low .beyond]

namespace Catalog

/-- Both bounds are written as they were declared. -/
theorem bounds_kept_probe : ∃ m low high,
    ((run {} [.object .range]).perform (.model .probe)).1 = .declared (some m) ∧
    m.document.toJson.at? [.key "properties", .key "ranges", .key "items", .key "patternProperties",
      .key ".+", .key "properties", .key "low", .key "minimum"] = some low ∧
    Denotes low.chars (-9223372036854775808) ∧
    m.document.toJson.at? [.key "properties", .key "ranges", .key "items", .key "patternProperties",
      .key ".+", .key "properties", .key "low", .key "exclusiveMaximum"] = some high ∧
    Denotes high.chars 100000000000000000000 := by
  obtain ⟨decl, hdecl, hbounds⟩ := @bounds_kept [.object .range] (.model .probe) _ rfl
  obtain rfl := Option.some.inj hdecl
  have hrange : Kind.Leads (completed {} [.object .range]) (.embedded "Range")
      [.property "low"] _ :=
    .field (d := .object .range) (f := .low .wide) (List.mem_singleton_self _)
      (List.mem_singleton_self _) rfl (.here (.number .wide))
  specialize hbounds _ (List.mem_singleton_self _) _ _ _ rfl (.items (.values hrange))
  have hminimum : SpellsInteger "-9223372036854775808".toList (-9223372036854775808) :=
    ⟨true, "9223372036854775808".toList, List.all_eq_true.mp (by decide +kernel), rfl,
      by decide +kernel⟩
  have hmaximum : SpellsInteger "100000000000000000000".toList 100000000000000000000 :=
    ⟨false, "100000000000000000000".toList, List.all_eq_true.mp (by decide +kernel), rfl,
      by decide +kernel⟩
  have hleast : Number.ofLiteral? "-9223372036854775808".toList
      = some (some (.integer (-9223372036854775808) (by decide) (by decide))) := by
    decide +kernel
  have hfloat : Number.ofLiteral? "100000000000000000000".toList
      = some (some (.float ⟨false, 1089, 1599915997629504⟩)) := by
    decide +kernel
  obtain ⟨low, hlow, hkept, -⟩ :=
    hbounds .minimum _ _ _ (by decide +kernel) hminimum hleast
  obtain ⟨high, hhigh, -, hdigits⟩ :=
    hbounds .exclusiveMaximum _ _ _ (by decide +kernel) hmaximum hfloat
  have hlow' := hkept.mpr (.inl (by decide))
  have hhigh' := hdigits 1 20 (by decide) (by decide) (by decide)
  exact ⟨_, low, high, rfl, hlow, by exact_mod_cast hlow', hhigh, by exact_mod_cast hhigh'⟩

/-- The least value was declared as `18446744073709551617`, and another is written. -/
theorem bounds_shifted : ∃ m written,
    ((run {} []).perform (.model .beyond)).1 = .declared (some m) ∧
    SpellsInteger "18446744073709551617".toList 18446744073709551617 ∧
    m.document.toJson.at? [.key "properties", .key "low", .key "minimum"] = some written ∧
    written.chars = "1.8446744073709552e+19".toList ∧
    ¬ Denotes written.chars 18446744073709551617 := by
  obtain ⟨decl, hdecl, hbounds⟩ := @bound_of_perform [] (.model .beyond) _ rfl
  obtain rfl := Option.some.inj hdecl
  have htext : SpellsInteger "18446744073709551617".toList 18446744073709551617 :=
    ⟨false, "18446744073709551617".toList, List.all_eq_true.mp (by decide +kernel), rfl,
      by decide +kernel⟩
  have hshortest : Binary64.shortest ⟨false, 1087, 0⟩ = ⟨18446744073709552, 3⟩ := by
    decide +kernel
  have hbound : Bound.minimum.of .beyond = some (.float ⟨false, 1087, 0⟩) := by
    decide +kernel
  have hwritten := hbounds _ (List.mem_singleton_self _) _ _ _ rfl (.here (.number .beyond))
    .minimum
  rw [hbound] at hwritten
  refine ⟨_, _, rfl, htext, hwritten, by decide +kernel, ?_⟩
  rw [Json.chars, Number.denotes_text_iff, Number.quantity, hshortest]
  norm_num [Decimal.quantity]

end Catalog

end Schemata

import Schemata.Kind.Resolve
import Schemata.Proofs.Lists

/-!
# Schemata — Proofs — Kind — Resolving

What a kind resolves to, and why it does not.  A kind that resolves has a fragment that is put
together from those of the kinds within it (`Kind.Resolves`), so what holds of the fragments of all
kinds is shown by induction on how they are put together.  A kind that does not resolve fails for
what is missing from the kind to which its items and values lead (`Kind.Fails`).

* `Kind.resolve_eq_ok_iff`, `Kind.resolve_eq_error_iff`: resolving does one or the other.
-/

namespace Schemata

variable {lookup : String → Lookup}

/-! ### Allowed values -/

theorem checkAllowed_eq_ok_iff {allowed checked : Option (List Value)} :
    checkAllowed allowed = .ok checked ↔ checked = allowed ∧ allowed ≠ some [] := by
  unfold checkAllowed
  split
  · simp
  · next hne => exact ⟨fun h => ⟨(Except.ok.inj h).symm, hne⟩, fun ⟨h, _⟩ => h ▸ rfl⟩

theorem checkAllowed_eq_error_iff {allowed : Option (List Value)} {cause : DeclarationError} :
    checkAllowed allowed = .error cause ↔ allowed = some [] ∧ cause = .noChoices := by
  unfold checkAllowed
  split
  · simp [eq_comm]
  · next hne => exact iff_of_false (by simp) fun h => hne h.1

namespace Kind

/-! ### Kinds that resolve -/

/-- A kind resolves to a fragment that is put together from those of the kinds within it. -/
inductive Resolves (lookup : String → Lookup) : Kind → Fragment → Prop where
  /-- Allowed values move from the bounds to the fragment. -/
  | string {limits : StringLimits} (h : limits.allowed ≠ some []) :
      Resolves lookup (.string limits)
        { Fragment.typed .string with
          allowed := limits.allowed
          stringLimits := { limits with allowed := none } }
  | number {limits : NumberLimits} (h : limits.allowed ≠ some []) :
      Resolves lookup (.number limits)
        { Fragment.typed .number with
          allowed := limits.allowed
          numberLimits := { limits with allowed := none } }
  | boolean : Resolves lookup .boolean (.typed .boolean)
  | date : Resolves lookup .date (.bson .date)
  | binary : Resolves lookup .binary (.bson .binData)
  | objectId : Resolves lookup .objectId (.bson .objectId)
  | any : Resolves lookup .any { bsonType := some (.many BsonKind.all) }
  | choice {values : List Value} (h : values ≠ []) :
      Resolves lookup (.choice values) { allowed := some values }
  | array (limits : ArrayLimits) {item : Kind} {f : Fragment} (h : Resolves lookup item f) :
      Resolves lookup (.array (some item) limits)
        { Fragment.typed .array with items := some f, arrayLimits := limits }
  | map (pattern : Option String) (limits : ObjectLimits) {value : Kind} {f : Fragment}
      (h : Resolves lookup value f) :
      Resolves lookup (.map (some value) pattern limits)
        { Fragment.typed .object with
          patternProperties := some [(pattern.getD anyKey, f)]
          additionalProperties := some false
          objectLimits := limits }
  /-- The properties of a declaration are taken over as they were resolved. -/
  | object (limits : ObjectLimits) {name : String} {shape : Shape}
      (h : lookup name = .found shape) :
      Resolves lookup (.object (some name) limits)
        { Fragment.closedObject shape.properties shape.required with objectLimits := limits }

theorem resolves_of_resolve : ∀ {kind : Kind} {f : Fragment},
    kind.resolve lookup = .ok f → kind.Resolves lookup f
  | .string limits, f, h | .number limits, f, h => by
      obtain ⟨checked, hchecked, hf⟩ := bind_eq_ok.mp h
      obtain ⟨rfl, hne⟩ := checkAllowed_eq_ok_iff.mp hchecked
      obtain rfl := Except.ok.inj hf
      constructor
      exact hne
  | .choice values, f, h => by
      obtain ⟨checked, hchecked, hf⟩ := bind_eq_ok.mp h
      obtain ⟨rfl, hne⟩ := checkAllowed_eq_ok_iff.mp hchecked
      obtain rfl := Except.ok.inj hf
      exact .choice fun hvalues => hne (congrArg some hvalues)
  | .boolean, f, h | .date, f, h | .binary, f, h | .objectId, f, h | .any, f, h => by
      obtain rfl := Except.ok.inj h
      constructor
  | .array none _, _, h | .object none _, _, h | .map none _ _, _, h => nomatch h
  | .array (some item) limits, f, h => by
      obtain ⟨g, hg, hf⟩ := bind_eq_ok.mp h
      obtain rfl := Except.ok.inj hf
      exact .array limits (resolves_of_resolve hg)
  | .map (some value) pattern limits, f, h => by
      obtain ⟨g, hg, hf⟩ := bind_eq_ok.mp h
      obtain rfl := Except.ok.inj hf
      exact .map pattern limits (resolves_of_resolve hg)
  | .object (some name) limits, f, h => by
      unfold resolve at h
      split at h
      · next shape hshape =>
          obtain rfl := Except.ok.inj h
          exact .object limits hshape
      · nomatch h
      · nomatch h

/-- **Resolving puts fragments together**, kind by kind. -/
theorem resolve_eq_ok_iff {kind : Kind} {f : Fragment} :
    kind.resolve lookup = .ok f ↔ kind.Resolves lookup f := by
  refine ⟨resolves_of_resolve, fun h => ?_⟩
  induction h with
  | string h | number h =>
      rw [resolve, checkAllowed_eq_ok_iff.mpr ⟨rfl, h⟩]
      rfl
  | choice h =>
      rw [resolve, checkAllowed_eq_ok_iff.mpr ⟨rfl, fun hvalues => h (Option.some.inj hvalues)⟩]
      rfl
  | boolean | date | binary | objectId | any => rfl
  | array limits _ ih | map pattern limits _ ih =>
      rw [resolve, ih]
      rfl
  | object limits h => rw [resolve, h]

/-! ### Kinds that do not resolve -/

/-- The kind that items and values lead to. -/
def innermost : Kind → Kind
  | .array (some item) _  => item.innermost
  | .map (some value) _ _ => value.innermost
  | kind                  => kind

/-- A kind without items or values leaves out what it cannot be resolved without. -/
inductive Fails (lookup : String → Lookup) : Kind → DeclarationError → Prop where
  | item (limits : ArrayLimits) : Fails lookup (.array none limits) .missingItem
  | value (pattern : Option String) (limits : ObjectLimits) :
      Fails lookup (.map none pattern limits) .missingValue
  | reference (limits : ObjectLimits) : Fails lookup (.object none limits) (.missingReference "")
  | pending {name : String} (limits : ObjectLimits) (h : lookup name = .pending) :
      Fails lookup (.object (some name) limits) (.cyclicReference name)
  | missing {name : String} (limits : ObjectLimits) (h : lookup name = .missing) :
      Fails lookup (.object (some name) limits) (.unknownObject name)
  | string {limits : StringLimits} (h : limits.allowed = some []) :
      Fails lookup (.string limits) .noChoices
  | number {limits : NumberLimits} (h : limits.allowed = some []) :
      Fails lookup (.number limits) .noChoices
  | choice : Fails lookup (.choice []) .noChoices

variable {cause : DeclarationError}

/-- **A kind fails to resolve as its innermost kind does.** -/
theorem resolve_eq_error_iff : ∀ {kind : Kind},
    kind.resolve lookup = .error cause ↔ Fails lookup kind.innermost cause
  | .string limits | .number limits => by
      rw [resolve]
      refine bind_ok_eq_error_iff.trans (checkAllowed_eq_error_iff.trans ⟨?_, ?_⟩)
      · rintro ⟨hnone, rfl⟩
        constructor
        exact hnone
      · rintro (_ | _ | _ | _ | _ | hnone | hnone)
        exact ⟨hnone, rfl⟩
  | .choice values => by
      rw [resolve]
      refine bind_ok_eq_error_iff.trans (checkAllowed_eq_error_iff.trans ⟨?_, ?_⟩)
      · rintro ⟨hvalues, rfl⟩
        obtain rfl := Option.some.inj hvalues
        exact .choice
      · rintro ⟨⟩
        exact ⟨rfl, rfl⟩
  | .boolean | .date | .binary | .objectId | .any => iff_of_false nofun nofun
  | .array none limits => ⟨fun h => Except.error.inj h ▸ .item limits, fun | .item _ => rfl⟩
  | .array (some item) _ => by
      rw [resolve, innermost]
      exact bind_ok_eq_error_iff.trans resolve_eq_error_iff
  | .map none pattern limits =>
      ⟨fun h => Except.error.inj h ▸ .value pattern limits, fun | .value _ _ => rfl⟩
  | .map (some value) _ _ => by
      rw [resolve, innermost]
      exact bind_ok_eq_error_iff.trans resolve_eq_error_iff
  | .object none limits =>
      ⟨fun h => Except.error.inj h ▸ .reference limits, fun | .reference _ => rfl⟩
  | .object (some name) limits => by
      rw [resolve]
      cases hlookup : lookup name with
      | found shape =>
          refine iff_of_false nofun ?_
          rintro (_ | _ | _ | ⟨-, h⟩ | ⟨-, h⟩) <;> nomatch hlookup.symm.trans h
      | pending =>
          refine ⟨fun h => Except.error.inj h ▸ .pending limits hlookup, ?_⟩
          rintro (_ | _ | _ | ⟨-, h⟩ | ⟨-, h⟩)
          · rfl
          · nomatch hlookup.symm.trans h
      | missing =>
          refine ⟨fun h => Except.error.inj h ▸ .missing limits hlookup, ?_⟩
          rintro (_ | _ | _ | ⟨-, h⟩ | ⟨-, h⟩)
          · nomatch hlookup.symm.trans h
          · rfl

theorem Fails.exists_limits {kind : Kind} {field : String}
    (h : Fails lookup kind (.missingReference field)) :
    field = "" ∧ ∃ limits, kind = .object none limits := by
  cases h with
  | reference limits => exact ⟨rfl, limits, rfl⟩

/-- What a kind fails with names no field, so each field says that the error is its own. -/
theorem Fails.inField {kind : Kind} (h : Fails lookup kind cause) (field : String) :
    cause.inField field =
      if cause = .missingReference "" then .missingReference field
      else .unresolved field cause := by
  cases h <;> rfl

end Kind

end Schemata

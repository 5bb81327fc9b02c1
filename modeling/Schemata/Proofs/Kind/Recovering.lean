import Schemata.Proofs.Catalog.References

/-!
# Schemata — Proofs — Kind — Recovering

A fragment tells the kind that it was resolved from.  Where no declaration is embedded, every bound,
every allowed value and every kind within has a place of its own in the fragment, and the fragment
is read back from there (`Fragment.origin?`).  All that is lost is whether a map left its key
pattern open or declared `.+` (`Kind.keyed`).

* `Kind.resolve_faithful`: kinds that resolve to the same fragment are the same.
-/

namespace Schemata

/-- The kind with a key pattern for every map, at any depth: `.+` where none is declared. -/
def Kind.keyed : Kind → Kind
  | .array (some item) limits        => .array (some item.keyed) limits
  | .map (some value) pattern limits =>
    .map (some value.keyed) (some (pattern.getD anyKey)) limits
  | .map none pattern limits         => .map none (some (pattern.getD anyKey)) limits
  | kind                             => kind

/-- The kind that a fragment was resolved from, if it is one that embeds no declaration. -/
def Fragment.origin? : Fragment → Option Kind
  | ⟨some .string, _, _, _, _, _, _, allowed, limits, _, _, _⟩ =>
    some (.string { limits with allowed })
  | ⟨some .number, _, _, _, _, _, _, allowed, _, limits, _, _⟩ =>
    some (.number { limits with allowed })
  | ⟨some .boolean, _, _, _, _, _, _, _, _, _, _, _⟩ => some .boolean
  | ⟨some .array, _, some item, _, _, _, _, _, _, _, limits, _⟩ =>
    item.origin?.map fun kind => .array (some kind) limits
  | ⟨some .object, _, _, _, some [(pattern, value)], _, _, _, _, _, _, limits⟩ =>
    value.origin?.map fun kind => .map (some kind) (some pattern) limits
  | ⟨none, some (.one .date), _, _, _, _, _, _, _, _, _, _⟩ => some .date
  | ⟨none, some (.one .binData), _, _, _, _, _, _, _, _, _, _⟩ => some .binary
  | ⟨none, some (.one .objectId), _, _, _, _, _, _, _, _, _, _⟩ => some .objectId
  | ⟨none, some (.many _), _, _, _, _, _, _, _, _, _, _⟩ => some .any
  | ⟨none, none, _, _, _, _, _, some values, _, _, _, _⟩ => some (.choice values)
  | _ => none

namespace Kind

variable {lookup lookup' : String → Lookup}

/-- Whether a map leaves its key pattern open makes no difference. -/
theorem resolve_keyed : ∀ kind : Kind, kind.keyed.resolve lookup = kind.resolve lookup
  | .string _ | .number _ | .choice _ => rfl
  | .boolean | .date | .binary | .objectId | .any => rfl
  | .array none _ | .object _ _ | .map none _ _ => rfl
  | .array (some item) _ => by rw [keyed, resolve, resolve, resolve_keyed item]
  | .map (some value) _ _ => by rw [keyed, resolve, resolve, resolve_keyed value, Option.getD_some]

/-- **A kind is recovered from its fragment**, whatever could be looked up. -/
theorem origin?_of_resolve {kind : Kind} {f : Fragment} (href : kind.reference? = none)
    (h : kind.resolve lookup = .ok f) : f.origin? = some kind.keyed := by
  rw [resolve_eq_ok_iff] at h
  induction h with
  | string | number | boolean | date | binary | objectId | any | choice => rfl
  | array _ _ ih | map _ _ _ ih =>
      rw [Fragment.typed, Fragment.origin?, ih href]
      rfl
  | object => nomatch href

/-- A kind that embeds no declaration resolves to the same wherever it is resolved. -/
theorem resolve_eq_of_reference? {kind : Kind} (h : kind.reference? = none)
    (lookup lookup' : String → Lookup) : kind.resolve lookup = kind.resolve lookup' :=
  resolve_congr fun name hname => by rw [h] at hname; nomatch hname

/-- **Resolving drops no constraint** of kinds that embed no declaration.  Such a kind can be told
from its fragment, but that a map with an open key pattern is one whose pattern is `.+`.  So two of
them have the same fragment, whatever each can look up, just where they are the same kind. -/
theorem resolve_faithful {kind kind' : Kind} (h : kind.reference? = none)
    (h' : kind'.reference? = none) {f f' : Fragment} (hf : kind.resolve lookup = .ok f)
    (hf' : kind'.resolve lookup' = .ok f') :
    f.origin? = some kind.keyed ∧ kind.keyed.resolve lookup' = .ok f ∧
      (f = f' ↔ kind.keyed = kind'.keyed) := by
  have horigin := origin?_of_resolve h hf
  have hkeyed : kind.keyed.resolve lookup' = .ok f := by
    rw [resolve_keyed, resolve_eq_of_reference? h lookup' lookup, hf]
  refine ⟨horigin, hkeyed, ?_, fun hsame => ?_⟩
  · rintro rfl
    exact Option.some.inj (horigin.symm.trans (origin?_of_resolve h' hf'))
  · rw [hsame, resolve_keyed, hf'] at hkeyed
    exact (Except.ok.inj hkeyed).symm

/-- Lists of maps, with bounds at each level and a choice of strings within. -/
def shelves (pattern : Option String) : Kind :=
  .array (some (.map (some (.string { maxLength := some 8, allowed := some [⟨.string "new", rfl⟩] }))
    pattern { minProperties := some 1 })) { uniqueItems := some true }

/-- An open key pattern is the same as `.+`, and as no other. -/
theorem resolve_faithful_shelves : ∃ f g,
    (shelves none).resolve (fun _ => .missing) = .ok f ∧
    (shelves (some ".+")).resolve (fun _ => .pending) = .ok f ∧
    (shelves (some "^a")).resolve (fun _ => .pending) = .ok g ∧
    f.origin? = some (shelves (some ".+")) ∧ f ≠ g := by
  obtain ⟨f, hf⟩ : ∃ f, (shelves none).resolve (fun _ => .missing) = .ok f := ⟨_, rfl⟩
  obtain ⟨g, hg⟩ : ∃ g, (shelves (some "^a")).resolve (fun _ => .pending) = .ok g := ⟨_, rfl⟩
  obtain ⟨horigin, hkeyed, hsame⟩ := resolve_faithful rfl rfl hf hg
  refine ⟨f, g, hf, hkeyed, hg, horigin, fun he => ?_⟩
  have hkeys := hsame.mp he
  simp [shelves, keyed, anyKey] at hkeys

end Kind

end Schemata

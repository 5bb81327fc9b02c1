import Mathlib.Data.List.Sort
import Schemata.Proofs.Json.Content
import Schemata.Proofs.Json.Record

/-!
# Schemata — Proofs — Json — Places

The places of a value.  A path of keys and positions leads to a value in it, of a repeated key to
the last (`Json.at?`); bringing a value into canonical form does so at every place
(`Json.at?_canonical`).  Two objects have the same canonical form just where they have the same at
every key (`Json.canonical_object_eq_iff`), and two records where they have it in every slot
(`Json.canonical_given_eq_iff`).
-/

namespace Schemata

namespace Json

/-- A step into a value: to what is given for a key, or to an item. -/
inductive Step where
  | key (name : String)
  | index (position : Nat)
deriving DecidableEq, Repr

/-- Where a step leads. -/
def child? : Json → Step → Option Json
  | .object members, .key name   => (valuesOf members name).getLast?
  | .array items, .index position => items[position]?
  | _, _                          => none

/-- Where a path leads. -/
def at? : Json → List Step → Option Json
  | j, []        => some j
  | j, s :: path => (j.child? s).bind fun inner => inner.at? path

variable {j : Json} {s : Step} {path : List Step} {members members' : List (String × Json)}

@[simp] theorem at?_nil : j.at? [] = some j := rfl

theorem at?_cons : j.at? (s :: path) = (j.child? s).bind fun inner => inner.at? path := rfl

/-- A path is followed to where another goes on. -/
theorem at?_append (j : Json) (path more : List Step) :
    j.at? (path ++ more) = (j.at? path).bind fun inner => inner.at? more := by
  induction path generalizing j with
  | nil => rfl
  | cons s path ih =>
      rw [List.cons_append, at?_cons, at?_cons, Option.bind_assoc]
      exact congrArg _ (funext ih)

/-! ### Places of a value in canonical form -/

/-- Items are brought into canonical form one by one. -/
theorem canonicalItems_eq_map (items : List Json) : canonicalItems items = items.map canonical := by
  induction items with
  | nil => rfl
  | cons j rest ih => rw [canonicalItems, List.map_cons, ih]

/-- What a step leads to in canonical form is the canonical form of what it leads to. -/
theorem child?_canonical (j : Json) (s : Step) :
    j.canonical.child? s = (j.child? s).map canonical := by
  cases j with
  | object members =>
      cases s with
      | key name =>
          simp only [canonical, child?, valuesOf_sortMembers, valuesOf_canonicalMembers,
            List.getLast?_map]
          cases (valuesOf members name).getLast? <;> rfl
      | index position => rfl
  | array items =>
      cases s with
      | key name => rfl
      | index position => simp only [canonical, child?, canonicalItems_eq_map, List.getElem?_map]
  | _ => rfl

/-- So it is for a path. -/
theorem at?_canonical (j : Json) (path : List Step) :
    j.canonical.at? path = (j.at? path).map canonical := by
  induction path generalizing j with
  | nil => rfl
  | cons s path ih =>
      rw [at?_cons, at?_cons, child?_canonical, Option.bind_map, Option.map_bind]
      exact congrArg _ (funext ih)

/-! ### Values without keys -/

/-- No place of a value has a key. -/
def Keyless (j : Json) : Prop := ∀ path name, j.at? (path ++ [.key name]) = none

/-- A value without children has no keys. -/
theorem keyless_of_child? (h : ∀ s, j.child? s = none) : j.Keyless := by
  intro path name
  cases path <;> simp [at?_cons, h]

/-- An array has no keys if its items have none. -/
theorem keyless_array {items : List Json} (h : ∀ inner ∈ items, inner.Keyless) :
    (array items).Keyless := by
  intro path name
  match path with
  | [] => rfl
  | .key _ :: _ => rfl
  | .index position :: path =>
      rw [List.cons_append, at?_cons, child?]
      cases hitem : items[position]? with
      | none => rfl
      | some inner => exact h inner (List.mem_of_getElem? hitem) path name

theorem keyless_strings (names : List String) : (strings names).Keyless := by
  refine keyless_array fun inner hinner => ?_
  obtain ⟨name, -, rfl⟩ := List.mem_map.mp hinner
  exact keyless_of_child? fun _ => rfl

/-! ### Objects of the same canonical form -/

/-- Members in order are determined by what is given for each key. -/
theorem eq_of_valuesOf_eq (h : members.Pairwise (·.1 < ·.1)) (h' : members'.Pairwise (·.1 < ·.1))
    (heq : ∀ name, valuesOf members name = valuesOf members' name) : members = members' := by
  have hirrefl : Std.Irrefl fun m n : String × Json => m.1 < n.1 := ⟨fun m => lt_irrefl m.1⟩
  have hantisymm : Std.Antisymm fun m n : String × Json => m.1 < n.1 :=
    ⟨fun m n hmn hnm => absurd (lt_trans hmn hnm) (lt_irrefl m.1)⟩
  refine h.eq_of_mem_iff h' fun m => ?_
  rw [← @mem_valuesOf m.1 members m.2, ← @mem_valuesOf m.1 members' m.2, heq]

/-- **Objects have the same canonical form if they have it at every key.** -/
theorem canonical_object_eq_iff : (object members).canonical = (object members').canonical ↔
    ∀ name, ((object members).child? (.key name)).map canonical
      = ((object members').child? (.key name)).map canonical := by
  constructor
  · intro h name
    rw [← child?_canonical, ← child?_canonical, h]
  · intro h
    have hsorted : ∀ name, valuesOf (sortMembers (canonicalMembers members)) name
        = valuesOf (sortMembers (canonicalMembers members')) name := by
      intro name
      have hname := h name
      simp only [child?] at hname
      rw [valuesOf_sortMembers, valuesOf_sortMembers, valuesOf_canonicalMembers,
        valuesOf_canonicalMembers, List.getLast?_map, List.getLast?_map, hname]
    exact congrArg object
      (eq_of_valuesOf_eq (pairwise_sortMembers _) (pairwise_sortMembers _) hsorted)

/-! ### Records -/

variable {keys : List String} {slots slots' : List (Option Json)}

/-- A key of a record leads to what its slot holds. -/
theorem map_child?_given (hkeys : keys.Nodup) (hlen : keys.length = slots.length) :
    keys.map (fun k => (object (given keys slots)).child? (.key k)) = slots := by
  have h := congrArg (List.map List.getLast?) (map_valuesOf_given hkeys hlen)
  rw [List.map_map, List.map_map] at h
  refine h.trans ?_
  rw [List.map_congr_left fun slot _ => show (List.getLast? ∘ Option.toList) slot = id slot by
    cases slot <;> rfl, List.map_id]

/-- Each slot is the child of its key. -/
theorem zip_slots (hkeys : keys.Nodup) (hlen : keys.length = slots.length) :
    keys.zip slots = keys.map fun k => (k, (object (given keys slots)).child? (.key k)) := by
  rw [List.map_prod_left_eq_zip, map_child?_given hkeys hlen]

/-- The child of a key is what fills its slot. -/
theorem child?_given_of_mem (hkeys : keys.Nodup) (hlen : keys.length = slots.length) {k : String}
    {slot : Option Json} (h : (k, slot) ∈ keys.zip slots) :
    (object (given keys slots)).child? (.key k) = slot := by
  rw [zip_slots hkeys hlen] at h
  obtain ⟨k', -, hk'⟩ := List.mem_map.mp h
  obtain ⟨rfl, hslot⟩ := Prod.mk.inj hk'
  exact hslot

/-- A child of a key fills a slot. -/
theorem mem_zip_of_child?_given (hkeys : keys.Nodup) (hlen : keys.length = slots.length)
    {k : String} (h : (object (given keys slots)).child? (.key k) = some j) :
    (k, some j) ∈ keys.zip slots := by
  rw [zip_slots hkeys hlen]
  refine List.mem_map.mpr ⟨k, Classical.byContradiction fun hk => ?_, by rw [h]⟩
  simp [child?, valuesOf_given_of_notMem hk] at h

/-- **Records have the same canonical form if they have it in every slot.** -/
theorem canonical_given_eq_iff (hkeys : keys.Nodup) (hlen : keys.length = slots.length)
    (hlen' : keys.length = slots'.length) :
    (object (given keys slots)).canonical = (object (given keys slots')).canonical ↔
      slots.map (·.map canonical) = slots'.map (·.map canonical) := by
  have hslots : ∀ {slots : List (Option Json)}, keys.length = slots.length →
      slots.map (·.map canonical)
        = keys.map fun k => ((object (given keys slots)).child? (.key k)).map canonical := by
    intro slots hlen
    conv_lhs => rw [← map_child?_given hkeys hlen, List.map_map]
    rfl
  rw [canonical_object_eq_iff, hslots hlen, hslots hlen', List.map_inj_left]
  refine ⟨fun h k _ => h k, fun h k => ?_⟩
  by_cases hk : k ∈ keys
  · exact h k hk
  · simp only [child?, valuesOf_given_of_notMem hk]

end Json

end Schemata

import Schemata.Proofs.Path
import Schemata.Store.Location

/-!
# Schemata — Proofs — Store — Locating

The location of a path that does not start with `file:`.  The path is taken as it is, as the bytes
of its text, and the names that the bytes lead through are the pieces of the path
(`Location.names_plain`): in the bytes of a text only a slash has the byte of a slash.
-/

namespace Schemata

open String (utf8EncodeChar)

/-! ### The byte of a slash -/

/-- Only a slash has the byte of a slash among its bytes. -/
theorem slash_not_mem {c : Char} (h : c ≠ '/') : slash ∉ utf8EncodeChar c := by
  have hc : c.val.toNat ≠ 47 := fun he => h (Char.ext (UInt32.toNat_inj.mp he))
  have hslash : ∀ n, slash = UInt8.ofNat n ↔ n % 256 = 47 := by
    intro n
    rw [← UInt8.toNat_inj, eq_comm, UInt8.toNat_ofNat']
    rfl
  rw [String.utf8EncodeChar.eq_1]
  split_ifs <;> simp only [List.mem_cons, List.not_mem_nil, or_false, hslash] <;> omega

/-! ### The names of a path -/

namespace FileName

/-- A byte that is no slash is put before the first piece. -/
theorem cut_cons {b : UInt8} (hb : b ≠ slash) {bytes piece : List UInt8}
    {later : List (List UInt8)} (h : cut bytes = piece :: later) :
    cut (b :: bytes) = (b :: piece) :: later := by
  unfold cut at h ⊢
  rw [List.foldr_cons, h, if_neg hb]

/-- So are several. -/
theorem cut_append {front bytes piece : List UInt8} {later : List (List UInt8)}
    (hfront : slash ∉ front) (h : cut bytes = piece :: later) :
    cut (front ++ bytes) = (front ++ piece) :: later := by
  induction front with
  | nil => exact h
  | cons b rest ih =>
      rw [List.mem_cons, not_or] at hfront
      exact cut_cons (Ne.symm hfront.1) (ih hfront.2)

/-- The bytes of a text are cut where the text is. -/
theorem cut_flatMap (text : List Char) :
    cut (text.flatMap utf8EncodeChar) = (piecesAt '/' text).map (·.flatMap utf8EncodeChar) := by
  induction text with
  | nil => rfl
  | cons c rest ih =>
      rw [List.flatMap_cons, piecesAt]
      by_cases hc : c = '/'
      · subst hc
        rw [if_pos rfl, List.map_cons, ← ih]
        rfl
      · obtain ⟨piece, later, hpieces⟩ := List.exists_cons_of_ne_nil (piecesAt_ne_nil '/' rest)
        rw [hpieces] at ih
        rw [if_neg hc, hpieces, cut_append (slash_not_mem hc) ih]
        rfl

/-- The bytes of a path of text lead through its pieces. -/
theorem namesOf_toUTF8 (path : String) : namesOf path.toUTF8.toList = Path.pieces path := by
  rw [namesOf, toList_toUTF8, cut_flatMap, List.map_map]
  exact List.map_congr_left fun piece _ => ofBytes_flatMap piece

end FileName

namespace Location

/-- The location of a path that is taken as it is. -/
def plain (path : String) : Location := { path := path.toUTF8.toList }

/-- A path that does not start like a URI is taken as it is. -/
theorem ofPath?_plain {path : String} (h : ¬ "file:".toList <+: path.toList) :
    ofPath? path = some (plain path) := by
  unfold ofPath?
  split
  · next text htext => exact absurd ⟨text, htext.symm⟩ h
  · rfl

/-- The names of such a location are the pieces of the path. -/
theorem names_plain (path : String) : (plain path).names = Path.pieces path :=
  FileName.namesOf_toUTF8 path

theorem isAbsolute_plain (path : String) : (plain path).isAbsolute = Path.isAbsolute path := by
  unfold isAbsolute Path.isAbsolute plain
  rw [toList_toUTF8]
  cases path.toList with
  | nil => rfl
  | cons c rest =>
      by_cases hc : c = '/'
      · subst hc
        rfl
      · obtain ⟨b, later, hbytes⟩ := List.exists_cons_of_ne_nil (@String.utf8EncodeChar_ne_nil c)
        have hb : b ≠ slash := fun he => slash_not_mem hc (by rw [hbytes, he]; simp)
        simp [hbytes, hb, hc]

end Location

end Schemata

import Mathlib.Data.List.Basic
import Mathlib.Tactic.SplitIfs

/-!
# Schemata — Proofs — Text — Bytes

The bytes of a text are those of its characters, one after another (`toList_toUTF8`).  Of two
characters the lesser has the lesser bytes, so texts are in the order of their bytes
(`lt_iff_toUTF8_lt`, `le_iff_toUTF8_le`): names that are sorted as texts are sorted by their bytes.
-/

namespace Schemata

open String (utf8EncodeChar)

/-! ### The bytes of a text -/

/-- Bytes are listed from a place on, behind those before it. -/
theorem toList_loop (bs : ByteArray) (i : Nat) (r : List UInt8) :
    ByteArray.toList.loop bs i r = r.reverse ++ bs.data.toList.drop i := by
  fun_induction ByteArray.toList.loop bs i r with
  | case1 i r h ih =>
      have hlt : i < bs.data.toList.length := by simpa using h
      rw [ih, List.drop_eq_getElem_cons hlt]
      simp [ByteArray.get!, h]
  | case2 i r h =>
      have hle : bs.data.toList.length ≤ i := by simpa using h
      rw [List.drop_eq_nil_of_le hle, List.append_nil]

/-- The bytes of a text are those of its characters, one after another. -/
theorem toList_toUTF8 (s : String) : s.toUTF8.toList = s.toList.flatMap utf8EncodeChar := by
  have hbytes : s.toUTF8 = s.toList.utf8Encode := by
    rw [← String.toByteArray_ofList, String.ofList_toList]
    rfl
  rw [hbytes, ByteArray.toList, toList_loop]
  simp [List.utf8Encode]

/-! ### Their order -/

theorem toNat_val_lt (c : Char) : c.val.toNat < 0x110000 := by
  rcases c.valid with h | ⟨-, h⟩
  · exact Nat.lt_trans h (by decide)
  · exact h

/-- Of two characters the lesser has the lesser bytes, whatever comes behind them. -/
theorem utf8EncodeChar_append_lt {c d : Char} (h : c < d) (x y : List UInt8) :
    utf8EncodeChar c ++ x < utf8EncodeChar d ++ y := by
  have hlt : c.val.toNat < d.val.toNat := h
  have hd : d.val.toNat < 0x110000 := toNat_val_lt d
  -- the bytes behind the first have six binary digits each
  have hsquare : ∀ k : Nat, k / 4096 = k / 64 / 64 := fun k => by omega
  have hcube : ∀ k : Nat, k / 262144 = k / 64 / 64 / 64 := fun k => by omega
  rw [String.utf8EncodeChar.eq_1, String.utf8EncodeChar.eq_1]
  generalize c.val.toNat = m at hlt
  generalize d.val.toNat = n at hlt hd
  split_ifs <;> simp only [List.cons_append, List.nil_append, List.cons_lt_cons_iff,
    UInt8.lt_iff_toNat_lt, ← UInt8.toNat_inj, UInt8.toNat_ofNat', hsquare, hcube] <;> omega

/-- Characters in order are bytes in order. -/
theorem flatMap_utf8EncodeChar_lt {a b : List Char} (h : a < b) :
    a.flatMap utf8EncodeChar < b.flatMap utf8EncodeChar := by
  induction h with
  | @nil c rest =>
      obtain ⟨byte, bytes, hc⟩ := List.exists_cons_of_ne_nil (String.utf8EncodeChar_ne_nil (c := c))
      rw [List.flatMap_nil, List.flatMap_cons, hc]
      exact List.nil_lt_cons _ _
  | rel h => exact utf8EncodeChar_append_lt h _ _
  | cons _ ih => exact List.append_left_lt ih

/-- Texts are in the order of their bytes. -/
theorem lt_iff_toUTF8_lt {s t : String} : s < t ↔ s.toUTF8.toList < t.toUTF8.toList := by
  rw [toList_toUTF8, toList_toUTF8]
  refine ⟨flatMap_utf8EncodeChar_lt, fun h => ?_⟩
  rcases Decidable.em (s < t) with hst | hst
  · exact hst
  rcases Decidable.em (t < s) with hts | hts
  · exact absurd (List.lt_trans h (flatMap_utf8EncodeChar_lt hts)) (List.lt_irrefl _)
  · obtain rfl := String.le_antisymm (String.not_lt.mp hts) (String.not_lt.mp hst)
    exact absurd h (List.lt_irrefl _)

/-- So it is for the order that lets texts be the same. -/
theorem le_iff_toUTF8_le {s t : String} : s ≤ t ↔ s.toUTF8.toList ≤ t.toUTF8.toList := by
  rw [← String.not_lt, lt_iff_toUTF8_lt]
  exact List.not_lt

end Schemata

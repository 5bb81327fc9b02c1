import Schemata.Path
import Schemata.Proofs.Text.Bytes

/-!
# Schemata — Proofs — FileTree — Name

The names that a file system gives (`FileName.IsProper`).  Whatever bytes they are made of, the name
keeps them (`FileName.bytes_ofBytes`), so two names with the same bytes are the same.  Any bytes
without a slash are the bytes of such a name, if they are not none or too many and do not stay or
lead up (`FileName.isProper_ofBytes`).
-/

namespace Schemata

open String (utf8EncodeChar)

namespace FileName

/-! ### Digits -/

/-- A digit has the value that it was written for. -/
theorem digitValue_digitChar : ∀ n < 16, digitValue (Nat.digitChar n) = n := by decide

/-- Bytes that were written as digits are read again. -/
theorem ofDigits_digits (bytes : List UInt8) : ofDigits (bytes.flatMap digits) = bytes := by
  induction bytes with
  | nil => rfl
  | cons b rest ih =>
      have hb : b.toNat < 256 := b.toNat_lt
      have hvalue : 16 * digitValue (Nat.digitChar (b.toNat / 16))
          + digitValue (Nat.digitChar (b.toNat % 16)) = b.toNat := by
        rw [digitValue_digitChar _ (by omega), digitValue_digitChar _ (by omega)]
        omega
      change UInt8.ofNat _ :: ofDigits (rest.flatMap digits) = b :: rest
      rw [hvalue, ih, UInt8.ofNat_toNat]

/-! ### Bytes of a name -/

/-- A text that bytes are read as has those bytes. -/
theorem toList_toUTF8_of_fromUTF8? {bytes : List UInt8} {s : String}
    (h : String.fromUTF8? ⟨bytes.toArray⟩ = some s) : s.toUTF8.toList = bytes := by
  unfold String.fromUTF8? at h
  split at h
  · obtain rfl := Option.some.inj h
    change ByteArray.toList ⟨bytes.toArray⟩ = bytes
    rw [ByteArray.toList, toList_loop]
    rfl
  · nomatch h

/-- **A name keeps its bytes.** -/
theorem bytes_ofBytes {bytes : List UInt8} (h : slash ∉ bytes) :
    FileName.bytes (ofBytes bytes) = bytes := by
  unfold ofBytes
  cases htext : String.fromUTF8? ⟨bytes.toArray⟩ with
  | none =>
      rw [Option.getD_none, FileName.bytes, if_neg, String.toList_ofList, List.drop_one,
        List.tail_cons, ofDigits_digits]
      rw [isText, String.toList_ofList]
      simp
  | some s =>
      have hbytes := toList_toUTF8_of_fromUTF8? htext
      rw [Option.getD_some, FileName.bytes, if_pos, hbytes]
      -- a text that starts with the mark has the byte of a slash
      refine decide_eq_true fun hmark => h ?_
      rw [← hbytes, toList_toUTF8]
      exact List.mem_flatMap.mpr ⟨mark, List.mem_of_mem_head? hmark, by decide⟩

/-- The bytes of characters are those of their text. -/
theorem ofBytes_flatMap (text : List Char) :
    ofBytes (text.flatMap utf8EncodeChar) = String.ofList text := by
  have hbytes : (⟨(text.flatMap utf8EncodeChar).toArray⟩ : ByteArray) = text.utf8Encode := by
    rw [ByteArray.ext_iff]
    simp [List.utf8Encode]
  rw [ofBytes, hbytes, ← String.toByteArray_ofList, String.fromUTF8?,
    dif_pos (String.ofList text).isValidUTF8]
  rfl

/-! ### Names that a file system gives -/

/-- The names that a file system gives: each stands for its bytes, is not empty, neither stays nor
leads up, and has no slash and not too many bytes. -/
structure IsProper (name : String) : Prop where
  ofBytes : ofBytes (bytes name) = name
  ne_empty : name ≠ ""
  ne_current : name ≠ Path.current
  ne_parent : name ≠ Path.parent
  noSlash : slash ∉ bytes name
  size : size name ≤ longestName

instance (name : String) : Decidable (IsProper name) :=
  decidable_of_iff (FileName.ofBytes (bytes name) = name ∧ name ≠ "" ∧ name ≠ Path.current ∧
      name ≠ Path.parent ∧ slash ∉ bytes name ∧ size name ≤ longestName)
    ⟨fun ⟨h₁, h₂, h₃, h₄, h₅, h₆⟩ => ⟨h₁, h₂, h₃, h₄, h₅, h₆⟩,
      fun h => ⟨h.ofBytes, h.ne_empty, h.ne_current, h.ne_parent, h.noSlash, h.size⟩⟩

/-- Names with the same bytes are the same. -/
theorem IsProper.eq_of_bytes {a b : String} (ha : IsProper a) (hb : IsProper b)
    (h : bytes a = bytes b) : a = b := by
  rw [← ha.ofBytes, h, hb.ofBytes]

/-- Any bytes that can be those of a name make a proper one. -/
theorem isProper_ofBytes {bytes : List UInt8} (hne : bytes ≠ []) (hslash : slash ∉ bytes)
    (hsize : bytes.length ≤ longestName) (hcurrent : FileName.ofBytes bytes ≠ Path.current)
    (hparent : FileName.ofBytes bytes ≠ Path.parent) : IsProper (FileName.ofBytes bytes) := by
  have hbytes := bytes_ofBytes hslash
  refine ⟨by rw [hbytes], fun hempty => hne ?_, hcurrent, hparent, by rwa [hbytes], ?_⟩
  · rw [← hbytes, hempty]
    decide +kernel
  · rwa [FileName.size, hbytes]

end FileName

end Schemata

/-!
# Schemata — Text — Lossy

The text of bytes that need not be one. What is no character is replaced: a byte that none can start
with, or the longest part of one that starts but is not finished.
-/

namespace Schemata

/-- What stands for bytes that are no character. -/
def replacement : Char := '\uFFFD'

/-- A character whose first bytes were read: their bits, how many bytes are to come, and the least
and the greatest that the next can be. -/
structure Begun where
  bits : Nat
  missing : Nat
  least : UInt8 := 0x80
  greatest : UInt8 := 0xBF

namespace Begun

/-- What a byte starts: a character, a part of one, or nothing. -/
def start (b : UInt8) : Option (Char ⊕ Begun) :=
  if b < 0x80 then some (.inl (Char.ofNat b.toNat))
  else if b < 0xC2 then none
  else if b < 0xE0 then some (.inr ⟨b.toNat - 0xC0, 1, 0x80, 0xBF⟩)
  -- no character has more bytes than it needs, none is a surrogate, and none is beyond the last
  else if b = 0xE0 then some (.inr ⟨0, 2, 0xA0, 0xBF⟩)
  else if b = 0xED then some (.inr ⟨0xD, 2, 0x80, 0x9F⟩)
  else if b < 0xF0 then some (.inr ⟨b.toNat - 0xE0, 2, 0x80, 0xBF⟩)
  else if b = 0xF0 then some (.inr ⟨0, 3, 0x90, 0xBF⟩)
  else if b = 0xF4 then some (.inr ⟨4, 3, 0x80, 0x8F⟩)
  else if b < 0xF4 then some (.inr ⟨b.toNat - 0xF0, 3, 0x80, 0xBF⟩)
  else none

/-- What one more byte makes of a character that was begun: the whole, or more of it. -/
def next (s : Begun) (b : UInt8) : Option (Char ⊕ Begun) :=
  if b < s.least || s.greatest < b then none
  else
    let bits := 64 * s.bits + (b.toNat - 0x80)
    if s.missing = 1 then some (.inl (Char.ofNat bits))
    else some (.inr ⟨bits, s.missing - 1, 0x80, 0xBF⟩)

end Begun

/-- The characters of bytes, where one may have been begun. -/
def lossyFrom : Option Begun → List UInt8 → List Char
  | none, []         => []
  | some _, []       => [replacement]
  | begun, b :: rest =>
    match begun.bind (·.next b) with
    | some (.inl c) => c :: lossyFrom none rest
    | some (.inr s) => lossyFrom (some s) rest
    | none =>
      -- what was begun ends here, and the byte may start a character
      let before := if begun.isSome then [replacement] else []
      match Begun.start b with
      | some (.inl c) => before ++ c :: lossyFrom none rest
      | some (.inr s) => before ++ lossyFrom (some s) rest
      | none          => before ++ replacement :: lossyFrom none rest

/-- The text of bytes; what is no character is replaced. -/
def lossy (bytes : List UInt8) : String :=
  (String.fromUTF8? ⟨bytes.toArray⟩).getD (String.ofList (lossyFrom none bytes))

end Schemata

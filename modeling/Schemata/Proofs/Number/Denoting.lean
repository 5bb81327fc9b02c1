import Schemata.Proofs.Number.Reading
import Schemata.Proofs.Number.Scaling
import Schemata.Proofs.Number.Significant

/-!
# Schemata — Proofs — Number — Denoting

What becomes of an integer that is read and written again.  A written number denotes what the number
is (`Number.denotes_text_iff`).  An integer literal is read as the integer if that fits 64 bits,
signed or unsigned, and else as a float, of which another integer may be written: so what is written
denotes the same integer just where it fits, or is the shortest decimal of the float
(`Number.denotes_integer_iff`), as every integer of at most eight significant digits below `10⁴¹` is
(`Number.denotes_integer_of_digits`).
-/

namespace Schemata

namespace Literal

/-- The text is a literal, and it denotes the number. -/
def Denotes (text : List Char) (q : ℚ) : Prop := ∃ l, ofChars? text = some l ∧ l.quantity = q

/-- The text is a sign or none and digits, and these are the integer. -/
def SpellsInteger (text : List Char) (n : Int) : Prop :=
  ∃ (negative : Bool) (ds : List Char), (∀ c ∈ ds, c.isDigit = true) ∧
    text = (if negative then ['-'] else []) ++ ds ∧
    n = if negative then -(Nat.ofDigitChars 10 ds 0 : Int) else Nat.ofDigitChars 10 ds 0

/-- The parts of such a text are its sign and its digits. -/
theorem eq_of_ofChars?_digits {negative : Bool} {ds : List Char} {l : Literal}
    (hds : ∀ c ∈ ds, c.isDigit = true)
    (h : ofChars? ((if negative then ['-'] else []) ++ ds) = some l) :
    l = ⟨negative, ds, none, none⟩ := by
  unfold ofChars? at h
  split at h
  next negative' unsigned hsign =>
  obtain ⟨rfl, rfl⟩ : negative' = negative ∧ unsigned = ds := by
    cases negative with
    | true => exact (Prod.mk.inj hsign).imp Eq.symm Eq.symm
    | false =>
        split at hsign
        -- no digit is a sign
        · next r hr =>
            obtain rfl : ds = '-' :: r := hr
            nomatch hds '-' List.mem_cons_self
        · exact (Prod.mk.inj hsign).imp Eq.symm Eq.symm
  have hnone : NoDigitFirst [] := nofun
  have htake := takeWhile_digits hds hnone
  have hdrop := dropWhile_digits hds hnone
  rw [List.append_nil] at htake hdrop
  simp only [htake, hdrop] at h
  split at h
  · exact (Option.some.inj h).symm
  · nomatch h

end Literal

namespace Number

open Literal (Denotes SpellsInteger)

/-- **A written number denotes what the number is.** -/
theorem denotes_text_iff (num : Number) (q : ℚ) : Denotes num.text q ↔ num.quantity = q := by
  obtain ⟨l, htext, hwf, -, hquantity⟩ := num.exists_literal
  unfold Denotes
  rw [htext, Literal.ofChars?_text hwf, ← hquantity]
  exact ⟨fun ⟨_, hl, h⟩ => Option.some.inj hl ▸ h, fun h => ⟨l, rfl, h⟩⟩

variable {text : List Char} {n : Int} {num : Number}

/-- What an integer literal is read as: the integer itself, which then fits, or a float of its sign
that the digits are read as, which then do not fit or are those of zero. -/
theorem integer_cases (h : SpellsInteger text n) (hnum : ofLiteral? text = some (some num)) :
    ((-2 ^ 63 ≤ n ∧ n < 2 ^ 64) ∧ num.quantity = n) ∨
    ((n = 0 ∨ n < -2 ^ 63 ∨ 2 ^ 64 ≤ n) ∧
      ∃ x ds, num = .float x ∧ (∀ c ∈ ds, c.isDigit = true) ∧
        Nat.ofDigitChars 10 ds 0 = n.natAbs ∧
        Literal.float? ⟨x.negative, ds, none, none⟩ = some x ∧
        n = if x.negative then -(n.natAbs : Int) else n.natAbs) := by
  obtain ⟨negative, ds, hds, rfl, rfl⟩ := h
  obtain ⟨l, hl, hvalue⟩ := Option.map_eq_some_iff.mp hnum
  obtain rfl := Literal.eq_of_ofChars?_digits hds hl
  have hfloat : (Literal.float? ⟨negative, ds, none, none⟩).map .float = some num →
      ∃ x, num = .float x ∧ x.negative = negative ∧
        Literal.float? ⟨x.negative, ds, none, none⟩ = some x := by
    intro hsome
    obtain ⟨x, hx, rfl⟩ := Option.map_eq_some_iff.mp hsome
    obtain ⟨_, _, _, -, rfl, -⟩ := Literal.exists_scaled?_of_float? hds hx
    exact ⟨_, rfl, rfl, hx⟩
  rw [Literal.valueBy?, if_neg (by simp)] at hvalue
  cases negative with
  | true =>
      simp only [if_true] at hvalue ⊢
      split at hvalue
      · obtain rfl := Option.some.inj hvalue
        exact .inl ⟨by omega, rfl⟩
      · obtain ⟨x, rfl, hsign, hx⟩ := hfloat hvalue
        exact .inr ⟨by omega, x, ds, rfl, hds, by simp, hx, by simp [hsign]⟩
  | false =>
      simp only [Bool.false_eq_true, if_false] at hvalue ⊢
      split at hvalue
      · obtain rfl := Option.some.inj hvalue
        exact .inl ⟨by omega, rfl⟩
      · obtain ⟨x, rfl, hsign, hx⟩ := hfloat hvalue
        exact .inr ⟨by omega, x, ds, rfl, hds, by simp, hx, by simp [hsign]⟩

/-- A float is an integer of its sign if its shortest decimal is. -/
theorem quantity_float_eq_iff {x : Binary64}
    (hsign : n = if x.negative then -(n.natAbs : Int) else n.natAbs) :
    quantity (.float x) = n ↔ x.shortest.quantity = n.natAbs := by
  rw [quantity]
  split at hsign
  · next hnegative =>
      have hn : (n : ℚ) = ((-(n.natAbs : Int) : Int) : ℚ) := congrArg _ hsign
      rw [Int.cast_neg, Int.cast_natCast] at hn
      rw [if_pos hnegative, hn, neg_inj]
  · next hpositive =>
      have hn : (n : ℚ) = ((n.natAbs : Int) : ℚ) := congrArg _ hsign
      rw [Int.cast_natCast] at hn
      rw [if_neg hpositive, hn]

/-- **When an integer stays the same**: it fits 64 bits, signed or unsigned, or it is the shortest
decimal of the float that it is read as. -/
theorem denotes_integer_iff (h : SpellsInteger text n)
    (hnum : ofLiteral? text = some (some num)) :
    Denotes num.text n ↔ (-2 ^ 63 ≤ n ∧ n < 2 ^ 64) ∨
      ∃ x, num = .float x ∧ x.shortest.quantity = n.natAbs := by
  rw [denotes_text_iff]
  rcases integer_cases h hnum with ⟨hfits, hsame⟩ | ⟨hout, x, ds, rfl, hds, hn, hx, hsign⟩
  · exact iff_of_true hsame (.inl hfits)
  · rw [quantity_float_eq_iff hsign]
    refine ⟨fun hsame => .inr ⟨x, rfl, hsame⟩, ?_⟩
    rintro (hfits | ⟨_, ⟨⟩, hsame⟩)
    -- of what fits only a negative zero is read as a float
    · obtain rfl : n = 0 := by omega
      rw [Binary64.eq_zero_of_units (Literal.units_of_float?_zero hds hx hn), shortest_zero]
      simp [Decimal.quantity]
    · exact hsame

/-- An integer of at most eight significant digits below `10⁴¹` stays the same. -/
theorem denotes_integer_of_digits (h : SpellsInteger text n)
    (hnum : ofLiteral? text = some (some num)) {m k : Nat} (hm : m < 10 ^ 8)
    (hn : n.natAbs = m * 10 ^ k) (hhigh : n.natAbs < 10 ^ 41) : Denotes num.text n := by
  rcases Nat.eq_zero_or_pos m with rfl | hpos
  · rw [denotes_integer_iff h hnum]
    exact .inl (by omega)
  · rw [denotes_text_iff]
    rcases integer_cases h hnum with ⟨-, hsame⟩ | ⟨hout, x, ds, rfl, hds, hvalue, hx, hsign⟩
    · exact hsame
    · have hne : n ≠ 0 := by
        rintro rfl
        have := Nat.mul_pos hpos (Nat.pow_pos (by decide) : 0 < 10 ^ k)
        omega
      have hnearest := Literal.nearest?_of_float? hds hx hm (hvalue.trans hn) (by omega) (by omega)
      rw [quantity_float_eq_iff hsign, hn]
      exact Binary64.quantity_shortest hpos (hm.trans (by decide)) (hn ▸ hvalue ▸ hnearest)

/-- Nine significant digits may be too many: this is read as a float below the nearest one. -/
example : (ofLiteral? "95035289300000000000".toList).join.map Number.text
    = some "9.503528929999998e+19".toList := by
  decide +kernel

end Number

end Schemata

import Mathlib.Algebra.Order.Field.Basic
import Mathlib.Data.Rat.Cast.Order
import Mathlib.Tactic.Linarith
import Mathlib.Tactic.Positivity
import Schemata.Number.Literal
import Schemata.Proofs.Number.Rounding

/-!
# Schemata — Proofs — Number — Quantity

What decimals and literals denote.  A decimal denotes a rational number (`Decimal.quantity`), and so
does a literal, by its digits, its point and its exponent (`Literal.quantity`).  Rounding knows
nothing of a decimal but what it denotes (`Binary64.ofDecimal?_congr`), and so it is with literals
that are read as the numbers nearest to them (`Literal.nearest?`).
-/

namespace Schemata

namespace Decimal

/-- The number that a decimal denotes. -/
def quantity (d : Decimal) : ℚ := d.digits * 10 ^ d.exponent

theorem quantity_of_nonneg {d : Decimal} (h : 0 ≤ d.exponent) :
    d.quantity = (d.digits * 10 ^ d.exponent.toNat : Nat) := by
  obtain ⟨n, hn⟩ := Int.eq_ofNat_of_zero_le h
  simp [quantity, hn]

theorem quantity_of_neg {d : Decimal} (h : d.exponent < 0) :
    d.quantity = d.digits / (10 ^ (-d.exponent).toNat : Nat) := by
  obtain ⟨n, hn⟩ := Int.eq_ofNat_of_zero_le (show 0 ≤ -d.exponent by omega)
  rw [quantity, ← neg_neg d.exponent, zpow_neg, hn, neg_neg]
  simp [div_eq_mul_inv]

/-- Zeros at the end of the digits may go to the exponent. -/
theorem quantity_mul_pow (n k : Nat) (e : Int) :
    quantity ⟨n * 10 ^ k, e⟩ = quantity ⟨n, e + k⟩ := by
  simp only [quantity, Nat.cast_mul, Nat.cast_pow, Nat.cast_ofNat, mul_assoc]
  rw [zpow_add₀ (by norm_num), zpow_natCast, mul_comm ((10 : ℚ) ^ k)]

/-- A decimal counted in units of which there are `10ᵘ` in one. -/
theorem quantity_mul_units (n p u : Nat) :
    quantity ⟨n, (p : Int) - u⟩ * 10 ^ u = (n * 10 ^ p : Nat) := by
  rw [quantity, zpow_sub₀ (by norm_num), zpow_natCast, zpow_natCast, mul_assoc,
    div_mul_cancel₀ _ (by positivity)]
  push_cast
  rfl

/-- Of two decimals that denote the same, the one of the lesser exponent has more zeros at its
end. -/
theorem digits_of_quantity_eq {m n k : Nat} {e : Int}
    (h : quantity ⟨m, e⟩ = quantity ⟨n, e + k⟩) : m = n * 10 ^ k := by
  rw [← quantity_mul_pow] at h
  have hne : (10 : ℚ) ^ e ≠ 0 := zpow_ne_zero _ (by norm_num)
  exact_mod_cast mul_right_cancel₀ hne h

end Decimal

namespace Binary64

/-- **What decimals round to depends on nothing but what they denote.** -/
theorem ofDecimal?_congr {d d' : Decimal} (h : d.quantity = d'.quantity) (negative : Bool) :
    ofDecimal? negative d.digits d.exponent = ofDecimal? negative d'.digits d'.exponent := by
  wlog hle : d.exponent ≤ d'.exponent generalizing d d'
  · exact (this h.symm (by omega)).symm
  obtain ⟨m, e⟩ := d
  obtain ⟨n, e'⟩ := d'
  obtain ⟨k, rfl⟩ : ∃ k : Nat, e' = e + k := ⟨(e' - e).toNat, by simp at hle; omega⟩
  obtain rfl := Decimal.digits_of_quantity_eq h
  rcases Nat.eq_zero_or_pos n with rfl | hn
  · simp [ofDecimal?]
  · exact ofDecimal?_mul_pow negative hn k e

end Binary64

namespace Literal

/-- The digits of a literal, without its sign. -/
def magnitude (l : Literal) : Decimal where
  digits := Nat.ofDigitChars 10 (l.whole ++ l.fraction.getD []) 0
  exponent := l.exponent.getD 0 - (l.fraction.getD []).length

/-- The number that a literal denotes. -/
def quantity (l : Literal) : ℚ := if l.negative then -l.magnitude.quantity else l.magnitude.quantity

/-- The binary64 number nearest to a literal. -/
def nearest? (l : Literal) : Option Binary64 :=
  Binary64.ofDecimal? l.negative l.magnitude.digits l.magnitude.exponent

end Literal

/-- The number that a number of a document is: an integer itself, a float its shortest decimal,
which is how it is written. -/
def Number.quantity : Number → ℚ
  | .integer value _ _ => value
  | .float x           => if x.negative then -x.shortest.quantity else x.shortest.quantity

end Schemata

import Mathlib.Tactic.Ring
import Schemata.Number.Shortest

/-!
# Schemata — Proofs — Number — Rounding

A decimal is rounded by its value alone, and the decimal that is written for a number rounds back
to it.

* `ofUnits?_mul`: a fraction and the same fraction expanded round to the same number.
* `ofDecimal?_mul_pow`: zeros at the end of the digits may go to the exponent.
* `ofUnits?_units`: the units of a number round to it.
* `ofDecimal?_shortest`: the decimal chosen for a number rounds to it.  One of at most
  seventeen digits is chosen only if it does; where there is none the number itself is written.
-/

namespace Schemata

/-! ### Expanded fractions -/

theorem natPow_eq (b n : Nat) : Nat.pow b n = b ^ n := rfl

theorem natPow_pos {b : Nat} (hb : 0 < b) (n : Nat) : 0 < Nat.pow b n := Nat.pow_pos hb

/-- Rounding does not depend on how a fraction is written. -/
theorem roundHalfEven_mul {num den c : Nat} (hc : 0 < c) :
    roundHalfEven (num * c) (den * c) = roundHalfEven num den := by
  have hlt : 2 * (num % den * c) < den * c ↔ 2 * (num % den) < den := by
    rw [← Nat.mul_assoc]; exact Nat.mul_lt_mul_right hc
  have hgt : den * c < 2 * (num % den * c) ↔ den < 2 * (num % den) := by
    rw [← Nat.mul_assoc]; exact Nat.mul_lt_mul_right hc
  simp only [roundHalfEven, Nat.mul_div_mul_right _ _ hc, Nat.mul_mod_mul_right, hlt, hgt]

/-- A quotient that is a whole number is not rounded. -/
theorem roundHalfEven_exact (n : Nat) {den : Nat} (hden : 0 < den) :
    roundHalfEven (n * den) den = n := by
  simp [roundHalfEven, Nat.mul_div_cancel _ hden, hden]

namespace Binary64

/-- A fraction and the same fraction expanded round to the same number. -/
theorem ofUnits?_mul (negative : Bool) (num den : Nat) {c : Nat} (hc : 0 < c) :
    ofUnits? negative (num * c) (den * c) = ofUnits? negative num den := by
  have hden : ∀ s, den * c * 2 ^ s = den * 2 ^ s * c := fun s => Nat.mul_right_comm den c (2 ^ s)
  simp only [ofUnits?, natPow_eq, Nat.mul_div_mul_right _ _ hc, hden, roundHalfEven_mul hc]

/-! ### Zeros at the end of the digits -/

/-- A zero behind a number is one more digit. -/
theorem length_toDigits_mul_ten {n : Nat} (hn : 0 < n) :
    (Nat.toDigits 10 (n * 10)).length = (Nat.toDigits 10 n).length + 1 := by
  rw [Nat.toDigits_of_base_le (by decide) (by omega), Nat.mul_div_cancel _ (by decide)]
  simp

/-- Each zero behind a number is one more digit. -/
theorem length_toDigits_mul_pow {n : Nat} (hn : 0 < n) (k : Nat) :
    (Nat.toDigits 10 (n * 10 ^ k)).length = (Nat.toDigits 10 n).length + k := by
  induction k with
  | zero => simp
  | succ k ih =>
      rw [Nat.pow_succ, ← Nat.mul_assoc,
        length_toDigits_mul_ten (Nat.mul_pos hn (Nat.pow_pos (by decide))), ih]
      rfl

/-- `n · 10ᵏ · 10ᵉ = n · 10ᵉ⁺ᵏ`, in units of which there are `u` in one. -/
theorem ofUnits?_mul_pow (negative : Bool) (n k u : Nat) (e : Int) :
    (if 0 ≤ e then ofUnits? negative (n * 10 ^ k * 10 ^ e.toNat * u) 1
      else ofUnits? negative (n * 10 ^ k * u) (10 ^ (-e).toNat))
    = if 0 ≤ e + k then ofUnits? negative (n * 10 ^ (e + k).toNat * u) 1
      else ofUnits? negative (n * u) (10 ^ (-(e + k)).toNat) := by
  rcases Int.lt_or_le e 0 with he | he
  · rcases Int.lt_or_le (e + k) 0 with hk | hk
    · have hden : (10 : Nat) ^ (-e).toNat = 10 ^ (-(e + k)).toNat * 10 ^ k := by
        rw [← Nat.pow_add]; congr 1; omega
      rw [if_neg (by omega), if_neg (by omega), hden,
        Nat.mul_right_comm n (10 ^ k) u, ofUnits?_mul _ _ _ (Nat.pow_pos (by decide))]
    -- the exponent changes its sign on the way
    · have hnum : (10 : Nat) ^ k = 10 ^ (e + k).toNat * 10 ^ (-e).toNat := by
        rw [← Nat.pow_add]; congr 1; omega
      have h := ofUnits?_mul negative (n * 10 ^ (e + k).toNat * u) 1
        (Nat.pow_pos (by decide) : 0 < 10 ^ (-e).toNat)
      rw [if_neg (by omega), if_pos hk, hnum, ← h, Nat.one_mul]
      congr 1
      ring
  · have hnum : (10 : Nat) ^ (e + k).toNat = 10 ^ k * 10 ^ e.toNat := by
      rw [← Nat.pow_add]; congr 1; omega
    rw [if_pos he, if_pos (by omega), hnum, ← Nat.mul_assoc]

/-- Zeros at the end of the digits may go to the exponent. -/
theorem ofDecimal?_mul_pow (negative : Bool) {n : Nat} (hn : 0 < n) (k : Nat) (e : Int) :
    ofDecimal? negative (n * 10 ^ k) e = ofDecimal? negative n (e + k) := by
  have hn' : n * 10 ^ k ≠ 0 := Nat.ne_of_gt (Nat.mul_pos hn (Nat.pow_pos (by decide)))
  have htop : ((Nat.toDigits 10 (n * 10 ^ k)).length : Int) + e
      = (Nat.toDigits 10 n).length + (e + k) := by
    rw [length_toDigits_mul_pow hn]
    omega
  simp only [ofDecimal?, natPow_eq, hn', Nat.ne_of_gt hn, if_false, htop]
  rw [ofUnits?_mul_pow]

/-! ### A number and its units -/

/-- Only zeros are of no units. -/
theorem eq_zero_of_units {x : Binary64} (h : x.units = 0) : x = zero x.negative := by
  obtain ⟨negative, exponent, fraction⟩ := x
  have hs : significand ⟨negative, exponent, fraction⟩ = 0 := by
    rcases Nat.mul_eq_zero.mp h with h | h
    · exact h
    · exact absurd h (Nat.ne_of_gt (Nat.two_pow_pos _))
  by_cases he : exponent.val = 0
  · have hf : fraction.val = 0 := by simpa [significand, he] using hs
    simp [zero, Fin.ext_iff, he, hf]
  · simp [significand, he] at hs

/-- A significand has 53 places at most. -/
theorem significand_lt (x : Binary64) : x.significand < 2 ^ 53 := by
  have := x.fraction.isLt
  unfold significand
  split <;> omega

theorem scale_le (x : Binary64) : x.scale ≤ 2045 := by
  have := x.exponent.isLt
  unfold scale
  omega

theorem units_lt (x : Binary64) {n : Nat} (hn : x.scale ≤ n) : x.units < 2 ^ 53 * 2 ^ n :=
  Nat.lt_of_lt_of_le (Nat.mul_lt_mul_of_pos_right x.significand_lt (Nat.two_pow_pos _))
    (Nat.mul_le_mul_left _ (Nat.pow_le_pow_right (by decide) hn))

/-- The significand of a number that is not subnormal starts at the place that its scale says. -/
theorem log2_units {x : Binary64} (he : x.exponent.val ≠ 0) : x.units.log2 = 52 + x.scale := by
  have hlow : 2 ^ 52 ≤ x.significand := by simp [significand, he]
  have hpos : 0 < x.units := Nat.mul_pos (by omega) (Nat.two_pow_pos _)
  rw [Nat.log2_eq_iff (Nat.ne_of_gt hpos), units]
  refine ⟨?_, ?_⟩
  · rw [Nat.pow_add]; exact Nat.mul_le_mul_right _ hlow
  · rw [show 52 + x.scale + 1 = 53 + x.scale by omega, Nat.pow_add]
    exact Nat.mul_lt_mul_of_pos_right x.significand_lt (Nat.two_pow_pos _)

/-- The units of a number round to it. -/
theorem ofUnits?_units (x : Binary64) : ofUnits? x.negative x.units 1 = some x := by
  by_cases he : x.exponent.val = 0
  · have hu : x.units = x.fraction.val := by simp [units, significand, scale, he]
    have hf := x.fraction.isLt
    have hs : x.fraction.val.log2 - 52 = 0 := by
      rcases Nat.eq_zero_or_pos x.fraction.val with h | h
      · rw [h, Nat.log2_zero]
      · have := (Nat.log2_lt (Nat.ne_of_gt h)).mpr (show x.fraction.val < 2 ^ 52 from hf)
        omega
    have hm : roundHalfEven x.fraction.val (1 * 2 ^ 0) = x.fraction.val := by
      simpa using roundHalfEven_exact x.fraction.val (by decide : 0 < 1)
    simp only [ofUnits?, natPow_eq, hu, Nat.div_one, hs, hm]
    rw [if_pos (by omega), ofSignificand?, dif_pos hf, if_pos rfl]
    obtain ⟨negative, exponent, fraction⟩ := x
    exact congrArg some (by simp only [mk.injEq, true_and, and_true]; exact Fin.ext he.symm)
  · have hs : x.units.log2 - 52 = x.scale := by rw [log2_units he]; omega
    have hm : roundHalfEven x.units (1 * 2 ^ x.scale) = x.significand := by
      rw [Nat.one_mul]; exact roundHalfEven_exact _ (Nat.two_pow_pos _)
    have hsig : x.significand = 4503599627370496 + x.fraction.val := by simp [significand, he]
    have hf := x.fraction.isLt
    have hx := x.exponent.isLt
    have hscale : x.scale + 1 = x.exponent.val := by unfold scale; omega
    simp only [ofUnits?, natPow_eq, Nat.div_one, hs, hm, hsig]
    rw [if_pos (by omega), ofSignificand?, dif_neg (by omega), dif_pos ⟨by omega, by omega⟩]
    simp only [Nat.add_sub_cancel_left, hscale]

/-! ### The decimal of a number -/

/-- One is `10ᵏ` units of a decimal kind and `2ᵏ` of a binary kind. -/
theorem ofUnits?_units_mul (x : Binary64) (k : Nat) :
    ofUnits? x.negative (x.units * Nat.pow 5 k * Nat.pow 2 k) (Nat.pow 10 k) = some x := by
  have h := ofUnits?_mul x.negative x.units 1 (Nat.pow_pos (by decide) : 0 < 10 ^ k)
  rw [ofUnits?_units, Nat.one_mul] at h
  rw [natPow_eq, natPow_eq, natPow_eq, Nat.mul_assoc, ← Nat.mul_pow]
  exact h

/-- How many digits a product can have. -/
theorem length_toDigits_mul {u b p low high : Nat} (hu : 0 < u) (hub : u < b) (hp : 0 < p)
    (hpositive : 0 < low ∧ 0 < high) (hlow : 10 ^ low ≤ p) (hhigh : b * p ≤ 10 ^ high) :
    low < (Nat.toDigits 10 (u * p)).length ∧ (Nat.toDigits 10 (u * p)).length ≤ high := by
  constructor
  · rw [← Nat.not_le, Nat.length_toDigits_le_iff (by decide) hpositive.1, Nat.not_lt]
    calc 10 ^ low ≤ p := hlow
      _ ≤ u * p := Nat.le_mul_of_pos_left p hu
  · rw [Nat.length_toDigits_le_iff (by decide) hpositive.2]
    calc u * p < b * p := Nat.mul_lt_mul_of_pos_right hub hp
      _ ≤ 10 ^ high := hhigh

/-- How many digits the units of a float can have. -/
theorem length_decimalUnits {x : Binary64} (hx : 0 < x.units) :
    673 < (Nat.toDigits 10 x.decimalUnits).length ∧
      (Nat.toDigits 10 x.decimalUnits).length ≤ 1383 :=
  length_toDigits_mul hx (x.units_lt x.scale_le) (natPow_pos (by decide) places) (by decide)
    (by decide +kernel) (by decide +kernel)

/-- The number itself, in full, rounds to itself. -/
theorem ofDecimal?_decimalUnits (x : Binary64) :
    ofDecimal? x.negative x.decimalUnits (-places) = some x := by
  rcases Nat.eq_zero_or_pos x.units with hx | hx
  · rw [decimalUnits, hx, Nat.zero_mul, ofDecimal?, if_pos rfl, ← eq_zero_of_units hx]
  · have hne : x.decimalUnits ≠ 0 :=
      Nat.ne_of_gt (Nat.mul_pos hx (natPow_pos (by decide) places))
    obtain ⟨hlow, hhigh⟩ := length_decimalUnits hx
    have hplaces := places_eq
    have hexponent : (-(-(places : Int))).toNat = places := by rw [Int.neg_neg, Int.toNat_natCast]
    simp only [ofDecimal?, hexponent]
    rw [if_neg hne, if_neg (by omega), if_neg (by omega), if_neg (by omega)]
    exact x.ofUnits?_units_mul places

/-- Each of the two neighbours is taken only where it was found to round to the number. -/
theorem roundsFrom_of_decimalOf? {x : Binary64} {count : Nat} {d : Decimal}
    (h : x.decimalOf? count = some d) : x.roundsFrom d = true := by
  unfold decimalOf? at h
  extract_lets _ _ _ low high _ nearLow at h
  split at h
  · next hlow =>
      split at h
      · next hhigh =>
          obtain rfl := Option.some.inj h
          exact (Bool.and_eq_true_iff.mp hhigh).1
      · obtain rfl := Option.some.inj h
        exact hlow
  · split at h
    · next hhigh =>
        obtain rfl := Option.some.inj h
        exact hhigh
    · nomatch h

/-- The decimal chosen for a number rounds to it. -/
theorem ofDecimal?_shortest (x : Binary64) :
    ofDecimal? x.negative x.shortest.digits x.shortest.exponent = some x := by
  unfold shortest
  cases hfind : (List.range' 1 17).findSome? x.decimalOf? with
  | none => exact x.ofDecimal?_decimalUnits
  | some d =>
      obtain ⟨count, -, hd⟩ := List.exists_of_findSome?_eq_some hfind
      exact of_decide_eq_true (roundsFrom_of_decimalOf? hd)

end Binary64

end Schemata

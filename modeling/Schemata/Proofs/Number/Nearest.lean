import Mathlib.Data.Nat.Cast.Order.Field
import Schemata.Proofs.Number.Quantity

/-!
# Schemata — Proofs — Number — Nearest

How far a number is from what rounds to it: no farther than a part in `2⁵³` of that, or half of the
smallest unit (`Binary64.units_near`).
-/

namespace Schemata

theorem cast_natPow (b n : Nat) [b.AtLeastTwo] :
    ((Nat.pow (OfNat.ofNat b) n : Nat) : ℚ) = (OfNat.ofNat b : ℚ) ^ n := by
  rw [natPow_eq, Nat.cast_pow, Nat.cast_ofNat]

/-- A quotient is rounded by a half at most. -/
theorem roundHalfEven_near (num : Nat) {den : Nat} (hden : 0 < den) :
    2 * num ≤ (2 * roundHalfEven num den + 1) * den ∧
      2 * roundHalfEven num den * den ≤ 2 * num + den := by
  have hdiv : den * (num / den) + num % den = num := Nat.div_add_mod num den
  have hcases : (roundHalfEven num den = num / den ∧ 2 * (num % den) ≤ den) ∨
      roundHalfEven num den = num / den + 1 ∧ den ≤ 2 * (num % den) := by
    unfold roundHalfEven
    extract_lets low twice
    have htwice : twice = 2 * (num % den) := rfl
    split
    · exact .inl ⟨rfl, by omega⟩
    · split
      · exact .inr ⟨rfl, by omega⟩
      · rcases Nat.mod_two_eq_zero_or_one low with hlow | hlow <;> rw [hlow]
        · exact .inl ⟨rfl, by omega⟩
        · exact .inr ⟨rfl, by omega⟩
  have hmod : num % den < den := Nat.mod_lt num hden
  generalize roundHalfEven num den = r at hcases
  generalize num / den = low at hdiv hcases
  generalize num % den = rem at hdiv hcases hmod
  rcases hcases with ⟨rfl, hhalf⟩ | ⟨rfl, hhalf⟩ <;> constructor <;> nlinarith

namespace Binary64

variable {x : Binary64} {negative : Bool}

/-- A number has the sign and the units that it is made of. -/
theorem ofSignificand?_eq_some {m s : Nat} (h : ofSignificand? negative m s = some x) :
    x.negative = negative ∧ x.units = m * 2 ^ s := by
  unfold ofSignificand? at h
  split at h
  · split at h
    · next hs =>
        obtain rfl := Option.some.inj h
        subst hs
        exact ⟨rfl, by simp [units, significand, scale]⟩
    · cases h
  · next hm =>
      split at h
      · next hs =>
          obtain rfl := Option.some.inj h
          have hsig : 4503599627370496 + (m - 4503599627370496) = m := by omega
          exact ⟨rfl, by simp [units, significand, scale, hsig]⟩
      · cases h

section Units

/-! A quotient of units is rounded to its first 53 places, or to whole units if it has no more. -/

variable {num den : Nat}

/-- The power of two that the last of 53 places stands for. -/
theorem place_le (num den : Nat) :
    (2 : ℚ) ^ (52 + ((num / den).log2 - 52)) ≤ max (num / den : ℚ) (2 ^ 52) := by
  rcases Nat.eq_zero_or_pos ((num / den).log2 - 52) with hs | hs
  · rw [hs]
    exact le_max_right _ _
  · have hne : num / den ≠ 0 := by
      intro hzero
      simp [hzero] at hs
    have hlog : 2 ^ (52 + ((num / den).log2 - 52)) ≤ num / den := by
      have hself := Nat.log2_self_le hne
      rwa [show (num / den).log2 = 52 + ((num / den).log2 - 52) by omega] at hself
    exact le_max_of_le_left (le_trans (by exact_mod_cast hlog) Nat.cast_div_le)

/-- The error of rounding to a place is half of what it stands for. -/
theorem roundHalfEven_error (num : Nat) (hden : 0 < den) (s : Nat) :
    |(roundHalfEven num (den * 2 ^ s) * 2 ^ s : ℚ) - num / den| ≤ 2 ^ s / 2 := by
  obtain ⟨hlow, hhigh⟩ := roundHalfEven_near num (Nat.mul_pos hden (Nat.two_pow_pos s))
  generalize roundHalfEven num (den * 2 ^ s) = m at hlow hhigh ⊢
  have hden' : (0 : ℚ) < den := by exact_mod_cast hden
  have hnum : (num : ℚ) = num / den * den := (div_mul_cancel₀ _ hden'.ne').symm
  have hlow' : 2 * (num / den : ℚ) ≤ (2 * m + 1) * 2 ^ s := by
    refine le_of_mul_le_mul_right ?_ hden'
    rw [mul_assoc, ← hnum, mul_assoc, mul_comm _ (den : ℚ)]
    exact_mod_cast hlow
  have hhigh' : 2 * m * 2 ^ s ≤ 2 * (num / den : ℚ) + 2 ^ s := by
    refine le_of_mul_le_mul_right ?_ hden'
    rw [add_mul, mul_assoc 2 (num / den : ℚ), ← hnum, mul_assoc, mul_comm _ (den : ℚ)]
    exact_mod_cast hhigh
  rw [abs_le]
  constructor <;> linarith

/-- Rounded to its first 53 places, a quotient is the power of two behind them at most. -/
theorem roundHalfEven_le (num : Nat) (hden : 0 < den) :
    roundHalfEven num (den * 2 ^ ((num / den).log2 - 52)) ≤ 2 ^ 53 := by
  generalize hs : (num / den).log2 - 52 = s
  have hhigh := (roundHalfEven_near num (Nat.mul_pos hden (Nat.two_pow_pos s))).2
  have hbelow : num < 2 ^ 53 * (den * 2 ^ s) := by
    have hlog : num / den < 2 ^ 53 * 2 ^ s := by
      rw [← Nat.pow_add]
      exact Nat.lt_of_lt_of_le Nat.lt_log2_self (Nat.pow_le_pow_right (by decide) (by omega))
    calc num < 2 ^ 53 * 2 ^ s * den := (Nat.div_lt_iff_lt_mul hden).mp hlog
      _ = 2 ^ 53 * (den * 2 ^ s) := by ring
  generalize roundHalfEven num (den * 2 ^ s) = m at hhigh ⊢
  by_contra hge
  have hfar : (2 ^ 53 + 1) * (den * 2 ^ s) ≤ m * (den * 2 ^ s) :=
    Nat.mul_le_mul_right _ (Nat.not_le.mp hge)
  nlinarith

/-- It has all of them, if the quotient has more. -/
theorem le_roundHalfEven (hden : 0 < den) (hmore : 52 ≤ (num / den).log2) :
    2 ^ 52 ≤ roundHalfEven num (den * 2 ^ ((num / den).log2 - 52)) := by
  have hne : num / den ≠ 0 := by
    intro hzero
    simp [hzero] at hmore
  have hlog := Nat.log2_self_le hne
  obtain ⟨s, hs⟩ := Nat.exists_eq_add_of_le hmore
  rw [hs, Nat.pow_add] at hlog
  rw [hs, Nat.add_sub_cancel_left]
  have hnum : 2 ^ 52 * (den * 2 ^ s) ≤ num :=
    calc 2 ^ 52 * (den * 2 ^ s) = 2 ^ 52 * 2 ^ s * den := by ring
      _ ≤ num := (Nat.le_div_iff_mul_le hden).mp hlog
  have hpos : 0 < den * 2 ^ s := Nat.mul_pos hden (Nat.two_pow_pos s)
  have hlow := (roundHalfEven_near num hpos).1
  generalize roundHalfEven num (den * 2 ^ s) = m at hlow ⊢
  have hodd : 2 * 2 ^ 52 ≤ 2 * m + 1 :=
    Nat.le_of_mul_le_mul_right (by linarith) hpos
  omega

/-- A number has the units that the quotient is rounded to. -/
theorem units_of_ofUnits? (hden : 0 < den) (h : ofUnits? negative num den = some x) :
    x.units = roundHalfEven num (den * 2 ^ ((num / den).log2 - 52))
      * 2 ^ ((num / den).log2 - 52) := by
  unfold ofUnits? at h
  extract_lets s m at h
  change x.units = m * 2 ^ s
  split at h
  · exact (ofSignificand?_eq_some h).2
  · next hm =>
      -- only the power of two itself has one digit more
      have hm : m = 2 ^ 53 := Nat.le_antisymm (roundHalfEven_le num hden) (by omega)
      rw [(ofSignificand?_eq_some h).2, hm, Nat.pow_succ]
      ring

/-- A quotient of units is rounded to units that are near it. -/
theorem units_near_of_ofUnits? (hden : 0 < den) (h : ofUnits? negative num den = some x) :
    |(x.units : ℚ) - num / den| * 2 ^ 53 ≤ max (num / den : ℚ) (2 ^ 52) := by
  have herror := roundHalfEven_error num hden ((num / den).log2 - 52)
  have hplace := place_le num den
  rw [units_of_ofUnits? hden h]
  generalize (num / den).log2 - 52 = s at herror hplace ⊢
  push_cast
  calc _ ≤ 2 ^ s / 2 * 2 ^ 53 := mul_le_mul_of_nonneg_right herror (by positivity)
    _ = 2 ^ (52 + s) := by rw [pow_add]; ring
    _ ≤ _ := hplace

end Units

/-- A decimal rounds to zero if it is zero or tiny, and else to what its units round to. -/
theorem ofDecimal?_eq_some {d : Decimal} (h : ofDecimal? negative d.digits d.exponent = some x) :
    (x = zero negative ∧ (d.digits = 0 ∨ d.exponent < -400)) ∨
    ∃ num den : Nat, 0 < den ∧ (num / den : ℚ) = d.quantity * 2 ^ places ∧
      ofUnits? negative num den = some x := by
  unfold ofDecimal? at h
  rw [← cast_natPow 2 places]
  split at h
  · next hdigits => exact .inl ⟨(Option.some.inj h).symm, .inl hdigits⟩
  · extract_lets top at h
    split at h
    · nomatch h
    · split at h
      · next htop => exact .inl ⟨(Option.some.inj h).symm, .inr (by omega)⟩
      · split at h
        · next he =>
            refine .inr ⟨_, 1, by decide, ?_, h⟩
            rw [Nat.cast_one, div_one, Nat.cast_mul, natPow_eq, ← Decimal.quantity_of_nonneg he]
        · next he =>
            refine .inr ⟨_, _, Nat.pow_pos (by decide), ?_, h⟩
            rw [Nat.cast_mul, mul_div_right_comm,
              ← Decimal.quantity_of_neg (Int.not_le.mp he)]

/-- **A decimal rounds to a number near it**, unless it is zero or rounds to it. -/
theorem units_near {d : Decimal} (h : ofDecimal? negative d.digits d.exponent = some x)
    (hx : x.units = 0 → d.digits ≠ 0 ∧ -400 ≤ d.exponent) :
    |(x.units : ℚ) - d.quantity * 2 ^ places| * 2 ^ 53 ≤
      max (d.quantity * 2 ^ places) (2 ^ 52) := by
  rcases ofDecimal?_eq_some h with ⟨rfl, htiny⟩ | ⟨num, den, hden, hunits, h⟩
  · obtain ⟨hdigits, hexponent⟩ := hx (Nat.zero_mul _)
    rcases htiny with hzero | hsmall
    · exact absurd hzero hdigits
    · omega
  · rw [← hunits]
    exact units_near_of_ofUnits? hden h

/-- What rounds to a number that has all its places lies within a part in `2⁵³ - 1` of it, here in
decimal units. -/
theorem decimalUnits_near {d : Decimal} {n : Nat}
    (h : ofDecimal? x.negative d.digits d.exponent = some x) (hx : 2 ^ 52 ≤ x.units)
    (hn : d.quantity * 10 ^ places = n) :
    |(x.decimalUnits : ℚ) - n| * (2 ^ 53 - 1) ≤ x.decimalUnits := by
  have hnear := units_near h (by omega)
  have hx' : (2 : ℚ) ^ 52 ≤ x.units := by exact_mod_cast hx
  rw [decimalUnits, Nat.cast_mul]
  have hten : (10 : ℚ) ^ places = 2 ^ places * 5 ^ places := by rw [← mul_pow]; norm_num
  have hpos : (0 : ℚ) < 5 ^ places := by positivity
  rw [hten, ← mul_assoc] at hn
  rw [cast_natPow, ← hn]
  generalize (5 : ℚ) ^ places = p at hpos
  generalize d.quantity * 2 ^ places = q at hnear
  rw [← sub_mul, abs_mul, abs_of_pos hpos, mul_right_comm]
  refine mul_le_mul_of_nonneg_right ?_ hpos.le
  rcases le_max_iff.mp hnear with hq | hq
  · have := neg_abs_le ((x.units : ℚ) - q)
    linarith
  · have := abs_nonneg ((x.units : ℚ) - q)
    linarith

end Binary64

end Schemata

import Schemata.Proofs.Number.Reading
import Schemata.Proofs.Number.Scaling

/-!
# Schemata — Proofs — Number — Lasting

Every number that is written is read as some number (`Number.reread`), an integer as itself.  A
float whose decimal is scaled beside it may become another one, but never one that is too large:
what is scaled goes up by two roundings at most, which takes it beyond the greatest number only from
the four floats below that on, and these are read as they are tried (`Binary64.exists_float?`).  A
number lasts if it is read as itself (`Number.Lasts`).
-/

namespace Schemata

namespace Binary64

variable {num den : Nat} {x y : Binary64} {negative : Bool}

/-! ### Quotients that are not too large -/

theorem exists_ofSignificand? (negative : Bool) {m s : Nat} (hm : m < 2 ^ 53)
    (hplaces : 2 ^ 52 ≤ m ∨ s = 0) (hs : s ≤ 2045) : ∃ x, ofSignificand? negative m s = some x := by
  unfold ofSignificand?
  split
  · rw [if_pos (by omega)]
    exact ⟨_, rfl⟩
  · rw [dif_pos (by omega)]
    exact ⟨_, rfl⟩

/-- A quotient up to the greatest number is rounded to a number. -/
theorem exists_ofUnits? (negative : Bool) {t : Nat} (ht : t ≤ 971 + places) (hden : 0 < den)
    (h : num ≤ 9007199254740991 * 2 ^ t * den) : ∃ x, ofUnits? negative num den = some x := by
  rw [places_eq] at ht
  have hle := roundHalfEven_le num hden
  have hge := @le_roundHalfEven num den hden
  have hlog : (num / den).log2 - 52 ≤ t := by
    rcases Nat.eq_zero_or_pos (num / den) with hzero | hpos
    · simp [hzero]
    · have hlt : num / den < 2 ^ (53 + t) :=
        calc num / den ≤ 9007199254740991 * 2 ^ t := Nat.div_le_of_le_mul (by rwa [Nat.mul_comm])
          _ < 2 ^ 53 * 2 ^ t := Nat.mul_lt_mul_of_pos_right (by decide) (Nat.two_pow_pos t)
          _ = 2 ^ (53 + t) := (Nat.pow_add _ _ _).symm
      have := (Nat.log2_lt hpos.ne').mpr hlt
      omega
  simp only [ofUnits?, natPow_eq]
  split
  · next hm =>
      refine exists_ofSignificand? negative hm ?_ (by omega)
      rcases Nat.lt_or_ge (num / den).log2 52 with hfew | hmore
      · exact .inr (by omega)
      · exact .inl (hge hmore)
  · next hm =>
      refine exists_ofSignificand? negative (by omega) (.inl (by omega)) ?_
      -- at the last place of the greatest number there is no room for one more
      have hroom : (num / den).log2 - 52 ≠ t := by
        intro hs
        rw [hs] at hm
        rw [Nat.mul_assoc, Nat.mul_comm _ den] at h
        have hpos : 0 < den * 2 ^ t := Nat.mul_pos hden (Nat.two_pow_pos t)
        have hhigh := (roundHalfEven_near num hpos).2
        rw [Nat.mul_assoc] at hhigh
        have hfar := Nat.mul_le_mul_right (den * 2 ^ t) (Nat.not_lt.mp hm)
        generalize roundHalfEven num (den * 2 ^ t) * (den * 2 ^ t) = product at hhigh hfar
        omega
      omega

/-- The place of the last digit of the greatest number. -/
theorem scale_le_top (x : Binary64) : x.scale ≤ 971 + places := by
  rw [places_eq]
  exact x.scale_le

theorem units_le (x : Binary64) : x.units ≤ 9007199254740991 * 2 ^ (971 + places) :=
  Nat.mul_le_mul (Nat.le_pred_of_lt x.significand_lt)
    (Nat.pow_le_pow_right (by decide) x.scale_le_top)

/-- A number is no smaller than the first place of what is rounded to it. -/
theorem two_pow_le_units {k : Nat} (hk : 52 ≤ k) (hnum : 2 ^ k ≤ num)
    (h : ofUnits? negative num 1 = some x) : 2 ^ k ≤ x.units := by
  have hlog : k ≤ (num / 1).log2 := by
    rw [Nat.div_one]
    exact (Nat.le_log2 (by have := Nat.two_pow_pos k; omega)).mpr hnum
  have hge := @le_roundHalfEven num 1 (by decide) (by omega)
  rw [units_of_ofUnits? (by decide) h]
  calc 2 ^ k ≤ 2 ^ (52 + ((num / 1).log2 - 52)) := Nat.pow_le_pow_right (by decide) (by omega)
    _ = 2 ^ 52 * 2 ^ ((num / 1).log2 - 52) := Nat.pow_add _ _ _
    _ ≤ _ := Nat.mul_le_mul_right _ hge

/-! ### Steps of scaling -/

/-- A natural number that is not beyond all numbers is rounded to one. -/
theorem exists_ofNat? {n k : Nat} (hk : k ≤ 971) (hn : n ≤ 9007199254740991 * 2 ^ k) :
    ∃ x, ofNat? n = some x := by
  refine exists_ofUnits? false (Nat.add_le_add_right hk places) (by decide) ?_
  rw [natPow_eq, Nat.mul_one, Nat.pow_add, ← Nat.mul_assoc]
  exact Nat.mul_le_mul_right _ hn

/-- So are the powers of ten that are multiplied or divided by. -/
theorem exists_ofNat?_ten {k : Nat} (hk : k ≤ maxTens) : ∃ x, ofNat? (10 ^ k) = some x :=
  exists_ofNat? (Nat.le_refl _)
    ((Nat.pow_le_pow_right (by decide) hk).trans (by decide +kernel))

/-- A number above zero has the units of one at least. -/
theorem two_pow_places_le {n : Nat} (hn : 0 < n) (h : ofNat? n = some x) :
    2 ^ places ≤ x.units :=
  two_pow_le_units (by rw [places_eq]; decide) (Nat.le_mul_of_pos_left _ hn) h

/-- Dividing by no less than one leaves a number. -/
theorem exists_over? (x : Binary64) (hy : 2 ^ places ≤ y.units) : ∃ z, x.over? y = some z := by
  refine exists_ofUnits? false (Nat.le_refl _)
    (Nat.lt_of_lt_of_le (Nat.two_pow_pos places) hy) ?_
  exact Nat.mul_le_mul x.units_le hy

theorem exists_lower? (x : Binary64) (n : Nat) : ∃ y, x.lower? n = some y := by
  induction n generalizing x with
  | zero => exact ⟨x, rfl⟩
  | succ n ih =>
      obtain ⟨ten, hten⟩ := exists_ofNat?_ten (Nat.le_refl maxTens)
      obtain ⟨y, hy⟩ := exists_over? x (two_pow_places_le (Nat.pow_pos (by decide)) hten)
      rw [lower?]
      split
      · exact ⟨x, rfl⟩
      · rw [natPow_eq, hten, Option.bind_eq_bind, Option.bind_some, hy, Option.bind_some]
        exact ih y

/-- Rounding takes a natural number up by a part in `2⁵³` at most. -/
theorem units_ofNat?_le {n : Nat} (h : ofNat? n = some x) :
    (x.units : ℚ) * 2 ^ 53 ≤ n * 2 ^ places * (2 ^ 53 + 1) := by
  rcases Nat.eq_zero_or_pos n with rfl | hn
  · have hzero := @units_of_ofNat? x 0 0 (by decide) (by simpa using h)
    simp [hzero]
  · have hnear := units_near_of_ofUnits? (by decide) h
    have hone : (2 : ℚ) ^ 52 ≤ 2 ^ places :=
      pow_le_pow_right₀ (by norm_num) (by rw [places_eq]; decide)
    have hn' : (1 : ℚ) ≤ n := by exact_mod_cast hn
    rw [Nat.cast_one, div_one, Nat.cast_mul, cast_natPow] at hnear
    generalize (2 : ℚ) ^ places = one at hnear hone ⊢
    rw [max_eq_left (by nlinarith)] at hnear
    have := le_abs_self ((x.units : ℚ) - n * one)
    nlinarith

/-- Two factors that were each rounded up have a product that is at most so far above their own. -/
theorem product_le {a b m n one top : ℚ} (ha : a * 2 ^ 53 ≤ m * one * (2 ^ 53 + 1))
    (hb : b * 2 ^ 53 ≤ n * one * (2 ^ 53 + 1)) (hb0 : 0 ≤ b) (hm : 0 ≤ m * one) (hone : 0 ≤ one)
    (htop : 0 ≤ top) (h : m * n * one ≤ 9007199254740989 * top) :
    a * b ≤ 9007199254740991 * top * one := by
  refine le_of_mul_le_mul_right (a := 2 ^ 106) ?_ (by norm_num)
  calc a * b * 2 ^ 106 = a * 2 ^ 53 * (b * 2 ^ 53) := by ring
    _ ≤ m * one * (2 ^ 53 + 1) * (n * one * (2 ^ 53 + 1)) :=
        mul_le_mul ha hb (by positivity) (by positivity)
    _ = m * n * one * (one * (2 ^ 53 + 1) ^ 2) := by ring
    _ ≤ 9007199254740989 * top * (one * (2 ^ 53 + 1) ^ 2) :=
        mul_le_mul_of_nonneg_right h (by positivity)
    _ = top * one * (9007199254740989 * (2 ^ 53 + 1) ^ 2) := by ring
    _ ≤ top * one * (9007199254740991 * 2 ^ 106) :=
        mul_le_mul_of_nonneg_left (by norm_num) (by positivity)
    _ = 9007199254740991 * top * one * 2 ^ 106 := by ring

/-- Only zero has an exponent that is too large. -/
theorem digits_eq_zero_of_exponent {m e : Nat} (he : maxTens < e)
    (h : ((m * 10 ^ e : Nat) : ℚ) * 2 ^ places ≤ 9007199254740989 * 2 ^ (971 + places)) :
    m = 0 := by
  rw [pow_add, ← mul_assoc] at h
  have hle : m * 10 ^ e ≤ 9007199254740989 * 2 ^ 971 := by
    exact_mod_cast le_of_mul_le_mul_right h (by positivity)
  by_contra hne
  have hlarge : 10 ^ (maxTens + 1) ≤ m * 10 ^ e :=
    calc 10 ^ (maxTens + 1) ≤ 10 ^ e := Nat.pow_le_pow_right (by decide) he
      _ ≤ m * 10 ^ e := Nat.le_mul_of_pos_left _ (Nat.pos_of_ne_zero hne)
  exact absurd (hlarge.trans hle) (by decide +kernel)

/-- **What is scaled is a number**, if it is not so near to what is too large that two roundings
could take it there. -/
theorem exists_scaled? {d : Decimal} (hd : d.digits < 2 ^ 64)
    (h : d.quantity * 2 ^ places ≤ 9007199254740989 * 2 ^ (971 + places)) :
    ∃ x, scaled? d.digits d.exponent = some x := by
  obtain ⟨x, hx⟩ := @exists_ofNat? d.digits 12 (by decide) (by omega)
  simp only [scaled?, hx, Option.bind_eq_bind, Option.bind_some, natPow_eq]
  split
  · next he =>
      rw [Decimal.quantity_of_nonneg he] at h
      split
      · next hmax =>
          obtain ⟨y, hy⟩ := @exists_ofNat?_ten d.exponent.toNat (by omega)
          rw [hy, Option.bind_some]
          refine exists_ofUnits? false (Nat.le_refl _) (Nat.two_pow_pos places) ?_
          have hproduct : (x.units * y.units : ℚ)
              ≤ 9007199254740991 * 2 ^ (971 + places) * 2 ^ places :=
            product_le (units_ofNat?_le hx) (units_ofNat?_le hy) (Nat.cast_nonneg _)
              (by positivity) (by positivity) (by positivity) (by rwa [Nat.cast_mul] at h)
          exact_mod_cast hproduct
      · next hmax =>
          have hzero : d.digits = 0 := digits_eq_zero_of_exponent (by omega) h
          have hunits := @units_of_ofNat? x 0 0 (by decide) (by simpa [hzero] using hx)
          rw [if_pos (by simpa using hunits)]
          exact ⟨x, rfl⟩
  · next he =>
      obtain ⟨y, hy⟩ := x.exists_lower? (((-d.exponent).toNat - 1) / maxTens)
      obtain ⟨ten, hten⟩ := @exists_ofNat?_ten
        ((-d.exponent).toNat - ((-d.exponent).toNat - 1) / maxTens * maxTens) (by
          have := Nat.div_add_mod ((-d.exponent).toNat - 1) maxTens
          have := Nat.mod_lt ((-d.exponent).toNat - 1) (by decide : 0 < maxTens)
          rw [Nat.mul_comm]
          omega)
      rw [hy, Option.bind_some, hten, Option.bind_some]
      exact exists_over? y (two_pow_places_le (Nat.pow_pos (by decide)) hten)

end Binary64

/-! ### Literals of floats -/

namespace Literal

/-- Digits that are all kept go on with those behind them. -/
theorem takeDigits_append {ds : List Char} {n m : Nat} (h : takeDigits n ds = (m, ds.length))
    (more : List Char) : takeDigits n (ds ++ more)
      = ((takeDigits m more).1, ds.length + (takeDigits m more).2) := by
  induction ds generalizing n with
  | nil =>
      obtain rfl : n = m := (Prod.mk.inj h).1
      simp
  | cons c rest ih =>
      simp only [takeDigits] at h
      split at h
      · next hfits =>
          obtain ⟨hm, hcount⟩ := Prod.mk.inj h
          have hrest := ih (Prod.ext hm (Nat.succ.inj hcount))
          rw [List.cons_append, takeDigits, if_pos hfits, hrest]
          simp only [List.length_cons]
          congr 1
          omega
      · cases (Prod.mk.inj h).2

/-- A few digits are all kept. -/
theorem takeDigits_of_length {ds : List Char} (hds : ∀ c ∈ ds, c.isDigit = true)
    (hlen : ds.length ≤ 16) : (takeDigits 0 ds).2 = ds.length := by
  have hfront := front_takeDigits hds 0
  refine Nat.le_antisymm hfront.count_le (Nat.not_lt.mp fun hcount => ?_)
  have hlt : (takeDigits 0 ds).1 < 10 ^ 16 := by
    rw [hfront.value]
    refine (ofDigitChars_lt fun c hc => hds c (List.mem_of_mem_take hc)).trans_le ?_
    exact Nat.pow_le_pow_right (by decide) ((List.length_take_le _ _).trans (by omega))
  have := hfront.full hcount
  omega

theorem isSome_float?_sign (l : Literal) (negative : Bool) :
    (float? { l with negative }).isSome = (float? l).isSome := by
  simp only [float?, Option.isSome_map]

/-- **A literal of a few whole digits is read**, if what it denotes is not nearly too large. -/
theorem exists_float? {l : Literal} (hl : l.WellFormed) (hshort : l.whole.length ≤ 16)
    (h : l.magnitude.quantity * 2 ^ Binary64.places
      ≤ 9007199254740989 * 2 ^ (971 + Binary64.places)) : ∃ x, float? l = some x := by
  have hfraction : ∀ c ∈ l.fraction.getD [], c.isDigit = true := by
    cases hf : l.fraction with
    | none => nofun
    | some f => exact (hl.fraction f hf).2
  have hds : ∀ c ∈ l.whole ++ l.fraction.getD [], c.isDigit = true := fun c hc =>
    (List.mem_append.mp hc).elim (hl.digits c) (hfraction c)
  have hwhole := takeDigits_of_length hl.digits hshort
  have hall := takeDigits_append (Prod.ext rfl hwhole) (l.fraction.getD [])
  have hfront := front_takeDigits hds 0
  rw [hall] at hfront
  simp only [float?, hwhole]
  generalize takeDigits (takeDigits 0 l.whole).1 (l.fraction.getD []) = taken at hfront ⊢
  obtain ⟨digits, places⟩ := taken
  -- the digits that are left out of the fraction only make the literal larger
  obtain ⟨k, hk⟩ := Nat.exists_eq_add_of_le hfront.count_le
  have hexponent : l.exponent.getD 0 + ((l.whole.length - l.whole.length : Nat) : Int) - places
      = l.magnitude.exponent + k := by
    simp only [magnitude]
    rw [List.length_append] at hk
    omega
  have hle : digits * 10 ^ k ≤ l.magnitude.digits := by
    have hdiv := hfront.eq_div hds
    rw [hk, Nat.add_sub_cancel_left] at hdiv
    exact (Nat.le_div_iff_mul_le (Nat.pow_pos (by decide))).mp (Nat.le_of_eq hdiv)
  have hquantity : Decimal.quantity ⟨digits, l.magnitude.exponent + k⟩ ≤ l.magnitude.quantity := by
    rw [← Decimal.quantity_mul_pow]
    have hcast : ((digits * 10 ^ k : Nat) : ℚ) ≤ l.magnitude.digits := Nat.cast_le.mpr hle
    exact mul_le_mul_of_nonneg_right hcast (zpow_nonneg (by norm_num) _)
  obtain ⟨x, hx⟩ := @Binary64.exists_scaled? ⟨digits, l.magnitude.exponent + k⟩
    (hfront.fits (by decide))
    ((mul_le_mul_of_nonneg_right hquantity (by positivity)).trans h)
  rw [hexponent, hx]
  exact ⟨_, rfl⟩

end Literal

/-! ### Numbers -/

namespace Binary64

variable {x : Binary64}

/-- A decimal rounds to a number under either sign alike. -/
theorem ofDecimal?_sign {sign negative : Bool} {digits : Nat} {exponent : Int}
    (h : ofDecimal? sign digits exponent = some x) :
    ofDecimal? negative digits exponent = some { x with negative } := by
  simp only [ofDecimal?] at h ⊢
  split_ifs at h ⊢
  · exact Option.some.inj h ▸ rfl
  · exact Option.some.inj h ▸ rfl
  · exact ofUnits?_sign h
  · exact ofUnits?_sign h

theorem units_sign (x : Binary64) (negative : Bool) : units { x with negative } = x.units := rfl

/-- The sign is no part of the digits. -/
theorem shortest_sign (x : Binary64) (negative : Bool) :
    ({ x with negative } : Binary64).shortest = x.shortest := by
  have hrounds : ∀ d, roundsFrom { x with negative } d = x.roundsFrom d := fun d =>
    decide_eq_decide.mpr ⟨ofDecimal?_sign, ofDecimal?_sign⟩
  have hdecimal : decimalOf? { x with negative } = x.decimalOf? := by
    funext count
    unfold decimalOf?
    simp only [hrounds]
    rfl
  unfold shortest
  rw [hdecimal]
  rfl

/-- A number below the greatest four is written as a decimal that is not nearly too large. -/
theorem quantity_shortest_le (h : x.units ≤ 9007199254740988 * 2 ^ (971 + places)) :
    x.shortest.quantity * 2 ^ places ≤ 9007199254740989 * 2 ^ (971 + places) := by
  by_cases hx : x.units = 0
  · rw [eq_zero_of_units hx, Number.shortest_zero]
    simp [Decimal.quantity]
  · have hnear := units_near x.ofDecimal?_shortest (absurd · hx)
    have h' : (x.units : ℚ) ≤ 9007199254740988 * 2 ^ (971 + places) := by exact_mod_cast h
    have hone : (1 : ℚ) ≤ 2 ^ (971 + places) := one_le_pow₀ (by norm_num)
    generalize x.shortest.quantity * 2 ^ places = q at hnear ⊢
    generalize (2 : ℚ) ^ (971 + places) = top at h' hone ⊢
    have hlow := neg_abs_le ((x.units : ℚ) - q)
    rcases le_max_iff.mp hnear with hq | hq <;> linarith

/-- The others are the greatest three, of either sign. -/
theorem eq_of_units_gt (h : 9007199254740988 * 2 ^ (971 + places) < x.units) :
    x.exponent = 2046 ∧ ∃ i : Fin 3, x.fraction = ⟨4503599627370493 + i, by omega⟩ := by
  have hsignificand := x.significand_lt
  have hscale : x.scale = 971 + places := by
    refine Nat.le_antisymm x.scale_le_top (Nat.not_lt.mp fun hlt => ?_)
    have hlow : x.units < 2 ^ 53 * 2 ^ (970 + places) := x.units_lt (by omega)
    rw [Nat.add_right_comm 970 1 places, Nat.pow_succ] at h
    omega
  rw [units, natPow_eq, hscale] at h
  have hlarge := Nat.lt_of_mul_lt_mul_right h
  obtain ⟨negative, exponent, fraction⟩ := x
  rw [places_eq] at hscale
  simp only [scale] at hscale
  have hfraction := fraction.isLt
  simp only [significand] at hlarge hsignificand
  rw [if_neg (by omega)] at hlarge
  have htop : (2046 : Fin 2047).val = 2046 := rfl
  refine ⟨?_, ⟨fraction.val - 4503599627370493, by omega⟩, ?_⟩
  · dsimp only
    omega
  · refine Fin.ext ?_
    dsimp only
    omega

end Binary64

namespace Number

/-- What the text of a number is read as; none if it is too large. -/
def reread? (n : Number) : Option Number := n.readBy? Literal.float?

/-- The text of a float is its sign and the text of its magnitude. -/
theorem floatText_eq (x : Binary64) : floatText x
    = (if x.negative then ['-'] else []) ++ floatText { x with negative := false } := by
  simp only [floatText, Binary64.units_sign, Binary64.shortest_sign]
  generalize (if x.units = 0 then ['0', '.', '0'] else magnitudeText format x.shortest) = magnitude
  cases x.negative <;> simp

/-- A float is read if its magnitude is. -/
theorem isSome_reread?_sign {x : Binary64}
    (h : (reread? (.float { x with negative := false })).isSome = true) :
    (reread? (.float x)).isSome = true := by
  obtain ⟨l, htext, hl⟩ := exists_floatText { x with negative := false }
  have hwf : Literal.WellFormed { l with negative := x.negative } :=
    ⟨hl.wellFormed.whole, hl.wellFormed.digits, hl.wellFormed.fraction⟩
  have hsign : floatText x = Literal.text { l with negative := x.negative } := by
    rw [floatText_eq, htext, Literal.text, Literal.text, hl.negative]
    rfl
  rw [reread?, readBy?, ofLiteralBy?, text, htext, Literal.ofChars?_text hl.wellFormed,
    Option.map_some, hl.valueBy?, Option.join_some, Option.isSome_map] at h
  rw [reread?, readBy?, ofLiteralBy?, text, hsign, Literal.ofChars?_text hwf, Option.map_some,
    Literal.valueBy?, if_pos hl.isFloat, Option.join_some, Option.isSome_map, l.isSome_float?_sign]
  exact h

theorem isSome_reread?_greatest : ∀ i : Fin 3,
    (reread? (.float ⟨false, 2046, ⟨4503599627370493 + i, by omega⟩⟩)).isSome = true := by
  decide +kernel

/-- **No number that is written is too large to be read.** -/
theorem isSome_reread? (n : Number) : n.reread?.isSome = true := by
  cases n with
  | integer n low high =>
      rw [reread?, readBy?_integer]
      rfl
  | float x =>
      by_cases hx : x.units ≤ 9007199254740988 * 2 ^ (971 + Binary64.places)
      · obtain ⟨l, htext, hl⟩ := exists_floatText x
        obtain ⟨y, hy⟩ := Literal.exists_float? hl.wellFormed hl.short
          (hl.magnitude ▸ Binary64.quantity_shortest_le hx)
        rw [reread?, readBy?, ofLiteralBy?, text, htext, Literal.ofChars?_text hl.wellFormed,
          Option.map_some, hl.valueBy?, hy]
        rfl
      · obtain ⟨hexponent, i, hfraction⟩ := Binary64.eq_of_units_gt (Nat.not_le.mp hx)
        refine isSome_reread?_sign ?_
        rw [hexponent, hfraction]
        exact isSome_reread?_greatest i

/-- What the text of a number is read as. -/
def reread (n : Number) : Number := n.reread?.get n.isSome_reread?

theorem reread?_eq (n : Number) : n.reread? = some n.reread := (Option.some_get _).symm

/-- The text of a number is read as that number. -/
def Lasts (n : Number) : Prop := n.reread? = some n

instance (n : Number) : Decidable n.Lasts := inferInstanceAs (Decidable (n.reread? = some n))

/-- A half lasts. -/
example : Lasts (.float ⟨false, 1022, 0⟩) := by decide +kernel

/-- `904.4148330686475` is read as the next float, which is written `904.4148330686476`. -/
example : reread? (.float ⟨false, 1032, 3451717374966047⟩)
    = some (.float ⟨false, 1032, 3451717374966048⟩) := by
  decide +kernel

theorem lasts_integer (n : Int) (low : -9223372036854775808 ≤ n)
    (high : n < 18446744073709551616) : (integer n low high).Lasts :=
  readBy?_integer Literal.float? n low high

end Number

end Schemata

import Schemata.Proofs.Number.Nearest

/-!
# Schemata — Proofs — Number — Scaling

Where the float that an integer is read as is the number nearest to it.  The digits that are kept
make a number of 64 bits, and those that are left out a power of ten (`Literal.front_takeDigits`).
If the first has at most 53 places before its zeros and the exponent is at most 22, neither is
rounded, so the one product that is rounded is the integer itself
(`Binary64.ofDecimal?_of_scaled?`).  So it is for every integer of at most eight significant digits
below `10⁴¹` (`Literal.nearest?_of_float?`).
-/

namespace Schemata

namespace Binary64

variable {x : Binary64} {negative : Bool}

/-- The units that a number is made of are its own, if they have at most 53 places before zeros. -/
theorem units_of_ofUnits?_exact {a j : Nat} (ha : a < 2 ^ 53)
    (h : ofUnits? negative (a * 2 ^ j) 1 = some x) : x.units = a * 2 ^ j := by
  have hplaces : (a * 2 ^ j).log2 - 52 ≤ j := by
    rcases Nat.eq_zero_or_pos a with rfl | hpos
    · simp
    · have hlt : a * 2 ^ j < 2 ^ (53 + j) := by
        rw [Nat.pow_add]
        exact Nat.mul_lt_mul_of_pos_right ha (Nat.two_pow_pos j)
      have := (Nat.log2_lt (Nat.mul_pos hpos (Nat.two_pow_pos j)).ne').mpr hlt
      omega
  rw [units_of_ofUnits? (by decide) h, Nat.div_one]
  generalize (a * 2 ^ j).log2 - 52 = s at hplaces
  obtain ⟨i, rfl⟩ := Nat.exists_eq_add_of_le' hplaces
  rw [Nat.pow_add, ← Nat.mul_assoc, Nat.one_mul, roundHalfEven_exact _ (Nat.two_pow_pos s)]

/-- A natural number of at most 53 places before its zeros is not rounded. -/
theorem units_of_ofNat? {a j : Nat} (ha : a < 2 ^ 53) (h : ofNat? (a * 2 ^ j) = some x) :
    x.units = a * 2 ^ j * 2 ^ places := by
  rw [ofNat?, natPow_eq, Nat.mul_assoc, ← Nat.pow_add] at h
  rw [units_of_ofUnits?_exact ha h, Nat.pow_add, Nat.mul_assoc]

/-- Nor is a power of ten up to the twenty-second. -/
theorem units_of_ofNat?_ten {k : Nat} (hk : k ≤ 22) (h : ofNat? (10 ^ k) = some x) :
    x.units = 10 ^ k * 2 ^ places := by
  have hten : (10 : Nat) ^ k = 5 ^ k * 2 ^ k := by rw [← Nat.mul_pow]
  have hfive : 5 ^ k < 2 ^ 53 :=
    Nat.lt_of_le_of_lt (Nat.pow_le_pow_right (by decide) hk) (by decide)
  rw [hten] at h ⊢
  exact units_of_ofNat? hfive h

/-- A number is rounded under either sign alike. -/
theorem ofUnits?_sign {sign : Bool} {num den : Nat} (h : ofUnits? sign num den = some x) :
    ofUnits? negative num den = some { x with negative } := by
  have hsign : ∀ {m s : Nat}, ofSignificand? sign m s = some x →
      ofSignificand? negative m s = some { x with negative } := by
    intro m s h
    unfold ofSignificand? at h ⊢
    split at h
    · split at h
      · rw [dif_pos ‹_›, if_pos ‹_›, ← Option.some.inj h]
      · nomatch h
    · split at h
      · rw [dif_neg ‹_›, dif_pos ‹_›, ← Option.some.inj h]
      · nomatch h
  dsimp only [ofUnits?] at h ⊢
  split at h
  · next hm => rw [if_pos hm, hsign h]
  · next hm => rw [if_neg hm, hsign h]

/-- A natural number is rounded as its units are. -/
theorem ofDecimal?_natural {n : Nat} (hpos : 0 < n) (hn : n < 10 ^ 42) :
    ofDecimal? negative n 0 = ofUnits? negative (n * 2 ^ places) 1 := by
  have hlen := (Nat.length_toDigits_le_iff (b := 10) (by decide) (by decide)).mpr hn
  simp only [ofDecimal?]
  rw [if_neg hpos.ne', if_neg (by omega), if_neg (by omega), if_pos (Int.le_refl 0)]
  simp

/-- Zero is scaled to zero. -/
theorem units_of_scaled?_zero {k : Nat} (h : scaled? 0 k = some x) : x.units = 0 := by
  simp only [scaled?, Option.bind_eq_bind, Option.bind_eq_some_iff] at h
  obtain ⟨y, hy, h⟩ := h
  have hzero : y.units = 0 := by
    have hunits := @units_of_ofNat? y 0 0 (by decide) (by simpa using hy)
    simpa using hunits
  rw [if_pos (Int.natCast_nonneg k)] at h
  split at h
  · obtain ⟨t, -, h⟩ := Option.bind_eq_some_iff.mp h
    rw [times?, hzero, Nat.zero_mul, natPow_eq] at h
    rw [units_of_ofUnits? (Nat.two_pow_pos places) h]
    simp [roundHalfEven]
  · exact Option.some.inj h ▸ hzero

/-- **What is scaled without rounding on the way** is the number nearest to the product. -/
theorem ofDecimal?_of_scaled? {a j k : Nat} (ha : a < 2 ^ 53) (hpos : 0 < a) (hk : k ≤ 22)
    (hn : a * 2 ^ j < 2 ^ 64) (h : scaled? (a * 2 ^ j) k = some x) :
    ofDecimal? negative (a * 2 ^ j * 10 ^ k) 0 = some { x with negative } := by
  simp only [scaled?, Option.bind_eq_bind, Option.bind_eq_some_iff] at h
  obtain ⟨y, hy, h⟩ := h
  rw [if_pos (Int.natCast_nonneg k), if_pos (by simp only [maxTens]; omega)] at h
  obtain ⟨t, ht, h⟩ := Option.bind_eq_some_iff.mp h
  have hbound : a * 2 ^ j * 10 ^ k < 10 ^ 42 :=
    calc a * 2 ^ j * 10 ^ k ≤ a * 2 ^ j * 10 ^ 22 :=
          Nat.mul_le_mul_left _ (Nat.pow_le_pow_right (by decide) hk)
      _ < 2 ^ 64 * 10 ^ 22 := Nat.mul_lt_mul_of_pos_right hn (by decide)
      _ ≤ 10 ^ 42 := by decide
  rw [ofDecimal?_natural (by positivity) hbound]
  rw [times?, units_of_ofNat? ha hy, units_of_ofNat?_ten hk ht, natPow_eq] at h
  have hunits := ofUnits?_mul false (a * 2 ^ j * 10 ^ k * 2 ^ places) 1 (Nat.two_pow_pos places)
  rw [Nat.one_mul] at hunits
  have hexact : ofUnits? false (a * 2 ^ j * 10 ^ k * 2 ^ places) 1 = some x := by
    rw [← hunits, ← h]
    congr 1
    ring
  exact ofUnits?_sign hexact

end Binary64

namespace Literal

/-! ### The digits that are kept -/

/-- Digits split where they would leave 64 bits: those in front make `m` behind `n`, and what the
next of the others would make is too large. -/
structure Front (n : Nat) (ds : List Char) (m count : Nat) : Prop where
  count_le : count ≤ ds.length
  value : m = Nat.ofDigitChars 10 (ds.take count) n
  fits : n < 2 ^ 64 → m < 2 ^ 64
  full : count < ds.length → 2 ^ 64 ≤ 10 * m + 9

theorem digit_le {c : Char} (hc : c.isDigit = true) : c.toNat - '0'.toNat ≤ 9 := by
  have hle : c.toNat ≤ '9'.toNat := (Char.isDigit_iff_toNat.mp hc).2
  have hnine : '9'.toNat = '0'.toNat + 9 := rfl
  omega

theorem front_takeDigits {ds : List Char} (hds : ∀ c ∈ ds, c.isDigit = true) (n : Nat) :
    Front n ds (takeDigits n ds).1 (takeDigits n ds).2 := by
  induction ds generalizing n with
  | nil => exact ⟨Nat.le_refl _, rfl, id, nofun⟩
  | cons c rest ih =>
      have hdigit := digit_le (hds c List.mem_cons_self)
      have hrest := ih (fun c hc => hds c (List.mem_cons_of_mem _ hc))
        (10 * n + (c.toNat - '0'.toNat))
      unfold takeDigits
      extract_lets next
      split
      · next hnext =>
          exact {
            count_le := Nat.succ_le_succ hrest.count_le
            value := hrest.value
            fits := fun _ => hrest.fits hnext
            full := fun hcount => hrest.full (Nat.lt_of_succ_lt_succ hcount) }
      · next hnext =>
          exact ⟨Nat.zero_le _, rfl, id, fun _ => by simp only [next] at hnext; omega⟩

/-- So many digits make less than that power of ten. -/
theorem ofDigitChars_lt {ds : List Char} (hds : ∀ c ∈ ds, c.isDigit = true) :
    Nat.ofDigitChars 10 ds 0 < 10 ^ ds.length := by
  induction ds with
  | nil => decide
  | cons c rest ih =>
      have hdigit := digit_le (hds c List.mem_cons_self)
      have hrest := ih fun c hc => hds c (List.mem_cons_of_mem _ hc)
      rw [Nat.ofDigitChars_cons, Nat.ofDigitChars_eq_ofDigitChars_zero, List.length_cons,
        Nat.pow_succ]
      nlinarith

/-- What is kept is the quotient by the power of ten that is left. -/
theorem Front.eq_div {ds : List Char} {m count : Nat} (h : Front 0 ds m count)
    (hds : ∀ c ∈ ds, c.isDigit = true) :
    m = Nat.ofDigitChars 10 ds 0 / 10 ^ (ds.length - count) := by
  have hlt : Nat.ofDigitChars 10 (ds.drop count) 0 < 10 ^ (ds.drop count).length :=
    ofDigitChars_lt fun c hc => hds c (List.mem_of_mem_drop hc)
  have hlen : (ds.drop count).length = ds.length - count := List.length_drop
  rw [← List.take_append_drop count ds, Nat.ofDigitChars_append, ← h.value,
    Nat.ofDigitChars_eq_ofDigitChars_zero, List.take_append_drop, hlen, Nat.mul_add_div
    (Nat.pow_pos (by decide)), Nat.div_eq_of_lt (hlen ▸ hlt), Nat.add_zero]

/-- An integer is read by what is kept of its digits and how many are left out. -/
theorem exists_scaled?_of_float? {negative : Bool} {ds : List Char} {x : Binary64}
    (hds : ∀ c ∈ ds, c.isDigit = true) (h : float? ⟨negative, ds, none, none⟩ = some x) :
    ∃ s count y, Front 0 ds s count ∧ x = { y with negative } ∧
      Binary64.scaled? s (ds.length - count : Nat) = some y := by
  simp only [float?, Option.getD_none, takeDigits, Int.zero_add, Int.natCast_zero, Int.sub_zero]
    at h
  obtain ⟨y, hy, rfl⟩ := Option.map_eq_some_iff.mp h
  exact ⟨_, _, y, front_takeDigits hds 0, rfl, hy⟩

/-- Zeros are read as a zero. -/
theorem units_of_float?_zero {negative : Bool} {ds : List Char} {x : Binary64}
    (hds : ∀ c ∈ ds, c.isDigit = true) (h : float? ⟨negative, ds, none, none⟩ = some x)
    (hzero : Nat.ofDigitChars 10 ds 0 = 0) : x.units = 0 := by
  obtain ⟨s, count, y, hfront, rfl, hy⟩ := exists_scaled?_of_float? hds h
  obtain rfl : s = 0 := by rw [hfront.eq_div hds, hzero, Nat.zero_div]
  have hunits : y.units = 0 := Binary64.units_of_scaled?_zero hy
  exact hunits

/-- Digits that stay above a power of ten keep all zeros but those that are counted. -/
theorem eq_mul_pow_of_div {n m z k s : Nat} (hs : s = n / 10 ^ k) (hn : n = m * 10 ^ z)
    (hlarge : m ≤ s) (hpos : 0 < m) : ∃ j, z = j + k ∧ s = m * 10 ^ j := by
  have hle : s * 10 ^ k ≤ m * 10 ^ z := hn ▸ hs ▸ Nat.div_mul_le_self n (10 ^ k)
  have hzk : k ≤ z := by
    have hmk : m * 10 ^ k ≤ m * 10 ^ z := (Nat.mul_le_mul_right _ hlarge).trans hle
    exact (Nat.pow_le_pow_iff_right (by decide)).mp (Nat.le_of_mul_le_mul_left hmk hpos)
  obtain ⟨j, rfl⟩ := Nat.exists_eq_add_of_le' hzk
  refine ⟨j, rfl, ?_⟩
  rw [hs, hn, Nat.pow_add, ← Nat.mul_assoc, Nat.mul_div_cancel _ (Nat.pow_pos (by decide))]

/-- **An integer of at most eight significant digits below `10⁴¹`** that is read as a float is read
as the number nearest to it. -/
theorem nearest?_of_float? {negative : Bool} {ds : List Char} {x : Binary64}
    (hds : ∀ c ∈ ds, c.isDigit = true) (h : float? ⟨negative, ds, none, none⟩ = some x)
    {m z : Nat} (hm : m < 10 ^ 8) (hn : Nat.ofDigitChars 10 ds 0 = m * 10 ^ z)
    (hlow : 2 ^ 63 ≤ Nat.ofDigitChars 10 ds 0) (hhigh : Nat.ofDigitChars 10 ds 0 < 10 ^ 41) :
    Binary64.ofDecimal? negative (Nat.ofDigitChars 10 ds 0) 0 = some x := by
  obtain ⟨s, count, y, hfront, rfl, hy⟩ := exists_scaled?_of_float? hds h
  have hdiv := hfront.eq_div hds
  have hfull := hfront.full
  have hfits : s < 2 ^ 64 := hfront.fits (by decide)
  generalize hk : ds.length - count = k at hdiv hy
  generalize Nat.ofDigitChars 10 ds 0 = n at hn hlow hhigh hdiv ⊢
  -- nineteen digits are kept at least, so at most twenty-two are left out
  have hlarge : 10 ^ 18 ≤ s := by
    rcases Nat.eq_zero_or_pos k with rfl | hpos
    · rw [hdiv, Nat.pow_zero, Nat.div_one]
      omega
    · have := hfull (by omega)
      omega
  have hten : 10 ^ 18 * 10 ^ k < 10 ^ 41 :=
    calc 10 ^ 18 * 10 ^ k ≤ s * 10 ^ k := Nat.mul_le_mul_right _ hlarge
      _ ≤ n := hdiv ▸ Nat.div_mul_le_self n (10 ^ k)
      _ < 10 ^ 41 := hhigh
  have hk22 : k ≤ 22 := by
    rw [← Nat.pow_add, Nat.pow_lt_pow_iff_right (by decide)] at hten
    omega
  have hpos : 0 < m := Nat.pos_of_ne_zero (by rintro rfl; omega)
  obtain ⟨j, rfl, hs⟩ := eq_mul_pow_of_div hdiv hn (by omega) hpos
  -- of them eight are significant, so there are eleven zeros, and as many factors of two
  have hj : 11 ≤ j := by
    by_contra hj
    have hlt : m * 10 ^ j < 10 ^ 18 :=
      calc m * 10 ^ j ≤ m * 10 ^ 10 :=
            Nat.mul_le_mul_left _ (Nat.pow_le_pow_right (by decide) (by omega))
        _ < 10 ^ 8 * 10 ^ 10 := Nat.mul_lt_mul_of_pos_right hm (by decide)
    exact absurd hlarge (Nat.not_le.mpr (hs ▸ hlt))
  obtain ⟨i, rfl⟩ := Nat.exists_eq_add_of_le' hj
  have hsplit : s = m * 10 ^ i * 5 ^ 11 * 2 ^ 11 := by
    rw [hs, Nat.pow_add, show (10 : Nat) ^ 11 = 5 ^ 11 * 2 ^ 11 by rfl, Nat.mul_assoc (m * _),
      Nat.mul_assoc m]
  rw [hsplit] at hfits
  have hplaces : m * 10 ^ i * 5 ^ 11 < 2 ^ 53 :=
    Nat.lt_of_mul_lt_mul_right (hfits.trans_eq (by norm_num : 2 ^ 64 = 2 ^ 53 * 2 ^ 11))
  have hproduct : n = m * 10 ^ i * 5 ^ 11 * 2 ^ 11 * 10 ^ k := by
    rw [hn, ← hsplit, hs, Nat.pow_add _ (i + 11) k, Nat.mul_assoc]
  rw [hproduct]
  refine Binary64.ofDecimal?_of_scaled? hplaces (by positivity) hk22 hfits ?_
  rw [← hsplit, hy]

end Literal

end Schemata

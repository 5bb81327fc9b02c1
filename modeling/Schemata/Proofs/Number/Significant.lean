import Schemata.Proofs.Number.Nearest

/-!
# Schemata — Proofs — Number — Significant

The digits of a decimal that survive in a binary64 number.  Its neighbours on the grid of fifteen
significant digits are tried before any finer ones, and no two decimals of that grid lie within the
rounding error of one number.  So a natural number of at most fifteen significant digits is the
decimal that is written for what it rounds to (`Binary64.quantity_shortest`).
-/

namespace Schemata

namespace Binary64

variable {x : Binary64}

/-! ### The search for digits -/

/-- A neighbour that rounds to the number is enough for a count of digits. -/
theorem decimalOf?_ne_none {count n : Nat} {e : Int}
    (hn : n = x.decimalUnits / 10 ^ ((Nat.toDigits 10 x.decimalUnits).length - count) ∨
      n = x.decimalUnits / 10 ^ ((Nat.toDigits 10 x.decimalUnits).length - count) + 1)
    (he : e = ((Nat.toDigits 10 x.decimalUnits).length - count : Nat) - places)
    (h : ofDecimal? x.negative n e = some x) : x.decimalOf? count ≠ none := by
  have hreads : x.roundsFrom ⟨n, e⟩ = true := decide_eq_true h
  subst he
  unfold decimalOf?
  extract_lets whole place step low high twice nearLow
  rcases hn with rfl | rfl
  · have hlow : x.roundsFrom low = true := hreads
    rw [if_pos hlow]
    split <;> simp
  · have hhigh : x.roundsFrom high = true := hreads
    split
    · split <;> simp
    · simp

/-- What is found for a count of digits has no more of them. -/
theorem quantity_of_decimalOf? {count : Nat} {d : Decimal} (h : x.decimalOf? count = some d) :
    d.quantity * 10 ^ places
      = (d.digits * 10 ^ ((Nat.toDigits 10 x.decimalUnits).length - count) : Nat) := by
  obtain ⟨digits, exponent⟩ := d
  obtain rfl : exponent = ((Nat.toDigits 10 x.decimalUnits).length - count : Nat) - places := by
    unfold decimalOf? at h
    extract_lets at h
    split at h
    · split at h <;> exact (Decimal.mk.inj (Option.some.inj h)).2.symm
    · split at h
      · exact (Decimal.mk.inj (Option.some.inj h)).2.symm
      · nomatch h
  exact Decimal.quantity_mul_units _ _ places

/-- The search stops at the latest where a neighbour rounds to the number. -/
theorem exists_decimalOf?_shortest (h : x.decimalOf? 15 ≠ none) :
    ∃ count ≤ 15, x.decimalOf? count = some x.shortest := by
  have hsplit : List.range' 1 17 = List.range' 1 15 ++ [16, 17] := rfl
  unfold shortest
  rw [hsplit, List.findSome?_append]
  cases hfind : (List.range' 1 15).findSome? x.decimalOf? with
  | none =>
      exact absurd (List.findSome?_eq_none_iff.mp hfind 15 (by decide)) h
  | some d =>
      obtain ⟨count, hmem, hd⟩ := List.exists_of_findSome?_eq_some hfind
      refine ⟨count, ?_, hd⟩
      simp only [List.mem_range'_1] at hmem
      omega

/-! ### Steps of fifteen digits -/

/-- The last place of fifteen digits, in decimal units. -/
def step (x : Binary64) : Nat := 10 ^ ((Nat.toDigits 10 x.decimalUnits).length - 15)

/-- So many decimal units lie within half a step of the number. -/
def Near (x : Binary64) (n : Nat) : Prop :=
  2 * n < 2 * x.decimalUnits + x.step ∧ 2 * x.decimalUnits < 2 * n + x.step

theorem step_pos : 0 < x.step := Nat.pow_pos (by decide)

theorem decimalUnits_lt (hx : 0 < x.units) : x.decimalUnits < 10 ^ 15 * x.step := by
  have hlen : 673 < (Nat.toDigits 10 x.decimalUnits).length := (length_decimalUnits hx).1
  rw [step, ← pow_add, Nat.add_sub_cancel' (by omega)]
  exact (Nat.length_toDigits_le_iff (by decide) (by omega)).mp le_rfl

/-- What rounds to a number is near it. -/
theorem near_of_ofDecimal? {d : Decimal} {n : Nat}
    (h : ofDecimal? x.negative d.digits d.exponent = some x) (hx : 2 ^ 52 ≤ x.units)
    (hn : d.quantity * 10 ^ places = n) : x.Near n := by
  have hnear := decimalUnits_near h hx hn
  have hsteps : (x.decimalUnits : ℚ) < 10 ^ 15 * x.step := by
    exact_mod_cast decimalUnits_lt (by omega)
  have hlow := le_abs_self ((x.decimalUnits : ℚ) - n)
  have hhigh := neg_abs_le ((x.decimalUnits : ℚ) - n)
  have habs : |(x.decimalUnits : ℚ) - n| * 2 < x.step := by linarith
  have habove : (2 * n : ℚ) < 2 * x.decimalUnits + x.step := by linarith
  have hbelow : (2 * x.decimalUnits : ℚ) < 2 * n + x.step := by linarith
  exact ⟨by exact_mod_cast habove, by exact_mod_cast hbelow⟩

/-- No two multiples of the step are near the number. -/
theorem Near.le {a b : Nat} (ha : x.Near (a * x.step)) (hb : x.Near (b * x.step)) : a ≤ b := by
  have hlt : a * x.step < (b + 1) * x.step := by
    have := ha.1
    have := hb.2
    rw [Nat.add_one_mul]
    omega
  exact Nat.lt_succ_iff.mp (Nat.lt_of_mul_lt_mul_right hlt)

/-- A multiple of the step that is near the number is one of its two neighbours. -/
theorem Near.eq_div_or {a : Nat} (h : x.Near (a * x.step)) :
    a = x.decimalUnits / x.step ∨ a = x.decimalUnits / x.step + 1 := by
  obtain ⟨habove, hbelow⟩ := h
  have hlow : x.decimalUnits / x.step * x.step ≤ x.decimalUnits := Nat.div_mul_le_self _ _
  have hhigh : x.decimalUnits < (x.decimalUnits / x.step + 1) * x.step := by
    rw [Nat.mul_comm]
    exact Nat.lt_mul_div_succ _ step_pos
  have hfrom : x.decimalUnits / x.step * x.step < (a + 1) * x.step := by
    rw [Nat.add_one_mul]
    omega
  have hto : a * x.step < (x.decimalUnits / x.step + 1 + 1) * x.step := by
    rw [Nat.add_one_mul]
    omega
  have hfrom := Nat.lt_of_mul_lt_mul_right hfrom
  have hto := Nat.lt_of_mul_lt_mul_right hto
  omega

/-- A natural number rounds to one that has all its places. -/
theorem units_of_natural {n : Nat} (hn : 0 < n) (h : ofDecimal? x.negative n 0 = some x) :
    2 ^ 52 ≤ x.units := by
  have hnear := units_near (d := ⟨n, 0⟩) h fun _ => ⟨hn.ne', by simp⟩
  have hquantity : Decimal.quantity ⟨n, 0⟩ = n := by simp [Decimal.quantity]
  have hone : (2 : ℚ) ^ 53 ≤ 2 ^ places := 
    pow_le_pow_right₀ (by norm_num) (by rw [places_eq]; decide)
  have hn' : (1 : ℚ) ≤ n := by exact_mod_cast hn
  rw [hquantity] at hnear
  generalize (2 : ℚ) ^ places = one at hnear hone
  have hge : 2 ^ 53 ≤ n * one := by nlinarith
  rw [max_eq_left (by linarith)] at hnear
  have hlow := neg_abs_le ((x.units : ℚ) - n * one)
  have hunits : (2 : ℚ) ^ 52 ≤ x.units := by linarith
  exact_mod_cast hunits

/-- Fifteen significant digits are a multiple of the step, unless they are far from the number. -/
theorem step_dvd {m e : Nat} (hm : m < 10 ^ 15)
    (hnear : |(x.decimalUnits : ℚ) - (m * 10 ^ e : Nat)| * (2 ^ 53 - 1) ≤ x.decimalUnits) :
    x.step ∣ m * 10 ^ e := by
  have hpow : (0 : ℚ) < 10 ^ e := by positivity
  have hone : ((m + 1 : Nat) : ℚ) ≤ (10 ^ 15 : Nat) := Nat.cast_le.mpr hm
  have hsteps : ((m + 1 : Nat) : ℚ) * 10 ^ e ≤ (10 ^ 15 : Nat) * 10 ^ e :=
    mul_le_mul_of_nonneg_right hone hpow.le
  have hself := le_abs_self ((x.decimalUnits : ℚ) - (m * 10 ^ e : Nat))
  -- it has no more digits before the place of the last of them
  have hlt : x.decimalUnits < 10 ^ (15 + e) := by
    push_cast at hsteps hself hnear
    have hlt : (x.decimalUnits : ℚ) < 10 ^ 15 * 10 ^ e := by linarith
    rw [pow_add]
    exact_mod_cast hlt
  rw [← Nat.length_toDigits_le_iff (by decide) (by omega)] at hlt
  exact (pow_dvd_pow 10 (by omega)).mul_left m

/-- **Fifteen digits survive**: a natural number of no more significant digits is the decimal that
is written for what it rounds to. -/
theorem quantity_shortest {m k : Nat} (hpos : 0 < m) (hm : m < 10 ^ 15)
    (h : ofDecimal? x.negative (m * 10 ^ k) 0 = some x) :
    x.shortest.quantity = (m * 10 ^ k : Nat) := by
  have hx : 2 ^ 52 ≤ x.units := units_of_natural (Nat.mul_pos hpos (Nat.pow_pos (by decide))) h
  have hlen : 673 < (Nat.toDigits 10 x.decimalUnits).length := (length_decimalUnits (by omega)).1
  have hquantity : Decimal.quantity ⟨m * 10 ^ k, 0⟩ = (m * 10 ^ k : Nat) := by
    simp [Decimal.quantity]
  have hunits : Decimal.quantity ⟨m * 10 ^ k, 0⟩ * 10 ^ places = (m * 10 ^ (k + places) : Nat) := by
    rw [hquantity, pow_add, ← mul_assoc, Nat.cast_mul _ (10 ^ places), Nat.cast_pow 10 places,
      Nat.cast_ofNat]
  obtain ⟨a, ha⟩ := exists_eq_mul_left_of_dvd
    (step_dvd hm (decimalUnits_near (d := ⟨m * 10 ^ k, 0⟩) h hx hunits))
  rw [ha] at hunits
  have hnear : x.Near (a * x.step) := near_of_ofDecimal? (d := ⟨m * 10 ^ k, 0⟩) h hx hunits
  -- as a neighbour it rounds to the number, so no more digits than its own are tried
  obtain ⟨count, hcount, hshortest⟩ : ∃ count ≤ 15, x.decimalOf? count = some x.shortest := by
    refine exists_decimalOf?_shortest (decimalOf?_ne_none hnear.eq_div_or rfl ?_)
    rw [← h]
    exact @ofDecimal?_congr ⟨a, _⟩ ⟨m * 10 ^ k, 0⟩
      (mul_right_cancel₀ (by positivity)
        ((Decimal.quantity_mul_units _ _ places).trans hunits.symm)) _
  -- what is found for them is a multiple of the step too, and near
  have hfound := quantity_of_decimalOf? hshortest
  have hdvd : x.step ∣ 10 ^ ((Nat.toDigits 10 x.decimalUnits).length - count) :=
    pow_dvd_pow 10 (by omega)
  obtain ⟨b, hb⟩ := exists_eq_mul_left_of_dvd (hdvd.mul_left x.shortest.digits)
  rw [hb] at hfound
  have hnear' : x.Near (b * x.step) := near_of_ofDecimal? x.ofDecimal?_shortest hx hfound
  rw [Nat.le_antisymm (hnear'.le hnear) (hnear.le hnear'), ← hunits] at hfound
  exact (mul_right_cancel₀ (by positivity) hfound).trans hquantity

end Binary64

end Schemata

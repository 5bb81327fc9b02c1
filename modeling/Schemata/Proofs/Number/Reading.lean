import Mathlib.Data.List.TakeWhile
import Mathlib.Tactic.IntervalCases
import Schemata.Proofs.Number.Quantity

/-!
# Schemata — Proofs — Number — Reading

What is read of a number that is written.  The text of a number is the text of a literal
(`Literal.text`), whose parts are found again in it (`Literal.ofChars?_text`); it denotes the
number, and a float is the number nearest to it, however its digits lie around the point
(`Number.exists_literal`).  So a number is read back where literals are read as what is nearest to
them (`Number.readBy?_nearest`), and an integer however floats are read (`Number.readBy?_integer`).
-/

namespace Schemata

/-! ### The text of a literal -/

namespace Literal

/-- A fraction behind its point. -/
def fractionText : Option (List Char) → List Char
  | none   => []
  | some f => '.' :: f

/-- An exponent behind its mark, with its sign. -/
def exponentText : Option Int → List Char
  | none   => []
  | some e => 'e' :: (if e < 0 then '-' else '+') :: Nat.toDigits 10 e.natAbs

/-- The text of the parts. -/
def text (l : Literal) : List Char :=
  (if l.negative then ['-'] else []) ++
    (l.whole ++ (fractionText l.fraction ++ exponentText l.exponent))

/-- The whole part and the fraction are digits, at least one each, and no zero leads others. -/
structure WellFormed (l : Literal) : Prop where
  whole : validWhole l.whole = true
  digits : ∀ c ∈ l.whole, c.isDigit = true
  fraction : ∀ f, l.fraction = some f → f ≠ [] ∧ ∀ c ∈ f, c.isDigit = true

/-- A text does not start with a digit. -/
def NoDigitFirst (text : List Char) : Prop := ∀ c, text.head? = some c → c.isDigit = false

theorem noDigitFirst_exponentText (e : Option Int) : NoDigitFirst (exponentText e) := by
  cases e with
  | none => exact nofun
  | some e => intro c hc; obtain rfl := Option.some.inj hc; rfl

theorem noDigitFirst_fractionText (f : Option (List Char)) (e : Option Int) :
    NoDigitFirst (fractionText f ++ exponentText e) := by
  cases f with
  | none => exact noDigitFirst_exponentText e
  | some f => intro c hc; obtain rfl := Option.some.inj hc; rfl

variable {ds rest : List Char}

theorem takeWhile_digits (hds : ∀ c ∈ ds, c.isDigit = true) (hrest : NoDigitFirst rest) :
    (ds ++ rest).takeWhile Char.isDigit = ds := by
  rw [List.takeWhile_append_of_pos hds]
  cases rest with
  | nil => simp
  | cons c more => simp [hrest c rfl]

theorem dropWhile_digits (hds : ∀ c ∈ ds, c.isDigit = true) (hrest : NoDigitFirst rest) :
    (ds ++ rest).dropWhile Char.isDigit = rest := by
  rw [List.dropWhile_append_of_pos hds]
  cases rest with
  | nil => rfl
  | cons c more => simp [hrest c rfl]

theorem all_isDigit_toDigits (n : Nat) : (Nat.toDigits 10 n).all Char.isDigit = true :=
  List.all_eq_true.mpr fun _ hc => Nat.isDigit_of_mem_toDigits (by decide) (by decide) hc

/-- The exponent of a text is found in it. -/
theorem exponentPart?_text (e : Option Int) : exponentPart? (exponentText e) = some e := by
  cases e with
  | none => rfl
  | some e =>
      by_cases he : e < 0
      · have hvalue : -(e.natAbs : Int) = e := by omega
        simpa [exponentText, exponentPart?, he, all_isDigit_toDigits, Nat.toDigits_ne_nil]
          using hvalue
      · have hvalue : (e.natAbs : Int) = e := by omega
        simp [exponentText, exponentPart?, he, all_isDigit_toDigits, Nat.toDigits_ne_nil, hvalue]

/-- The parts of a text are found in it. -/
theorem ofChars?_text {l : Literal} (h : l.WellFormed) : ofChars? l.text = some l := by
  obtain ⟨negative, whole, fraction, exponent⟩ := l
  obtain ⟨hvalid, hdigits, hfraction⟩ := h
  have hfirst := noDigitFirst_fractionText fraction exponent
  unfold ofChars?
  split
  next negative' unsigned hsign =>
  obtain ⟨rfl, rfl⟩ : negative' = negative ∧
      unsigned = whole ++ (fractionText fraction ++ exponentText exponent) := by
    cases negative with
    | true => exact (Prod.mk.inj hsign).imp Eq.symm Eq.symm
    | false =>
        split at hsign
        -- no sign is written, and a digit is none
        · next h =>
            cases whole with
            | nil => nomatch hvalid
            | cons c more =>
                obtain ⟨rfl, -⟩ := List.cons.inj h
                nomatch hdigits '-' List.mem_cons_self
        · exact (Prod.mk.inj hsign).imp Eq.symm Eq.symm
  -- a run of digits ends where it was written to end, as what follows starts with none
  simp only [takeWhile_digits hdigits hfirst, dropWhile_digits hdigits hfirst, hvalid, if_true]
  cases fraction with
  | some f =>
      obtain ⟨hne, hf⟩ := hfraction f rfl
      have he := noDigitFirst_exponentText exponent
      simp [fractionText, takeWhile_digits hf he, dropWhile_digits hf he, hne, exponentPart?_text]
  | none =>
      simp only [fractionText, List.nil_append]
      split
      · next h => cases exponent <;> simp [exponentText] at h
      · simp [exponentPart?_text]

/-- What a text is made of. -/
theorem mem_text {l : Literal} (h : l.WellFormed) {c : Char} (hc : c ∈ l.text) :
    c.isDigit = true ∨ c ∈ ['-', '+', '.', 'e'] := by
  rw [text, List.mem_append, List.mem_append, List.mem_append] at hc
  rcases hc with hc | hc | hc | hc
  · split at hc
    · exact .inr (List.mem_cons.mpr (.inl (List.mem_singleton.mp hc)))
    · nomatch hc
  · exact .inl (h.digits c hc)
  · cases hf : l.fraction with
    | none => rw [hf] at hc; nomatch hc
    | some f =>
        rw [hf] at hc
        rcases List.mem_cons.mp hc with rfl | hc
        · exact .inr (by decide)
        · exact .inl ((h.fraction f hf).2 c hc)
  · cases he : l.exponent with
    | none => rw [he] at hc; nomatch hc
    | some e =>
        rw [he] at hc
        rcases List.mem_cons.mp hc with rfl | hc
        · exact .inr (by decide)
        · rcases List.mem_cons.mp hc with rfl | hc
          · exact .inr (by split <;> decide)
          · exact .inl (Nat.isDigit_of_mem_toDigits (by decide) (by decide) hc)

theorem text_ne_nil {l : Literal} (h : l.WellFormed) : l.text ≠ [] := by
  intro he
  have hwhole : l.whole = [] := by simp_all [text]
  have := h.whole
  rw [hwhole] at this
  nomatch this

end Literal

/-! ### Digits without needless zeros -/

namespace Literal

theorem validWhole_of_ne_zero {c : Char} (hc : c ≠ '0') (more : List Char) :
    validWhole (c :: more) = true := by
  unfold validWhole
  split <;> simp_all

/-- The first digit of a number above zero is not zero. -/
theorem toDigits_cons {n : Nat} (hn : 0 < n) :
    ∃ c more, Nat.toDigits 10 n = c :: more ∧ c ≠ '0' := by
  induction n using Nat.strongRecOn with
  | ind n ih =>
      by_cases h : n < 10
      · refine ⟨n.digitChar, [], Nat.toDigits_of_lt_base h, ?_⟩
        interval_cases n <;> decide
      · obtain ⟨c, more, hdigits, hc⟩ := ih (n / 10) (by omega) (by omega)
        refine ⟨c, more ++ [(n % 10).digitChar], ?_, hc⟩
        rw [Nat.toDigits_of_base_le (by decide) (by omega), hdigits, List.cons_append]

theorem validWhole_toDigits (n : Nat) : validWhole (Nat.toDigits 10 n) = true := by
  rcases Nat.eq_zero_or_pos n with rfl | hn
  · rw [Nat.toDigits_zero]; rfl
  · obtain ⟨c, more, h, hc⟩ := toDigits_cons hn
    rw [h, validWhole_of_ne_zero hc]

theorem wellFormed_toDigits (negative : Bool) (n : Nat) :
    WellFormed ⟨negative, Nat.toDigits 10 n, none, none⟩ where
  whole := validWhole_toDigits n
  digits := fun _ => Nat.isDigit_of_mem_toDigits (by decide) (by decide)
  fraction := nofun

end Literal

namespace Number

open Literal

/-- A decimal above zero by its digits: none of them is a needless zero, and the decimal is their
number, its point where `digitsAndPoint` says. -/
structure Spells (d : Decimal) (digits : List Char) (point : Int) : Prop where
  first : ∃ c more, digits = c :: more ∧ c ≠ '0'
  isDigit : ∀ c ∈ digits, c.isDigit = true
  quantity : Decimal.quantity ⟨Nat.ofDigitChars 10 digits 0, point - digits.length⟩ = d.quantity

theorem spells_digitsAndPoint {d : Decimal} (hd : 0 < d.digits) :
    Spells d (digitsAndPoint d).1 (digitsAndPoint d).2 := by
  obtain ⟨c, more, hall, hc⟩ := toDigits_cons hd
  -- all digits are those that are kept and as many zeros as were dropped
  obtain ⟨k, hk⟩ : ∃ k, Nat.toDigits 10 d.digits
      = ((Nat.toDigits 10 d.digits).reverse.dropWhile (· == '0')).reverse
        ++ List.replicate k '0' := by
    refine ⟨((Nat.toDigits 10 d.digits).reverse.takeWhile (· == '0')).length, ?_⟩
    have hzeros : (Nat.toDigits 10 d.digits).reverse.takeWhile (· == '0')
        = List.replicate ((Nat.toDigits 10 d.digits).reverse.takeWhile (· == '0')).length '0' :=
      List.eq_replicate_of_mem fun c hc => by simpa using List.mem_takeWhile_imp hc
    rw [← List.reverse_inj, List.reverse_append, List.reverse_reverse, List.reverse_replicate,
      ← hzeros, List.takeWhile_append_dropWhile]
  simp only [digitsAndPoint]
  generalize ((Nat.toDigits 10 d.digits).reverse.dropWhile (· == '0')).reverse = digits at hk
  have hvalue : d.digits = Nat.ofDigitChars 10 digits 0 * 10 ^ k := by
    rw [← Nat.ofDigitChars_ten_toDigits (n := d.digits), hk, Nat.ofDigitChars_append,
      Nat.ofDigitChars_replicate_zero, Nat.mul_comm]
  have hlength : ((Nat.toDigits 10 d.digits).length : Int) = digits.length + k := by
    rw [hk, List.length_append, List.length_replicate, Int.natCast_add]
  refine ⟨?_, fun c hc => ?_, ?_⟩
  · cases digits with
    | nil =>
        rw [hvalue, Nat.ofDigitChars_nil, Nat.zero_mul] at hd
        nomatch hd
    | cons c' more' =>
        rw [hall] at hk
        exact ⟨c', more', rfl, (List.cons.inj hk).1 ▸ hc⟩
  · exact Nat.isDigit_of_mem_toDigits (by decide) (by decide) (hk ▸ List.mem_append_left _ hc)
  · rw [hlength]
    obtain ⟨n, e⟩ := d
    obtain rfl : n = _ := hvalue
    rw [Decimal.quantity_mul_pow]
    dsimp only
    congr 2
    omega

/-- A literal without sign that denotes a decimal, as floats are written. -/
structure Writes (l : Literal) (d : Decimal) : Prop where
  wellFormed : l.WellFormed
  unsigned : l.negative = false
  isFloat : l.fraction.isSome ∨ l.exponent.isSome
  short : l.whole.length ≤ 16
  quantity : l.magnitude.quantity = d.quantity

/-- Under either sign the literal rounds to what the decimal does. -/
theorem Writes.rounds {l : Literal} {d : Decimal} (h : Writes l d) (negative : Bool) :
    nearest? { l with negative } = Binary64.ofDecimal? negative d.digits d.exponent :=
  Binary64.ofDecimal?_congr h.quantity negative

namespace Spells

variable {d : Decimal} {digits : List Char} {point : Int}

theorem isDigit_zeros (n : Nat) : ∀ c ∈ List.replicate n '0', c.isDigit = true := by
  intro c hc
  rw [List.eq_of_mem_replicate hc]
  rfl

theorem validWhole_append (h : Spells d digits point) (more : List Char) :
    validWhole (digits ++ more) = true := by
  obtain ⟨c, rest, rfl, hc⟩ := h.first
  exact validWhole_of_ne_zero hc _

/-- The point behind all digits. -/
theorem whole (h : Spells d digits point) (hp : 0 < point ∧ point ≤ 16)
    (hlen : digits.length ≤ point.toNat) :
    Writes ⟨false, digits ++ List.replicate (point.toNat - digits.length) '0', some ['0'], none⟩
      d where
  wellFormed := {
    whole := h.validWhole_append _
    digits := fun c hc => (List.mem_append.mp hc).elim (h.isDigit c) (isDigit_zeros _ c)
    fraction := by rintro f ⟨⟩; exact ⟨by simp, isDigit_zeros 1⟩ }
  unsigned := rfl
  isFloat := .inl rfl
  short := by simp; omega
  quantity := by
    -- the zeros up to the point, and the one behind it, are taken back by the exponent
    have hvalue : Nat.ofDigitChars 10 (digits ++ List.replicate (point.toNat - digits.length) '0' ++
        ['0']) 0 = Nat.ofDigitChars 10 digits 0 * 10 ^ (point.toNat - digits.length + 1) := by
      rw [List.append_assoc, ← List.replicate_succ', Nat.ofDigitChars_append,
        Nat.ofDigitChars_replicate_zero, Nat.mul_comm]
    rw [magnitude, Option.getD_some, hvalue, Decimal.quantity_mul_pow, ← h.quantity]
    congr 2
    simp
    omega

/-- The point among the digits. -/
theorem within (h : Spells d digits point) (hp : 0 < point ∧ point ≤ 16)
    (hlen : point.toNat < digits.length) :
    Writes ⟨false, digits.take point.toNat, some (digits.drop point.toNat), none⟩ d where
  wellFormed := {
    whole := by
      obtain ⟨c, rest, rfl, hc⟩ := h.first
      obtain ⟨n, hn⟩ : ∃ n, point.toNat = n + 1 := ⟨point.toNat - 1, by omega⟩
      rw [hn, List.take_succ_cons]
      exact validWhole_of_ne_zero hc _
    digits := fun c hc => h.isDigit c (List.mem_of_mem_take hc)
    fraction := by
      rintro f ⟨⟩
      exact ⟨by simpa using hlen, fun c hc => h.isDigit c (List.mem_of_mem_drop hc)⟩ }
  unsigned := rfl
  isFloat := .inl rfl
  short := by simp; omega
  quantity := by
    rw [magnitude, Option.getD_some, List.take_append_drop, ← h.quantity]
    congr 2
    simp
    omega

/-- The point in front of all digits. -/
theorem below (h : Spells d digits point) (hp : point ≤ 0) :
    Writes ⟨false, ['0'], some (List.replicate (-point).toNat '0' ++ digits), none⟩ d where
  wellFormed := {
    whole := rfl
    digits := isDigit_zeros 1
    fraction := by
      rintro f ⟨⟩
      obtain ⟨c, rest, rfl, -⟩ := h.first
      refine ⟨by simp, fun c hc => ?_⟩
      exact (List.mem_append.mp hc).elim (isDigit_zeros _ c) (h.isDigit c) }
  unsigned := rfl
  isFloat := .inl rfl
  short := by simp
  quantity := by
    have hvalue : Nat.ofDigitChars 10 (['0'] ++ (List.replicate (-point).toNat '0' ++ digits)) 0
        = Nat.ofDigitChars 10 digits 0 := by
      rw [← List.append_assoc, Nat.ofDigitChars_append, List.singleton_append,
        ← List.replicate_succ, Nat.ofDigitChars_replicate_zero, Nat.mul_zero]
    rw [magnitude, Option.getD_some, hvalue, ← h.quantity]
    congr 2
    simp
    omega

/-- The point behind the first digit, and an exponent. -/
theorem scaled {c : Char} {rest : List Char} (h : Spells d (c :: rest) point) :
    Writes ⟨false, [c], if rest = [] then none else some rest, some (point - 1)⟩ d where
  wellFormed := {
    whole := by
      obtain ⟨c, rest, ⟨⟩, hc⟩ := h.first
      exact validWhole_of_ne_zero hc []
    digits := fun c hc => h.isDigit c (List.mem_cons.mpr (.inl (List.mem_singleton.mp hc)))
    fraction := by
      intro f hf
      split at hf
      · nomatch hf
      · next hne =>
          obtain rfl := Option.some.inj hf
          exact ⟨hne, fun c hc => h.isDigit c (List.mem_cons_of_mem _ hc)⟩ }
  unsigned := rfl
  isFloat := .inr rfl
  short := by simp
  quantity := by
    rw [magnitude, ← h.quantity]
    split
    · next hrest =>
        subst hrest
        congr 2
        simp
    · congr 2
      simp
      omega

end Spells

/-- The text of a magnitude above zero is that of a literal. -/
theorem exists_magnitudeText {d : Decimal} (hd : 0 < d.digits) :
    ∃ l, magnitudeText format d = l.text ∧ Writes l d := by
  have h := spells_digitsAndPoint hd
  simp only [magnitudeText]
  generalize (digitsAndPoint d).1 = digits at h ⊢
  generalize (digitsAndPoint d).2 = point at h ⊢
  -- the four layouts of the writer, in its order
  split
  · next hp =>
      split
      · next hlen =>
          exact ⟨_, by simp [Literal.text, fractionText, exponentText], h.whole hp hlen⟩
      · next hlen =>
          refine ⟨_, ?_, h.within hp (by omega)⟩
          simp [Literal.text, fractionText, exponentText]
  · split
    · next hp => exact ⟨_, by simp [Literal.text, fractionText, exponentText], h.below hp.1⟩
    · obtain ⟨c, rest, rfl, -⟩ := h.first
      refine ⟨_, ?_, h.scaled⟩
      cases rest <;> simp [Literal.text, fractionText, exponentText]

/-- Only a zero has no digits. -/
theorem digits_shortest_pos {x : Binary64} (hx : x.units ≠ 0) : 0 < x.shortest.digits := by
  rcases Nat.eq_zero_or_pos x.shortest.digits with h | h
  -- the digits of zero would read back as zero
  · have hzero := x.ofDecimal?_shortest
    rw [h, Binary64.ofDecimal?, if_pos rfl] at hzero
    rw [← Option.some.inj hzero] at hx
    exact absurd (Nat.zero_mul _) hx
  · exact h

theorem shortest_zero (negative : Bool) :
    (Binary64.zero negative).shortest = ⟨0, -Binary64.places⟩ := by
  cases negative <;> decide +kernel

/-- A literal that a float is nearest to, and that denotes what is written of it. -/
structure WritesFloat (l : Literal) (x : Binary64) : Prop where
  wellFormed : l.WellFormed
  isFloat : l.fraction.isSome ∨ l.exponent.isSome
  short : l.whole.length ≤ 16
  nearest : nearest? l = some x
  magnitude : l.magnitude.quantity = x.shortest.quantity
  negative : l.negative = x.negative

namespace WritesFloat

variable {l : Literal} {x : Binary64}

theorem quantity (h : WritesFloat l x) : l.quantity = Number.quantity (.float x) := by
  rw [Literal.quantity, Number.quantity, h.magnitude, h.negative]

theorem valueBy? (h : WritesFloat l x) (float : Literal → Option Binary64) :
    l.valueBy? float = (float l).map .float := by
  rw [Literal.valueBy?, if_pos h.isFloat]

end WritesFloat

/-- The text of a float is that of a literal for it: a zero as such, any other by its decimal. -/
theorem exists_floatText (x : Binary64) :
    ∃ l : Literal, floatText x = l.text ∧ WritesFloat l x := by
  by_cases hx : x.units = 0
  · refine ⟨⟨x.negative, ['0'], some ['0'], none⟩, ?_, ⟨rfl, by simp, ?_⟩, .inl rfl, by simp, ?_,
      ?_, rfl⟩
    · rw [floatText, if_pos hx]
      cases x.negative <;> rfl
    · rintro f ⟨⟩
      simp
    · rw [Binary64.eq_zero_of_units hx]
      rfl
    · have hdigits : Nat.ofDigitChars 10 ['0', '0'] 0 = 0 := rfl
      rw [Binary64.eq_zero_of_units hx, shortest_zero]
      simp [Literal.magnitude, Decimal.quantity, hdigits]
  · obtain ⟨l, htext, hwrites⟩ := exists_magnitudeText (digits_shortest_pos hx)
    refine ⟨{ l with negative := x.negative }, ?_, ⟨hwrites.wellFormed.whole,
      hwrites.wellFormed.digits, hwrites.wellFormed.fraction⟩, hwrites.isFloat, hwrites.short,
      (hwrites.rounds x.negative).trans x.ofDecimal?_shortest, hwrites.quantity, rfl⟩
    rw [floatText, if_neg hx, htext, Literal.text, Literal.text, hwrites.unsigned]
    cases x.negative <;> rfl

theorem quantity_toDigits (negative : Bool) (n : Nat) :
    Literal.quantity ⟨negative, Nat.toDigits 10 n, none, none⟩
      = if negative then -(n : ℚ) else n := by
  have hmagnitude : Decimal.quantity (magnitude ⟨negative, Nat.toDigits 10 n, none, none⟩) = n := by
    simp [magnitude, Decimal.quantity]
  rw [Literal.quantity, hmagnitude]

/-- The text of an integer is that of a literal for it, however floats are read. -/
theorem exists_integerText (float : Literal → Option Binary64) (n : Int)
    (low : -9223372036854775808 ≤ n) (high : n < 18446744073709551616) :
    ∃ l : Literal, integerText n = l.text ∧ l.WellFormed ∧
      l.valueBy? float = some (.integer n low high) ∧ l.quantity = n := by
  cases n with
  | ofNat n =>
      refine ⟨⟨false, Nat.toDigits 10 n, none, none⟩, ?_, wellFormed_toDigits _ _, ?_, ?_⟩
      · simp [integerText, Literal.text, fractionText, exponentText]
      · have hn : n < 18446744073709551616 := by simpa using high
        simp [valueBy?, hn]
      · rw [quantity_toDigits]
        simp
  | negSucc n =>
      refine ⟨⟨true, Nat.toDigits 10 (n + 1), none, none⟩, ?_, wellFormed_toDigits _ _, ?_, ?_⟩
      · simp [integerText, Literal.text, fractionText, exponentText]
      · have hn : n + 1 ≤ 9223372036854775808 := by omega
        simp [valueBy?, hn, Int.negSucc_eq]
      · rw [quantity_toDigits]
        simp [Int.negSucc_eq]

/-- The text of a number is that of a literal nearest to it, which denotes the number. -/
theorem exists_literal (n : Number) :
    ∃ l : Literal, n.text = l.text ∧ l.WellFormed ∧ l.valueBy? nearest? = some n ∧
      l.quantity = n.quantity := by
  cases n with
  | integer value low high => exact exists_integerText nearest? value low high
  | float x =>
      obtain ⟨l, htext, hl⟩ := exists_floatText x
      exact ⟨l, htext, hl.wellFormed, by rw [hl.valueBy?, hl.nearest]; rfl, hl.quantity⟩

/-! ### What a written number is read as -/

variable (float : Literal → Option Binary64)

/-- What the text of a number is read as, where `float` reads the literals of floats; none if it is
too large. -/
def readBy? (n : Number) : Option Number := (ofLiteralBy? float n.text).join

/-- The text of a number is a literal. -/
theorem ofLiteralBy?_text (n : Number) : ofLiteralBy? float n.text = some (n.readBy? float) := by
  obtain ⟨l, htext, hwf, -⟩ := n.exists_literal
  rw [readBy?, ofLiteralBy?, htext, ofChars?_text hwf]
  rfl

/-- Where literals are read as the numbers nearest to them, **a number that is written is read
back**. -/
theorem readBy?_nearest (n : Number) : n.readBy? nearest? = some n := by
  obtain ⟨l, htext, hwf, hvalue, -⟩ := n.exists_literal
  rw [readBy?, ofLiteralBy?, htext, ofChars?_text hwf, Option.map_some, hvalue]
  rfl

/-- An integer is read back however floats are read. -/
theorem readBy?_integer (n : Int) (low : -9223372036854775808 ≤ n)
    (high : n < 18446744073709551616) :
    (integer n low high).readBy? float = some (.integer n low high) := by
  obtain ⟨l, htext, hwf, hvalue, -⟩ := exists_integerText float n low high
  rw [readBy?, ofLiteralBy?, text, htext, ofChars?_text hwf, Option.map_some, hvalue]
  rfl

end Number

end Schemata

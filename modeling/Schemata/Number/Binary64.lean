/-!
# Schemata — Number — Binary64

Finite binary64 numbers by their three fields, and rounding to them. Every finite magnitude is a
whole number of units of `2^-1074`, so a value is compared, rounded and written in exact natural
arithmetic. `ofUnits?` rounds a quotient of units to the nearest number, a tie going to the even
significand; `ofDecimal?` does so for `digits * 10^exponent`, and neither has a value above the
largest finite number.
-/

namespace Schemata

/-- A finite binary64 number: sign, biased exponent and fraction. -/
structure Binary64 where
  negative : Bool
  exponent : Fin 2047
  fraction : Fin 4503599627370496
deriving DecidableEq, Repr

/-- `num / den` to the nearest natural number, a tie to the even one. -/
def roundHalfEven (num den : Nat) : Nat :=
  let low := num / den
  let twice := 2 * (num % den)
  if twice < den then low
  else if den < twice then low + 1
  else low + low % 2

namespace Binary64

/-- The fraction with its leading bit, which subnormal numbers lack. -/
def significand (x : Binary64) : Nat :=
  if x.exponent.val = 0 then x.fraction.val else 4503599627370496 + x.fraction.val

/-- The power of two that scales the significand, counted from the smallest. -/
def scale (x : Binary64) : Nat := x.exponent.val - 1

/-- The place of the smallest unit, `2^-places`. -/
@[irreducible] def places : Nat := 1074

theorem places_eq : places = 1074 := by rw [places]

/-- The magnitude in units of `2^-places`. -/
def units (x : Binary64) : Nat := x.significand * Nat.pow 2 x.scale

/-- The zero of either sign. -/
def zero (negative : Bool) : Binary64 := ⟨negative, 0, 0⟩

/-- The number with a magnitude of `m * 2^s` units, where `m < 2^53` and `m < 2^52` only at
`s = 0`. -/
def ofSignificand? (negative : Bool) (m s : Nat) : Option Binary64 :=
  if h : m < 4503599627370496 then
    if s = 0 then some ⟨negative, 0, ⟨m, h⟩⟩ else none
  else if h : m - 4503599627370496 < 4503599627370496 ∧ s + 1 < 2047 then
    some ⟨negative, ⟨s + 1, h.2⟩, ⟨m - 4503599627370496, h.1⟩⟩
  else none

/-- The number nearest to `num / den` units. -/
def ofUnits? (negative : Bool) (num den : Nat) : Option Binary64 :=
  let s := (num / den).log2 - 52
  let m := roundHalfEven num (den * Nat.pow 2 s)
  if m < 9007199254740992 then ofSignificand? negative m s
  else ofSignificand? negative (m / 2) (s + 1)

/-- The number nearest to `digits * 10^exponent`. Magnitudes from `10^310` on have none, and those
below `10^-400` are zero, which spares the arithmetic on exponents of any size. -/
def ofDecimal? (negative : Bool) (digits : Nat) (exponent : Int) : Option Binary64 :=
  if digits = 0 then some (zero negative)
  else
    let top : Int := (Nat.toDigits 10 digits).length + exponent
    if 310 < top then none
    else if top < -400 then some (zero negative)
    else if 0 ≤ exponent then
      ofUnits? negative (digits * Nat.pow 10 exponent.toNat * Nat.pow 2 places) 1
    else ofUnits? negative (digits * Nat.pow 2 places) (Nat.pow 10 (-exponent).toNat)

end Binary64

end Schemata

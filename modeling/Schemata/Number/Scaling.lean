import Schemata.Number.Binary64

/-!
# Schemata — Number — Scaling

Binary64 numbers of decimals that are read. The significant digits are rounded first, and then
multiplied or divided by a power of ten, which is rounded itself; each step rounds to the nearest
number, so the result may lie beside the one that is nearest to the decimal. Exponents below `-308`
are reached by dividing by `10^308` more than once.
-/

namespace Schemata

namespace Binary64

/-- The number nearest to a natural number. -/
def ofNat? (n : Nat) : Option Binary64 := ofUnits? false (n * Nat.pow 2 places) 1

/-- The number nearest to the product of two magnitudes. -/
def times? (x y : Binary64) : Option Binary64 :=
  ofUnits? false (x.units * y.units) (Nat.pow 2 places)

/-- The number nearest to the quotient of two magnitudes. -/
def over? (x y : Binary64) : Option Binary64 :=
  ofUnits? false (x.units * Nat.pow 2 places) y.units

/-- The greatest exponent of a power of ten that is multiplied or divided by. -/
def maxTens : Nat := 308

/-- The magnitude divided by the greatest power of ten, so many times. -/
def lower? (x : Binary64) : Nat → Option Binary64
  | 0     => some x
  | n + 1 =>
    -- nothing is left to divide of a zero
    if x.units = 0 then some x
    else do (← x.over? (← ofNat? (Nat.pow 10 maxTens))).lower? n

/-- The magnitude that `digits * 10^exponent` is read as; none if it is too large. -/
def scaled? (digits : Nat) (exponent : Int) : Option Binary64 := do
  let x ← ofNat? digits
  if 0 ≤ exponent then
    if exponent ≤ maxTens then x.times? (← ofNat? (Nat.pow 10 exponent.toNat))
    else if x.units = 0 then return x
    else none
  else
    let places := (-exponent).toNat
    let turns := (places - 1) / maxTens
    (← x.lower? turns).over? (← ofNat? (Nat.pow 10 (places - turns * maxTens)))

end Binary64

end Schemata

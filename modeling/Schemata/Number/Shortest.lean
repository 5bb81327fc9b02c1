import Schemata.Number.Binary64

/-!
# Schemata — Number — Shortest

The shortest decimal that rounds to a given binary64 number. For each count of digits from one to
seventeen the two neighbours of the value on that decimal grid are tried: the first grid with a
neighbour that rounds to it wins, of two such neighbours the nearer, and of two equally near the
even one. Exactness comes from writing the value in units of `10^-places`, of which every finite
magnitude is a whole number.
-/

namespace Schemata

/-- The decimal number `digits * 10^exponent`. -/
structure Decimal where
  digits : Nat
  exponent : Int
deriving DecidableEq, Repr

namespace Binary64

/-- The magnitude in units of `10^-places`. -/
def decimalUnits (x : Binary64) : Nat := x.units * Nat.pow 5 places

/-- The decimal that is the magnitude itself. -/
def exactDecimal (x : Binary64) : Decimal := ⟨x.decimalUnits, -places⟩

/-- Whether the decimal, with the sign of `x`, rounds to `x`. -/
def roundsFrom (x : Binary64) (d : Decimal) : Bool :=
  ofDecimal? x.negative d.digits d.exponent = some x

/-- The decimal of at most `count` digits that rounds to `x`, if there is one. -/
def decimalOf? (x : Binary64) (count : Nat) : Option Decimal :=
  let whole := x.decimalUnits
  let place := (Nat.toDigits 10 whole).length - count
  let step := Nat.pow 10 place
  let low : Decimal := ⟨whole / step, place - places⟩
  let high : Decimal := ⟨whole / step + 1, place - places⟩
  let twice := 2 * (whole % step)
  let nearLow := if twice = step then low.digits % 2 = 0 else twice < step
  if x.roundsFrom low then
    if x.roundsFrom high && !nearLow then some high else some low
  else if x.roundsFrom high then some high
  else none

/-- The shortest decimal that rounds to `x`. -/
def shortest (x : Binary64) : Decimal :=
  ((List.range' 1 17).findSome? x.decimalOf?).getD x.exactDecimal

end Binary64

end Schemata

import Schemata.Number.Scaling
import Schemata.Number.Shortest

/-!
# Schemata — Number — Literal

Numbers of JSON text. A literal without fraction and exponent is an integer if it fits 64 bits,
signed or unsigned; `-0` and every other literal is a binary64 number: as many of its leading digits
as fit 64 bits are kept, and scaled by the power of ten that they stand at. `ofLiteral?` tells a
text that is no literal from a literal too large to have a value; `text` is the written form, of a
float the shortest decimal that is nearest to it. What is written of a float may so be read as one
beside it.
-/

namespace Schemata

/-- A number as JSON documents hold it. -/
inductive Number where
  | integer (value : Int) (low : -9223372036854775808 ≤ value) (high : value < 18446744073709551616)
  | float (value : Binary64)
deriving DecidableEq, Repr

/-- The parts of a number literal. -/
structure Literal where
  negative : Bool
  whole : List Char
  fraction : Option (List Char)
  exponent : Option Int
deriving DecidableEq, Repr

namespace Literal

/-- Digits of the whole part: no leading zero before other digits. -/
def validWhole : List Char → Bool
  | [] => false
  | ['0'] => true
  | c :: _ => c != '0'

/-- The exponent part, `e` included: absent at the end of the text. -/
def exponentPart? : List Char → Option (Option Int)
  | [] => some none
  | mark :: rest =>
    if mark = 'e' ∨ mark = 'E' then
      let (negative, digits) := match rest with
        | '-' :: r => (true, r)
        | '+' :: r => (false, r)
        | r => (false, r)
      if digits ≠ [] ∧ digits.all Char.isDigit then
        let n : Int := Nat.ofDigitChars 10 digits 0
        some (some (if negative then -n else n))
      else none
    else none

/-- The literal that the text is. -/
def ofChars? (text : List Char) : Option Literal :=
  let (negative, text) := match text with
    | '-' :: r => (true, r)
    | r => (false, r)
  let whole := text.takeWhile Char.isDigit
  if validWhole whole then
    match text.dropWhile Char.isDigit with
    | '.' :: rest =>
      let fraction := rest.takeWhile Char.isDigit
      if fraction = [] then none
      else (exponentPart? (rest.dropWhile Char.isDigit)).map fun e =>
        ⟨negative, whole, some fraction, e⟩
    | rest => (exponentPart? rest).map fun e => ⟨negative, whole, none, e⟩
  else none

/-- The number that digits behind those of `n` make with it, up to the first that would not leave it
in 64 bits, and how many they are. -/
def takeDigits (n : Nat) : List Char → Nat × Nat
  | []         => (n, 0)
  | c :: rest =>
    let next := 10 * n + (c.toNat - '0'.toNat)
    if next < 18446744073709551616 then
      let (m, count) := takeDigits next rest
      (m, count + 1)
    else (n, 0)

/-- The binary64 number that a literal is read as; none if it is too large. -/
def float? (l : Literal) : Option Binary64 :=
  let fraction := l.fraction.getD []
  let (n, whole) := takeDigits 0 l.whole
  let (digits, places) := takeDigits n fraction
  -- a digit of the whole part that is left out counts by its place alone
  let exponent := l.exponent.getD 0 + (l.whole.length - whole : Nat) - places
  (Binary64.scaled? digits exponent).map ({ · with negative := l.negative })

/-- The number a literal stands for, where `float` reads the literals of floats; none if it is too
large. -/
def valueBy? (float : Literal → Option Binary64) (l : Literal) : Option Number :=
  let n := Nat.ofDigitChars 10 l.whole 0
  if l.fraction.isSome ∨ l.exponent.isSome then (float l).map .float
  else if l.negative then
    if h : 0 < n ∧ n ≤ 9223372036854775808 then some (.integer (-n) (by omega) (by omega))
    else (float l).map .float
  else if h : n < 18446744073709551616 then some (.integer n (by omega) (by omega))
  else (float l).map .float

end Literal

/-- How the digits of a number lie around its point. -/
structure NumberFormat where
  /-- A point more than this many zeros before the first digit is written with an exponent. -/
  leadingZeros : Nat
  /-- A whole part of more than this many digits is written with an exponent. -/
  wholeDigits : Nat
deriving DecidableEq, Repr

namespace Number

/-- Floats are positional from `1e-5` up to `1e16`. -/
def format : NumberFormat := ⟨4, 16⟩

/-- The digits of a decimal without trailing zeros, and the place of the point after the first
digit's left end. -/
def digitsAndPoint (d : Decimal) : List Char × Int :=
  let all := Nat.toDigits 10 d.digits
  ((all.reverse.dropWhile (· == '0')).reverse, all.length + d.exponent)

/-- The text of a magnitude above zero. -/
def magnitudeText (f : NumberFormat) (d : Decimal) : List Char :=
  let (digits, point) := digitsAndPoint d
  if 0 < point ∧ point ≤ f.wholeDigits then
    let count := point.toNat
    if digits.length ≤ count then digits ++ List.replicate (count - digits.length) '0' ++ ['.', '0']
    else digits.take count ++ '.' :: digits.drop count
  else if point ≤ 0 ∧ -point ≤ f.leadingZeros then
    '0' :: '.' :: List.replicate (-point).toNat '0' ++ digits
  else
    let exponent := point - 1
    let mantissa := match digits with
      | first :: second :: rest => first :: '.' :: second :: rest
      | short => short
    mantissa ++ 'e' :: (if exponent < 0 then '-' else '+') :: Nat.toDigits 10 exponent.natAbs

/-- The text of a float: always with a fraction or an exponent. -/
def floatText (x : Binary64) : List Char :=
  let magnitude := if x.units = 0 then ['0', '.', '0'] else magnitudeText format x.shortest
  if x.negative then '-' :: magnitude else magnitude

/-- The text of an integer. -/
def integerText : Int → List Char
  | .ofNat n => Nat.toDigits 10 n
  | .negSucc n => '-' :: Nat.toDigits 10 (n + 1)

/-- The written form of a number. -/
def text : Number → List Char
  | .integer value _ _ => integerText value
  | .float x => floatText x

/-- The value of a literal, where `float` reads those of floats, or none within if it is too large;
none if the text is no literal. -/
def ofLiteralBy? (float : Literal → Option Binary64) (text : List Char) : Option (Option Number) :=
  (Literal.ofChars? text).map (Literal.valueBy? float)

/-- The value of a literal, or none within if it is too large; none if the text is no literal. -/
def ofLiteral? (text : List Char) : Option (Option Number) := ofLiteralBy? Literal.float? text

/-- An unsigned 64-bit integer, as counts are. -/
def toCount? : Number → Option UInt64
  | .integer value _ _ => if 0 ≤ value then some (UInt64.ofNat value.toNat) else none
  | .float _ => none

/-- The number of a count. -/
def ofCount (n : UInt64) : Number :=
  .integer n.toNat (by omega) (by have := n.toNat_lt; omega)

/-- The number of a signed 64-bit integer. -/
def ofInt64 (n : Int64) : Number :=
  .integer n.toInt (by have := n.le_toInt; omega) (by have := n.toInt_lt; omega)

end Number

end Schemata

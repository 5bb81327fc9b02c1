/-!
# Schemata — Instant

Instants and their texts. A text names a date and a time of day with seconds and any fraction of
them, and how far its clock is ahead of universal time, in minutes. An instant keeps the minute in
universal time, the second within it and nine digits of the fraction. The second 60, which any
minute may have, is a leap second.
-/

namespace Schemata

/-- A day of the calendar; years are counted as the calendar in use today extends backwards. -/
structure Date where
  year : Int
  month : Nat
  day : Nat
deriving DecidableEq, Repr

/-- An instant: the minutes since the start of 1970, the second within the minute, and the
billionths of a second. -/
structure Instant where
  minute : Int
  second : Nat
  nanos : Nat
deriving DecidableEq, Repr

namespace Date

/-- Whether a year has 366 days. -/
def isLeap (year : Int) : Bool := (year % 4 = 0 ∧ year % 100 ≠ 0) ∨ year % 400 = 0

/-- The number of days in a month. -/
def daysIn (year : Int) (month : Nat) : Nat :=
  if month = 2 then if isLeap year then 29 else 28
  else if month ∈ [4, 6, 9, 11] then 30
  else 31

/-- The days from the start of 1970 to a date. The year is taken to start in March, so that the day
that leap years add is its last. -/
def toDays (d : Date) : Int :=
  let year := if d.month ≤ 2 then d.year - 1 else d.year
  let inYear : Int := ((153 * ((d.month + 9) % 12) + 2) / 5 + d.day - 1 : Nat)
  year * 365 + year / 4 - year / 100 + year / 400 + inYear - 719468

/-- The date so many days from the start of 1970. -/
def ofDays (days : Int) : Date :=
  let shifted := days + 719468
  let era := shifted / 146097
  let inEra := (shifted % 146097).toNat
  let yearInEra := (inEra - inEra / 1460 + inEra / 36524 - inEra / 146096) / 365
  let inYear := inEra - (365 * yearInEra + yearInEra / 4 - yearInEra / 100)
  let fromMarch := (5 * inYear + 2) / 153
  let month := if fromMarch < 10 then fromMarch + 3 else fromMarch - 9
  { year := era * 400 + yearInEra + (if month ≤ 2 then 1 else 0)
    month
    day := inYear - (153 * fromMarch + 2) / 5 + 1 }

end Date

namespace Instant

/-- The instant so many seconds and billionths of a second after the start of 1970. -/
def ofSeconds (seconds : Int) (nanos : Nat) : Instant :=
  ⟨seconds / 60, (seconds % 60).toNat, nanos⟩

/-! ### Reading -/

/-- The number that exactly so many digits give, and the text after them. -/
def digits? (count : Nat) (text : List Char) : Option (Nat × List Char) :=
  let digits := text.take count
  if digits.length = count ∧ digits.all Char.isDigit then
    some (Nat.ofDigitChars 10 digits 0, text.drop count)
  else none

/-- The text after a character. -/
def skip? (c : Char) : List Char → Option (List Char)
  | d :: rest => if c = d then some rest else none
  | []        => none

/-- The date at the start of a text. -/
def date? (text : List Char) : Option (Date × List Char) := do
  let (year, text) ← digits? 4 text
  let (month, text) ← digits? 2 (← skip? '-' text)
  let (day, text) ← digits? 2 (← skip? '-' text)
  if 1 ≤ month ∧ month ≤ 12 ∧ 1 ≤ day ∧ day ≤ Date.daysIn year month then
    some (⟨year, month, day⟩, text)
  else none

/-- The hour, minute and second at the start of a text. -/
def clock? (text : List Char) : Option ((Nat × Nat × Nat) × List Char) := do
  let (hour, text) ← digits? 2 text
  let (minute, text) ← digits? 2 (← skip? ':' text)
  let (second, text) ← digits? 2 (← skip? ':' text)
  if hour < 24 ∧ minute < 60 ∧ second ≤ 60 then some ((hour, minute, second), text) else none

/-- The fraction at the start of a text, in billionths; what is finer is cut off. -/
def fraction? : List Char → Option (Nat × List Char)
  | '.' :: text =>
    let digits := text.takeWhile Char.isDigit
    if digits = [] then none
    else
      let nine := (digits ++ List.replicate 9 '0').take 9
      some (Nat.ofDigitChars 10 nine 0, text.dropWhile Char.isDigit)
  | text => some (0, text)

/-- The sign of an offset; the hyphen may be a minus sign. -/
def sign? : Char → Option Int
  | '+' => some 1
  | '-' => some (-1)
  | '−' => some (-1)
  | _   => none

/-- The offset that is the whole of a text, in minutes. -/
def offset? : List Char → Option Int
  | ['Z']        => some 0
  | ['z']        => some 0
  | mark :: text => do
    let sign ← sign? mark
    let (hours, text) ← digits? 2 text
    let (minutes, text) ← digits? 2 (← skip? ':' text)
    if hours < 24 ∧ minutes < 60 ∧ text = [] then some (sign * (hours * 60 + minutes : Nat))
    else none
  | [] => none

/-- The text after what stands between date and time. -/
def separator? : List Char → Option (List Char)
  | c :: text => if c ∈ ['T', 't', ' '] then some text else none
  | []        => none

/-- The instant that a text names. -/
def ofText? (text : String) : Option Instant := do
  let (date, text) ← date? text.toList
  let ((hour, minute, second), text) ← clock? (← separator? text)
  let (nanos, text) ← fraction? text
  let offset ← offset? text
  return ⟨date.toDays * 1440 + (hour * 60 + minute : Nat) - offset, second, nanos⟩

/-! ### Writing -/

/-- A number with zeros in front, up to a number of digits. -/
def padded (width n : Nat) : List Char :=
  let digits := Nat.toDigits 10 n
  List.replicate (width - digits.length) '0' ++ digits

/-- A year has four digits; one that needs more, or comes before the year 0, has a sign too. -/
def yearText (year : Int) : List Char :=
  if year < 0 then '-' :: padded 4 year.natAbs
  else if year > 9999 then '+' :: padded 4 year.natAbs
  else padded 4 year.natAbs

/-- A fraction has three, six or nine digits, or is left out. -/
def fractionText (nanos : Nat) : List Char :=
  if nanos = 0 then []
  else if nanos % 1000000 = 0 then '.' :: padded 3 (nanos / 1000000)
  else if nanos % 1000 = 0 then '.' :: padded 6 (nanos / 1000)
  else '.' :: padded 9 nanos

/-- The date and time of an instant in universal time. -/
def localText (t : Instant) : List Char :=
  let date := Date.ofDays (t.minute / 1440)
  let inDay := (t.minute % 1440).toNat
  yearText date.year ++ '-' :: padded 2 date.month ++ '-' :: padded 2 date.day ++
    'T' :: padded 2 (inDay / 60) ++ ':' :: padded 2 (inDay % 60) ++ ':' :: padded 2 t.second ++
    fractionText t.nanos

/-- The text of an instant, with a numeric offset. -/
def text (t : Instant) : String := String.ofList (t.localText ++ "+00:00".toList)

/-- The text of an instant, with the letter for universal time. -/
def textZ (t : Instant) : String := String.ofList (t.localText ++ ['Z'])

end Instant

end Schemata

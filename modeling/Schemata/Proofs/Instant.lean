import Schemata.Instant
import Schemata.Proofs.Number.Reading

/-!
# Schemata — Proofs — Instant

An instant that a clock can show, of a year with four digits, is read back from its text
(`Instant.ofText?_text`).  The calendar is the harder half: a number of days makes a date of the
calendar (`Date.isCivil_ofDays`), whose days are that number (`Date.toDays_ofDays`).  Both come from
where the years of an era of 400 start.
-/

namespace Schemata

/-! ### The calendar -/

namespace Date

/-- The day of an era on which a year of it starts, both counted from 0 and from March on. -/
def yearStart (year : Nat) : Nat := 365 * year + year / 4 - year / 100

/-- A day of an era without the days that leap years before it added, or nearly so. -/
def withoutLeapDays (day : Nat) : Nat := day - day / 1460 + day / 36524 - day / 146096

theorem withoutLeapDays_mono {a b : Nat} (h : a ≤ b) : withoutLeapDays a ≤ withoutLeapDays b := by
  induction h with
  | refl => exact Nat.le_refl _
  | step _ ih =>
      refine Nat.le_trans ih ?_
      unfold withoutLeapDays
      omega

/-- On the first and the last day of each year the year is found. -/
theorem withoutLeapDays_yearStart : ∀ year < 400,
    365 * year ≤ withoutLeapDays (yearStart year) ∧
      withoutLeapDays (yearStart (year + 1) - 1) < 365 * (year + 1) := by
  decide +kernel

/-- Years have 365 days, or 366 if they end in a leap year's February. -/
theorem yearStart_succ : ∀ year < 400, yearStart (year + 1) = yearStart year + 365 ∨
    yearStart (year + 1) = yearStart year + 366 ∧ (year + 1) % 4 = 0 ∧ (year + 1) % 100 ≠ 0 := by
  decide +kernel

theorem yearStart_le_of_year {day year : Nat} (hday : day < 146097)
    (hyear : withoutLeapDays day / 365 = year) :
    year < 400 ∧ yearStart year ≤ day ∧ (day < yearStart (year + 1) ∨ day = 146096) := by
  have hlast : withoutLeapDays day ≤ withoutLeapDays 146096 := withoutLeapDays_mono (by omega)
  have hlast' : withoutLeapDays 146096 = 145999 := by decide
  have hlt : year < 400 := by omega
  refine ⟨hlt, ?_, ?_⟩
  -- before its first day another year would be found, and on the first day of the next the next
  · by_contra hbefore
    cases year with
    | zero => simp [yearStart] at hbefore
    | succ year =>
        have hmono := withoutLeapDays_mono (show day ≤ yearStart (year + 1) - 1 by omega)
        have := (withoutLeapDays_yearStart year (by omega)).2
        omega
  · by_contra hbehind
    have hmono := withoutLeapDays_mono (show yearStart (year + 1) ≤ day by omega)
    by_cases hnext : year + 1 < 400
    · have := (withoutLeapDays_yearStart (year + 1) hnext).1
      omega
    · obtain rfl : year = 399 := by omega
      have hend : yearStart (399 + 1) = 146096 := by decide
      omega

/-- A month of the calendar, and a day of that month. -/
structure IsCivil (d : Date) : Prop where
  month : 1 ≤ d.month ∧ d.month ≤ 12
  day : 1 ≤ d.day ∧ d.day ≤ daysIn d.year d.month

/-- The month of a day of a year, both counted from March on. -/
def monthOf (day : Nat) : Nat := (5 * day + 2) / 153

/-- The day of a year on which a month of it starts. -/
def monthStart (month : Nat) : Nat := (153 * month + 2) / 5

/-- The number of a month of the calendar. -/
def calendarMonth (fromMarch : Nat) : Nat := if fromMarch < 10 then fromMarch + 3 else fromMarch - 9

theorem day_of_month : ∀ day < 366,
    monthOf day ≤ 11 ∧ monthStart (monthOf day) ≤ day ∧
      (calendarMonth (monthOf day) = 2 → day - monthStart (monthOf day) < 28 ∨ day = 365) ∧
      (calendarMonth (monthOf day) ≠ 2 → day - monthStart (monthOf day) + 1
        ≤ if calendarMonth (monthOf day) ∈ [4, 6, 9, 11] then 30 else 31) := by
  decide +kernel

/-- What a number of days is split into: the era, the year and the day of the year. -/
theorem ofDays_spec (days : Int) :
    ∃ (era : Int) (year day : Nat), year < 400 ∧ day < 366 ∧
      days + 719468 = era * 146097 + yearStart year + day ∧
      (day = 365 → (year + 1) % 4 = 0 ∧ ((year + 1) % 100 ≠ 0 ∨ year = 399)) ∧
      ofDays days = {
        year := era * 400 + year + (if calendarMonth (monthOf day) ≤ 2 then 1 else 0)
        month := calendarMonth (monthOf day)
        day := day - monthStart (monthOf day) + 1 } := by
  obtain ⟨inEra, hinEra⟩ : ∃ inEra, inEra = ((days + 719468) % 146097).toNat := ⟨_, rfl⟩
  obtain ⟨year, hyear⟩ : ∃ year, withoutLeapDays inEra / 365 = year := ⟨_, rfl⟩
  obtain ⟨hlt, hstart, hend⟩ := yearStart_le_of_year (by omega) hyear
  have hlast : inEra = 146096 → year = 399 := by
    rintro rfl
    exact hyear.symm.trans (by decide)
  have hofDays : ofDays days = {
      year := (days + 719468) / 146097 * 400 + year
        + (if calendarMonth (monthOf (inEra - yearStart year)) ≤ 2 then 1 else 0)
      month := calendarMonth (monthOf (inEra - yearStart year))
      day := inEra - yearStart year - monthStart (monthOf (inEra - yearStart year)) + 1 } := by
    subst hyear hinEra
    rfl
  refine ⟨_, year, inEra - yearStart year, hlt, ?_, ?_, ?_, hofDays⟩
  · have hlength := yearStart_succ year hlt
    have hstart' : yearStart 399 = 145731 := by decide
    by_cases hyear' : year = 399
    · subst hyear'
      omega
    · omega
  · omega
  · have hlength := yearStart_succ year hlt
    omega

theorem le_daysIn_february (year : Int) : 28 ≤ daysIn year 2 := by
  rw [daysIn, if_pos rfl]
  split <;> decide

/-- **A number of days makes a date of the calendar.** -/
theorem isCivil_ofDays (days : Int) : IsCivil (ofDays days) := by
  obtain ⟨era, year, day, -, hday, -, hleap, hofDays⟩ := ofDays_spec days
  obtain ⟨hmonth, hstart, hfebruary, hother⟩ := day_of_month day hday
  rw [hofDays]
  refine ⟨?_, Nat.succ_le_succ (Nat.zero_le _), ?_⟩
  · simp only [calendarMonth]
    split <;> omega
  · by_cases htwo : calendarMonth (monthOf day) = 2
    · simp only [htwo, Nat.le_refl, if_true]
      rcases hfebruary htwo with hshort | hlong
      · exact Nat.le_trans hshort (le_daysIn_february _)
      -- the 366th day from March on is the 29th of February
      · subst hlong
        have hyear : isLeap (era * 400 + year + 1) = true := by
          have := hleap rfl
          simp only [isLeap, decide_eq_true_eq]
          omega
        have hlast : 365 - monthStart (monthOf 365) = 28 := by decide
        rw [daysIn, if_pos rfl, hyear, hlast]
        decide
    · have := hother htwo
      simpa only [daysIn, htwo, if_false] using this

/-- **The days of the date are the number that made it.** -/
theorem toDays_ofDays (days : Int) : (ofDays days).toDays = days := by
  obtain ⟨era, year, day, hyear, hday, hdays, -, hofDays⟩ := ofDays_spec days
  obtain ⟨hmonth, hstart, -, -⟩ := day_of_month day hday
  -- the month and the year are counted from March on again
  have hback : (calendarMonth (monthOf day) + 9) % 12 = monthOf day := by
    unfold calendarMonth
    split <;> omega
  have hmarch : (if calendarMonth (monthOf day) ≤ 2 then
      era * 400 + year + (if calendarMonth (monthOf day) ≤ 2 then 1 else 0) - 1
      else era * 400 + year + (if calendarMonth (monthOf day) ≤ 2 then 1 else 0))
        = era * 400 + (year : Int) := by
    split <;> omega
  rw [hofDays, toDays]
  simp only [hback, hmarch]
  unfold monthStart at *
  unfold yearStart at hdays
  omega

end Date

/-! ### Texts -/

namespace Instant

open Literal (NoDigitFirst takeWhile_digits dropWhile_digits)

theorem length_padded {width n : Nat} (hwidth : 0 < width) (hn : n < 10 ^ width) :
    (padded width n).length = width := by
  have := (Nat.length_toDigits_le_iff (by decide) hwidth).mpr hn
  simp only [padded, List.length_append, List.length_replicate]
  omega

theorem isDigit_padded (width n : Nat) : ∀ c ∈ padded width n, c.isDigit = true := by
  intro c hc
  rcases List.mem_append.mp hc with hc | hc
  · rw [List.eq_of_mem_replicate hc]
    rfl
  · exact Nat.isDigit_of_mem_toDigits (by decide) (by decide) hc

theorem ofDigitChars_padded (width n : Nat) : Nat.ofDigitChars 10 (padded width n) 0 = n := by
  rw [padded, Nat.ofDigitChars_append, Nat.ofDigitChars_replicate_zero, Nat.mul_zero,
    Nat.ofDigitChars_ten_toDigits]

/-- A number with zeros in front is read back. -/
theorem digits?_padded {width n : Nat} (hwidth : 0 < width) (hn : n < 10 ^ width)
    (rest : List Char) : digits? width (padded width n ++ rest) = some (n, rest) := by
  have hlen := length_padded hwidth hn
  have htake : (padded width n ++ rest).take width = padded width n := List.take_left' hlen
  have hdrop : (padded width n ++ rest).drop width = rest := List.drop_left' hlen
  rw [digits?, htake, hdrop, if_pos ⟨hlen, List.all_eq_true.mpr (isDigit_padded width n)⟩,
    ofDigitChars_padded]

/-- The fraction of a second is read back in front of an offset. -/
theorem fraction?_text {nanos : Nat} (hnanos : nanos < 1000000000) (rest : List Char) :
    fraction? (fractionText nanos ++ '+' :: rest) = some (nanos, '+' :: rest) := by
  have hpoint : ∀ {width n : Nat}, 0 < width → width ≤ 9 → n < 10 ^ width →
      n * 10 ^ (9 - width) = nanos →
      fraction? ('.' :: padded width n ++ '+' :: rest) = some (nanos, '+' :: rest) := by
    intro width n hwidth hnine hn hvalue
    have hrest : NoDigitFirst ('+' :: rest) := by
      intro c hc
      obtain rfl := Option.some.inj hc
      rfl
    -- the nine places are filled up with zeros, which scale what was written
    have hne : padded width n ≠ [] := fun h => by
      have := length_padded hwidth hn
      rw [h, List.length_nil] at this
      omega
    have htake : (padded width n ++ List.replicate 9 '0').take 9
        = padded width n ++ List.replicate (9 - width) '0' := by
      rw [List.take_append, length_padded hwidth hn, List.take_replicate,
        List.take_of_length_le (by rw [length_padded hwidth hn]; exact hnine),
        Nat.min_eq_left (by omega)]
    simp only [fraction?, List.cons_append, takeWhile_digits (isDigit_padded width n) hrest,
      dropWhile_digits (isDigit_padded width n) hrest, hne, if_false, htake]
    rw [Nat.ofDigitChars_append, Nat.ofDigitChars_replicate_zero, ofDigitChars_padded, Nat.mul_comm,
      hvalue]
  unfold fractionText
  split
  · next h => rw [h]; rfl
  · split
    · exact hpoint (by decide) (by decide) (by omega) (by omega)
    · split
      · exact hpoint (by decide) (by decide) (by omega) (by omega)
      · exact hpoint (by decide) (by decide) hnanos (by omega)

/-- A date of a year with four digits is read back. -/
theorem date?_text {d : Date} (hd : d.IsCivil) (hyear : 0 ≤ d.year ∧ d.year ≤ 9999)
    (rest : List Char) :
    date? (yearText d.year ++ '-' :: (padded 2 d.month ++ '-' :: (padded 2 d.day ++ rest)))
      = some (d, rest) := by
  obtain ⟨hmonth, hday⟩ := hd
  have hnat : (d.year.natAbs : Int) = d.year := by omega
  have hlong : d.day < 10 ^ 2 := by
    have hmost : Date.daysIn d.year d.month ≤ 31 := by
      unfold Date.daysIn
      split_ifs <;> decide
    exact Nat.lt_of_le_of_lt (Nat.le_trans hday.2 hmost) (by decide)
  have htext : yearText d.year = padded 4 d.year.natAbs := by
    rw [yearText, if_neg (by omega), if_neg (by omega)]
  simp only [date?, htext, Option.bind_eq_bind,
    digits?_padded (show 0 < 4 by decide) (show d.year.natAbs < 10 ^ 4 by omega),
    digits?_padded (show 0 < 2 by decide) (show d.month < 10 ^ 2 by omega),
    digits?_padded (show 0 < 2 by decide) hlong, Option.bind_some, skip?, if_true, hnat]
  rw [if_pos ⟨hmonth.1, hmonth.2, hday.1, hday.2⟩]

/-- A time of day is read back. -/
theorem clock?_text {hour minute second : Nat} (hhour : hour < 24) (hminute : minute < 60)
    (hsecond : second ≤ 60) (rest : List Char) :
    clock? (padded 2 hour ++ ':' :: (padded 2 minute ++ ':' :: (padded 2 second ++ rest)))
      = some ((hour, minute, second), rest) := by
  simp only [clock?, Option.bind_eq_bind,
    digits?_padded (show 0 < 2 by decide) (show hour < 10 ^ 2 by omega),
    digits?_padded (show 0 < 2 by decide) (show minute < 10 ^ 2 by omega),
    digits?_padded (show 0 < 2 by decide) (show second < 10 ^ 2 by omega), Option.bind_some, skip?,
    if_true]
  rw [if_pos ⟨hhour, hminute, hsecond⟩]

/-- An instant that a clock shows in a year with four digits. -/
structure OnClock (t : Instant) : Prop where
  year : 0 ≤ (Date.ofDays (t.minute / 1440)).year ∧ (Date.ofDays (t.minute / 1440)).year ≤ 9999
  second : t.second ≤ 60
  nanos : t.nanos < 1000000000

/-- **The text of an instant is read back.** -/
theorem ofText?_text {t : Instant} (h : t.OnClock) : ofText? t.text = some t := by
  obtain ⟨minute, second, nanos⟩ := t
  obtain ⟨hyear, hsecond, hnanos⟩ := h
  have hdate := date?_text (Date.isCivil_ofDays (minute / 1440)) hyear
  have hhour : (minute % 1440).toNat / 60 < 24 := by omega
  have hclock := clock?_text hhour (Nat.mod_lt (minute % 1440).toNat (by decide : 0 < 60)) hsecond
  have hfraction := fraction?_text hnanos
  have hoffset : offset? ['+', '0', '0', ':', '0', '0'] = some 0 := by decide
  have hminute : minute / 1440 * 1440
      + ((minute % 1440).toNat / 60 * 60 + (minute % 1440).toNat % 60 : Nat) - 0 = minute := by
    omega
  have hzone : "+00:00".toList = ['+', '0', '0', ':', '0', '0'] := by decide
  have hseparator : ∀ rest, separator? ('T' :: rest) = some rest := fun _ => rfl
  simp only [ofText?, text, String.toList_ofList, localText, hzone, List.append_assoc,
    List.cons_append, hdate, hseparator, hclock, hfraction, hoffset, Option.bind_eq_bind,
    Option.bind_some, Option.pure_def, Date.toDays_ofDays, hminute]

end Instant

end Schemata

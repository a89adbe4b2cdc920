import ShitOs.Construction.Time
import Mathlib.Tactic.IntervalCases
import Mathlib.Tactic.Ring

/-!
# The calendars agree

What a calendar is says `nextDay`: after the last day of a month comes the first of the next.
`dateOf` counts days from the first of January 1970, and `gmtime`, `mktime` and `days_from_civil`
each find the day that it has (`gmtime_mktime_civil`).  The proof goes by the number of days before
a year (`daysBefore`), that is, by the sum that `mktime` forms.
-/

namespace ShitOs
namespace Time

variable {day month : ℕ}

/-! ## The calendar -/

structure Date where
  year : ℤ
  month : ℕ
  day : ℕ
  weekday : ℕ
  yearDay : ℕ

/-- The length of a month, from 0 for January. -/
def monthLength (year : ℤ) (month : ℕ) : ℕ :=
  if month = 1 then if year % 4 = 0 ∧ (year % 100 ≠ 0 ∨ year % 400 = 0) then 29 else 28
  else if month = 3 ∨ month = 5 ∨ month = 8 ∨ month = 10 then 30
  else 31

def nextDay (d : Date) : Date :=
  if d.day < monthLength d.year d.month then
    { d with day := d.day + 1, weekday := (d.weekday + 1) % 7, yearDay := d.yearDay + 1 }
  else if d.month < 11 then
    { d with month := d.month + 1, day := 1, weekday := (d.weekday + 1) % 7, yearDay :=
      d.yearDay + 1 }
  else ⟨d.year + 1, 0, 1, (d.weekday + 1) % 7, 0⟩

/-- The date so many days after Thursday, the first of January 1970. -/
def dateOf : ℕ → Date
  | 0 => ⟨1970, 0, 1, 4, 0⟩
  | n + 1 => nextDay (dateOf n)

/-! ## Days before a year and a month -/

/-- The days of `k` years from `year` on. -/
def daysBefore (year : ℤ) (k : ℕ) :
    ℕ := ((List.range k).map fun (j : ℕ) => yearLength (year + j)).sum

lemma daysBefore_succ (year : ℤ) (k : ℕ) :
    daysBefore year (k + 1) = daysBefore year k + yearLength (year + k) := by
  simp [daysBefore, List.range_succ]

lemma daysBefore_succ' (year : ℤ) (k : ℕ) :
    daysBefore year (k + 1) = yearLength year + daysBefore (year + 1) k := by
  have hshift : ∀ j : ℕ, year + ((j : ℤ) + 1) = year + 1 + j := fun j => by omega
  simp [daysBefore, List.range_succ_eq_map, Function.comp_def, hshift]

/-- The days of the year before a month. -/
def monthStart (year : ℤ) (month : ℕ) : ℕ := ((DAYS_IN_MONTH (isLeapYear year)).take month).sum

lemma isLeapYear_iff (year : ℤ) :
    isLeapYear year = true ↔ year % 4 = 0 ∧ (year % 100 ≠ 0 ∨ year % 400 = 0) := by
  simp only [isLeapYear, decide_eq_true_eq]
  omega

lemma getD_DAYS_IN_MONTH (year : ℤ) (h : month < 12) :
    (DAYS_IN_MONTH (isLeapYear year)).getD month 0 = monthLength year month := by
  simp only [monthLength, ← isLeapYear_iff]
  cases isLeapYear year <;> interval_cases month <;> rfl

lemma monthStart_succ (year : ℤ) (h : month < 12) :
    monthStart year (month + 1) = monthStart year month + monthLength year month := by
  rw [← getD_DAYS_IN_MONTH year h]
  unfold monthStart
  cases isLeapYear year <;> interval_cases month <;> rfl

lemma monthStart_twelve (year : ℤ) : monthStart year 12 = yearLength year := by
  unfold monthStart yearLength
  cases isLeapYear year <;> rfl

lemma monthStart_le (year : ℤ) (h : month ≤ 12) : monthStart year month ≤ yearLength year := by
  unfold monthStart yearLength
  cases isLeapYear year <;> interval_cases month <;> decide

/-- A date is the day `n` of the calendar that begins in 1970. -/
structure IsDay (n : ℕ) (d : Date) : Prop where
  year : ∃ k : ℕ, d.year = 1970 + k ∧ n = daysBefore 1970 k + d.yearDay
  month : d.month < 12
  day : 1 ≤ d.day ∧ d.day ≤ monthLength d.year d.month
  yearDay : d.yearDay + 1 = monthStart d.year d.month + d.day
  weekday : d.weekday = (n + 4) % 7

lemma isDay_dateOf (n : ℕ) : IsDay n (dateOf n) := by
  induction n with
  | zero => exact ⟨⟨0, rfl, rfl⟩, by decide, by decide, rfl, rfl⟩
  | succ n ih =>
    obtain ⟨⟨k, hyear, hn⟩, hmonth, hday, hyearDay, hweekday⟩ := ih
    have hsucc := monthStart_succ (dateOf n).year hmonth
    rw [dateOf, nextDay]
    split_ifs with hlast hdecember
    · exact ⟨⟨k, hyear, by dsimp only; omega⟩, hmonth, by dsimp only; omega, by dsimp only; omega,
        by dsimp only; omega⟩
    · refine ⟨⟨k, hyear, by dsimp only; omega⟩, by dsimp only; omega, ?_, by dsimp only; omega,
        by dsimp only; omega⟩
      refine ⟨le_rfl, ?_⟩
      dsimp only [monthLength]
      split_ifs <;> omega
    · obtain hlast' : (dateOf n).month = 11 := by omega
      rw [hlast', monthStart_twelve] at hsucc
      rw [hlast'] at hyearDay hday hlast
      have hbefore := daysBefore_succ 1970 k
      rw [← hyear] at hbefore
      refine ⟨⟨k + 1, by dsimp only; push_cast; omega, by dsimp only; omega⟩, by simp,
        ⟨le_rfl, by simp [monthLength]⟩, rfl, by dsimp only; omega⟩

/-! ## The three ways to the date -/

lemma yearLoop_eq (year : ℤ) {k r : ℕ} (h : r < yearLength (year + k)) :
    yearLoop (daysBefore year k + r) year = (r, year + k) := by
  induction k generalizing year with
  | zero =>
    have hyear : year + (0 : ℕ) = year := by simp
    rw [hyear] at h ⊢
    rw [yearLoop, daysBefore, List.range_zero, List.map_nil, List.sum_nil, Nat.zero_add, if_pos h]
  | succ k ih =>
    have hyear : year + (k + 1 : ℕ) = year + 1 + k := by push_cast; omega
    rw [hyear] at h ⊢
    rw [yearLoop, daysBefore_succ', if_neg (by omega), ← ih (year + 1) h]
    congr 1
    omega

lemma monthLoop_eq (lengths : List ℕ) (first month : ℕ) (h : day < lengths.getD month 0) :
    monthLoop lengths first ((lengths.take month).sum + day) = (first + month, day) := by
  induction lengths generalizing first month with
  | nil => simp at h
  | cons length lengths ih =>
    cases month with
    | zero =>
      have hshort : ¬ length ≤ day := by simpa using h
      simp [monthLoop, hshort]
    | succ month =>
      rw [List.take_succ_cons, List.sum_cons, monthLoop, if_pos (by omega),
        show length + (lengths.take month).sum + day - length =
          (lengths.take month).sum + day by omega,
        ih (first + 1) month (by simpa using h)]
      congr 1
      omega

/-- `days_from_civil` without eras. -/
lemma daysFromCivil_closed {year : ℤ} (hyear : 1 ≤ year) :
    daysFromCivil year month day = (if month ≤ 2 then year - 1 else year) * 365 +
      (if month ≤ 2 then year - 1 else year) / 4 - (if month ≤ 2 then year - 1 else year) / 100 +
      (if month ≤ 2 then year - 1 else year) / 400 +
      ((153 * (if 2 < month then month - 3 else month + 9) + 2) / 5 + day - 1 : ℕ) - 719468 := by
  have hpos : 0 ≤ if month ≤ 2 then year - 1 else year := by split_ifs <;> omega
  unfold daysFromCivil
  dsimp only
  generalize (if month ≤ 2 then year - 1 else year) = y at hpos ⊢
  generalize (153 * (if 2 < month then month - 3 else month + 9) + 2) / 5 + day - 1 = d
  rw [if_pos hpos, Int.tdiv_eq_ediv_of_nonneg hpos]
  omega

/-- What a year adds to it. -/
lemma closed_succ (y : ℤ) : y * 365 + y / 4 - y / 100 + y / 400 =
    (y - 1) * 365 + (y - 1) / 4 - (y - 1) / 100 + (y - 1) / 400 + yearLength y := by
  have h₁ : y / 4 = (y - 1) / 4 + if y % 4 = 0 then 1 else 0 := by split_ifs <;> omega
  have h₂ : y / 100 = (y - 1) / 100 + if y % 100 = 0 then 1 else 0 := by split_ifs <;> omega
  have h₃ : y / 400 = (y - 1) / 400 + if y % 400 = 0 then 1 else 0 := by split_ifs <;> omega
  have hlen : (yearLength y : ℤ) = 365 + (if y % 4 = 0 then 1 else 0) -
    (if y % 100 = 0 then 1 else 0) +
      if y % 400 = 0 then 1 else 0 := by
    simp only [yearLength, isLeapYear_iff]
    split_ifs <;> omega
  rw [hlen, h₁, h₂, h₃]
  ring

lemma daysFromCivil_eq (k : ℕ) (hmonth : month < 12) (hday : 1 ≤ day) :
    daysFromCivil (1970 + k) (month + 1) day =
      daysBefore 1970 k + monthStart (1970 + k) month + day - 1 := by
  have hyear : daysFromCivil (1970 + k) 1 1 = daysBefore 1970 k := by
    induction k with
    | zero => decide
    | succ k ih =>
      have hsucc := closed_succ (1970 + k)
      rw [daysFromCivil_closed (by omega)] at ih ⊢
      rw [daysBefore_succ]
      simp only [show (1 : ℕ) ≤ 2 from by omega, if_true, Nat.cast_add, Nat.cast_one,
        show (1970 : ℤ) + (k + 1) - 1 = 1970 + k by omega] at ih ⊢
      omega
  have hsucc := closed_succ (1970 + k)
  rw [← hyear, daysFromCivil_closed (by omega), daysFromCivil_closed (by omega), monthStart]
  unfold yearLength at hsucc
  generalize (1970 : ℤ) + k = y at *
  cases hleap : isLeapYear y <;> simp only [hleap] at hsucc <;> interval_cases month <;>
    simp [DAYS_IN_MONTH] at hsucc ⊢ <;> omega

/-- **The calendars agree.**  The fields of `gmtime` are the date and the time of day, `mktime`
takes them back to the second, and so does `days_from_civil`. -/
theorem gmtime_mktime_civil (t : ℕ) :
    ((gmtime t).year + 1900 = (dateOf (t / 86400)).year ∧ (gmtime t).mon =
      (dateOf (t / 86400)).month ∧ (gmtime t).mday = (dateOf (t / 86400)).day ∧ (gmtime t).wday =
        (dateOf (t / 86400)).weekday ∧ (gmtime t).yday = (dateOf (t / 86400)).yearDay) ∧
    (gmtime t).hour * 3600 + (gmtime t).min * 60 + (gmtime t).sec = t % 86400 ∧
    ((gmtime t).mon < 12 ∧ 1 ≤ (gmtime t).mday ∧ (gmtime t).mday ≤ 31 ∧ (gmtime t).wday < 7 ∧
      (gmtime t).yday < 366 ∧ (gmtime t).hour < 24 ∧ (gmtime t).min < 60 ∧ (gmtime t).sec < 60) ∧
    (mktime (gmtime t)).1 = t ∧
    daysFromCivil ((gmtime t).year + 1900) ((gmtime t).mon + 1) (gmtime t).mday * 86400 +
      (gmtime t).hour * 3600 + (gmtime t).min * 60 + (gmtime t).sec = t := by
  obtain ⟨⟨k, hyear, hn⟩, hmonth, hday, hyearDay, hweekday⟩ := isDay_dateOf (t / 86400)
  generalize dateOf (t / 86400) = d at *
  have hlength : d.yearDay < yearLength (1970 + k) := by
    have hsucc := monthStart_succ d.year hmonth
    have hle := monthStart_le d.year (show d.month + 1 ≤ 12 by omega)
    rw [← hyear]
    omega
  have hloop : yearLoop (t / 86400) 1970 = (d.yearDay, d.year) := by
    rw [hn, hyear]
    exact yearLoop_eq 1970 hlength
  have hmonths : monthLoop (DAYS_IN_MONTH (isLeapYear d.year)) 0 d.yearDay =
    (d.month, d.day - 1) := by
    have hshort : d.day - 1 < monthLength d.year d.month := by omega
    rw [← getD_DAYS_IN_MONTH d.year hmonth] at hshort
    have h := monthLoop_eq _ 0 d.month hshort
    rw [← monthStart, show monthStart d.year d.month + (d.day - 1) =
      d.yearDay by omega, Nat.zero_add] at h
    exact h
  have hgmtime :
    gmtime t = ⟨t % 86400 % 60, t % 86400 % 3600 / 60, t % 86400 / 3600, d.day, d.month,
      d.year - 1900, d.weekday, d.yearDay⟩ := by
    simp only [gmtime, Int.toNat_natCast, hloop, hmonths, hweekday]
    rw [Nat.sub_add_cancel hday.1]
  rw [hgmtime]
  refine ⟨⟨by dsimp only; omega, rfl, rfl, rfl, rfl⟩, by dsimp only; omega, ?_, ?_, ?_⟩
  · have hlong : monthLength d.year d.month ≤ 31 := by
      unfold monthLength
      split_ifs <;> omega
    have hyears : yearLength (1970 + k) ≤ 366 := by
      unfold yearLength
      split_ifs <;> omega
    refine ⟨hmonth, hday.1, hday.2.trans hlong, ?_, ?_, ?_, ?_, ?_⟩ <;> dsimp only <;> omega
  · have hcount : d.year - 1970 = (k : ℤ) := by omega
    have hdays : ((List.range k).map fun (j : ℕ) => yearLength (1970 + j)).sum +
        ((DAYS_IN_MONTH (isLeapYear d.year)).take d.month).sum + d.day = t / 86400 + 1 := by
      rw [← daysBefore, ← monthStart]
      omega
    simp only [mktime, sub_add_cancel, hcount, Int.toNat_natCast]
    rw [if_neg (by omega)]
    generalize ((List.range k).map fun (j : ℕ) => yearLength (1970 + j)).sum +
      ((DAYS_IN_MONTH (isLeapYear d.year)).take d.month).sum = days at hdays ⊢
    omega
  · simp only [sub_add_cancel]
    rw [hyear] at hyearDay ⊢
    rw [daysFromCivil_eq k hmonth hday.1]
    omega

end Time
end ShitOs

import Mathlib.Data.Int.Init
import Mathlib.Algebra.GroupWithZero.Nat

/-!
# Calendars

A model of `gmtime` and `mktime` in `user/libc/src/time.c` and of `days_from_civil` in
`modules/rtc/rtc.c`.  Integers are unbounded: as long as the year fits an `int`, so does everything
else.
-/

namespace ShitOs
namespace Time

/-- `struct tm`.  The time zone is always UTC. -/
structure Tm where
  sec : ℕ
  min : ℕ
  hour : ℕ
  mday : ℕ
  mon : ℕ
  year : ℤ
  wday : ℕ
  yday : ℕ

def isLeapYear (year : ℤ) : Bool := year % 4 = 0 ∧ year % 100 ≠ 0 ∨ year % 400 = 0

def yearLength (year : ℤ) : ℕ := if isLeapYear year then 366 else 365

def DAYS_IN_MONTH (leap : Bool) : List ℕ :=
  [31, if leap then 29 else 28, 31, 30, 31, 30, 31, 31, 30, 31, 30, 31]

/-- The loop over the years: the days that are left, and the year. -/
def yearLoop (days : ℕ) (year : ℤ) : ℕ × ℤ :=
  if days < yearLength year then (days, year) else yearLoop (days - yearLength year) (year + 1)
termination_by days
decreasing_by
  have : 365 ≤ yearLength year := by unfold yearLength; split <;> omega
  omega

/-- The loop over the months: the month, and the days that are left. -/
def monthLoop : List ℕ → ℕ → ℕ → ℕ × ℕ
  | [], month, days => (month, days)
  | length :: lengths, month, days =>
    if length ≤ days then monthLoop lengths (month + 1) (days - length) else (month, days)

def gmtime (time : ℤ) : Tm :=
  let seconds := time.toNat
  let days := seconds / 86400
  let remainder := seconds % 86400
  let (yday, year) := yearLoop days 1970
  let (month, day) := monthLoop (DAYS_IN_MONTH (isLeapYear year)) 0 yday
  { sec := remainder % 60, min := remainder % 3600 / 60, hour := remainder / 3600, mday := day + 1,
    mon := month, year := year - 1900, wday := (days + 4) % 7, yday := yday }

/-- `mktime`: the result, and the structure with its derived fields. -/
def mktime (tm : Tm) : ℤ × Tm :=
  let year := tm.year + 1900
  if year < 1970 then (-1, tm)
  else
    let days := ((List.range (year - 1970).toNat).map fun (k : ℕ) => yearLength (1970 + k)).sum +
      ((DAYS_IN_MONTH (isLeapYear year)).take tm.mon).sum
    let result : ℤ := ((days : ℤ) + tm.mday - 1) * 86400 + tm.hour * 3600 + tm.min * 60 + tm.sec
    (result, { tm with wday := (gmtime result).wday, yday := (gmtime result).yday })

def daysFromCivil (year : ℤ) (month day : ℕ) : ℤ :=
  let year := if month ≤ 2 then year - 1 else year
  let era := (if 0 ≤ year then year else year - 399).tdiv 400
  let yearOfEra := (year - era * 400).toNat
  let dayOfYear := (153 * (if 2 < month then month - 3 else month + 9) + 2) / 5 + day - 1
  let dayOfEra := yearOfEra * 365 + yearOfEra / 4 - yearOfEra / 100 + dayOfYear
  era * 146097 + dayOfEra - 719468

end Time
end ShitOs

namespace SearchFilter

def isLeapYear (year : Nat) : Bool := year % 4 == 0 && (year % 100 != 0 || year % 400 == 0)

/-- The length of a month; there are no days outside the months 1 to 12. -/
def daysInMonth (year : Nat) : (month : Nat) → Nat
  | 1 | 3 | 5 | 7 | 8 | 10 | 12 => 31
  | 4 | 6 | 9 | 11 => 30
  | 2 => if isLeapYear year then 29 else 28
  | _ => 0

/-- A day of the Gregorian calendar, extended to all years of four digits. -/
structure CalendarDate where
  year : Nat
  month : Nat
  day : Nat
  year_range : 1 ≤ year ∧ year ≤ 9999
  day_range : 1 ≤ day ∧ day ≤ daysInMonth year month
  deriving DecidableEq

/-- Why three numbers are no calendar date. -/
inductive CalendarFault where
  | yearOutOfRange (year : Int)
  | monthOutOfRange
  | dayOutOfRange
  deriving DecidableEq

def CalendarFault.reason : CalendarFault → String
  | .yearOutOfRange year => "year " ++ toString year ++ " is out of range"
  | .monthOutOfRange => "month must be in 1..12"
  | .dayOutOfRange => "day is out of range for month"

namespace CalendarDate

/-- The date with the given numbers, or the first of them that is out of range. -/
def ofNumbers (year month day : Int) : Except CalendarFault CalendarDate :=
  if hy : 1 ≤ year.toNat ∧ year.toNat ≤ 9999 then
    if 1 ≤ month ∧ month ≤ 12 then
      if hd : 1 ≤ day.toNat ∧ day.toNat ≤ daysInMonth year.toNat month.toNat then
        .ok ⟨year.toNat, month.toNat, day.toNat, hy, hd⟩
      else .error .dayOutOfRange
    else .error .monthOutOfRange
  else .error (.yearOutOfRange year)

def endOfMonth (date : CalendarDate) : CalendarDate :=
  { date with
    day := daysInMonth date.year date.month
    day_range := ⟨Nat.le_trans date.day_range.1 date.day_range.2, Nat.le_refl _⟩ }

def endOfYear (date : CalendarDate) : CalendarDate :=
  { date with month := 12, day := 31, day_range := by simp [daysInMonth] }

end CalendarDate

/-- The days of all years before one, counted from year 1. -/
def daysBeforeYear (year : Nat) : Nat :=
  (year - 1) * 365 + (year - 1) / 4 + (year - 1) / 400 - (year - 1) / 100

/-- The days of all months before one in its year. -/
def daysBeforeMonth (year : Nat) : (month : Nat) → Nat
  | 0 => 0
  | month + 1 => daysBeforeMonth year month + daysInMonth year month

/-- Days since the first of January 1970, negative before it. -/
def CalendarDate.dayNumber (date : CalendarDate) : Int :=
  (daysBeforeYear date.year + daysBeforeMonth date.year date.month + date.day : Nat) - 719163

end SearchFilter

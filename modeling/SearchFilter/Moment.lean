import SearchFilter.CalendarDate
import SearchFilter.DecimalText

namespace SearchFilter

/-- A clock reading: a day, a time on it to the microsecond, and how many microseconds the clock
runs ahead of UTC, which is less than a day. A clock that does not say so shows UTC. -/
structure Moment where
  date : CalendarDate
  hour : Nat
  minute : Nat
  second : Nat
  micro : Nat
  offset : Option Int
  hour_lt : hour < 24
  minute_lt : minute < 60
  second_lt : second < 60
  micro_lt : micro < 1000000
  offset_range : ∀ ahead ∈ offset, -86400000000 < ahead ∧ ahead < 86400000000

namespace Moment

theorem naive_offset_range :
    ∀ ahead ∈ (none : Option Int), -86400000000 < ahead ∧ ahead < 86400000000 := by
  simp

theorem utc_offset_range :
    ∀ ahead ∈ some (0 : Int), -86400000000 < ahead ∧ ahead < 86400000000 := by
  simp

/-- The same reading of a clock that runs ahead of UTC by so many microseconds. -/
def aheadBy? (moment : Moment) (micros : Int) : Option Moment :=
  if h : -86400000000 < micros ∧ micros < 86400000000 then
    some { moment with offset := some micros, offset_range := by simpa using h }
  else none

/-- The reading with the given numbers, of which the last one counts the seconds ahead of UTC. -/
def ofNumbers? (date : CalendarDate) (hour minute second micro : Nat) (offset : Option Int) :
    Option Moment :=
  if h : hour < 24 ∧ minute < 60 ∧ second < 60 ∧ micro < 1000000 then
    let reading : Moment :=
      ⟨date, hour, minute, second, micro, none, h.1, h.2.1, h.2.2.1, h.2.2.2, naive_offset_range⟩
    match offset with
    | some seconds => reading.aheadBy? (seconds * 1000000)
    | none => some reading
  else none

/-- The first second of a day in UTC. -/
def startOfDay (date : CalendarDate) : Moment :=
  ⟨date, 0, 0, 0, 0, some 0, by decide, by decide, by decide, by decide, utc_offset_range⟩

/-- The last second of a day in UTC. -/
def endOfDay (date : CalendarDate) : Moment :=
  ⟨date, 23, 59, 59, 0, some 0, by decide, by decide, by decide, by decide, utc_offset_range⟩

def secondOfDay (moment : Moment) : Nat :=
  moment.hour * 3600 + moment.minute * 60 + moment.second

/-- Microseconds between the start of 1970 in UTC and a moment, exactly. -/
def utcMicros (moment : Moment) : Int :=
  (moment.date.dayNumber * 86400 + moment.secondOfDay) * 1000000 + moment.micro
    - moment.offset.getD 0

/-- The microseconds of a second as `.000250`; a whole second has no such part. -/
def fractionText (micros : Nat) : List Char :=
  if micros = 0 then [] else '.' :: zeroPadded 6 micros

/-- The distance from UTC as `+02:00`, with seconds only where it is not a number of minutes. -/
def offsetText (ahead : Int) : List Char :=
  let seconds := ahead.natAbs / 1000000
  let micros := ahead.natAbs % 1000000
  (if ahead < 0 then '-' else '+') :: zeroPadded 2 (seconds / 3600) ++
    ':' :: zeroPadded 2 (seconds / 60 % 60) ++
    if seconds % 60 = 0 ∧ micros = 0 then []
    else ':' :: zeroPadded 2 (seconds % 60) ++ fractionText micros

/-- The standard form, such as `2019-10-05T23:59:59+00:00`; a fraction only where there is one. -/
def isoText (moment : Moment) : String :=
  String.ofList <|
    zeroPadded 4 moment.date.year ++ '-' :: zeroPadded 2 moment.date.month ++
    '-' :: zeroPadded 2 moment.date.day ++ 'T' :: zeroPadded 2 moment.hour ++
    ':' :: zeroPadded 2 moment.minute ++ ':' :: zeroPadded 2 moment.second ++
    fractionText moment.micro ++
    (moment.offset.map offsetText).getD []

end Moment

end SearchFilter

import SearchFilter.Epoch
import SearchFilter.Failure
import SearchFilter.Token

namespace SearchFilter

/-- A span of time, both ends included. -/
structure DateRange where
  first : Moment
  last : Moment

namespace DateRange

def startEpoch (range : DateRange) : Int := range.first.epoch

def endEpoch (range : DateRange) : Int := range.last.epoch

end DateRange

/-- Numbers of a date are signed and have 32 bits. One that 64 bits cannot hold either is refused as
such. -/
def checkDateField (n : Int) : Except Failure Unit :=
  if n < -wordLimit ∨ wordLimit ≤ n then .error .dateFieldBeyondWord
  else if 2147483647 < n then .error .dateFieldTooLarge
  else if n < -2147483648 then .error .dateFieldTooSmall
  else .ok ()

namespace DateLiteral

/-- The first day that a literal covers; a month or day that is not given is the first one. -/
def firstDay (literal : DateLiteral) : Except Failure CalendarDate := do
  let month := literal.month.getD 1
  let day := literal.day.getD 1
  checkDateField literal.year
  checkDateField month
  checkDateField day
  match CalendarDate.ofNumbers literal.year month day with
  | .ok date => return date
  | .error fault => .error (.impossibleDate literal.text literal.position fault)

/-- The last day of the period that begins on the first day of a literal. -/
def lastDay (literal : DateLiteral) (first : CalendarDate) : CalendarDate :=
  match literal.month, literal.day with
  | _, some _ => first
  | some _, none => first.endOfMonth
  | none, none => first.endOfYear

/-- All of the year, month or day in UTC, from its first second to its last. -/
def range (literal : DateLiteral) : Except Failure DateRange := do
  let first ← literal.firstDay
  return ⟨.startOfDay first, .endOfDay (literal.lastDay first)⟩

end DateLiteral

/-- The second that lies the length of a duration before now. -/
def Duration.epochBefore (duration : Duration) (now : Moment) : Int := now.epoch - duration.seconds

end SearchFilter

namespace SearchFilter

/-- Which side of a date or of a moment in the past a document has to lie on. -/
inductive Comparison where
  | greater
  | less
  deriving DecidableEq

def Comparison.symbol : Comparison → Char
  | .greater => '>'
  | .less => '<'

inductive Connective where
  | and
  | or
  deriving DecidableEq

def Connective.word : Connective → List Char
  | .and => ['A', 'N', 'D']
  | .or => ['O', 'R']

inductive DurationUnit where
  | hour
  | day
  | week
  | month
  | year
  deriving DecidableEq

namespace DurationUnit

def suffix : DurationUnit → Char
  | .hour => 'h'
  | .day => 'd'
  | .week => 'w'
  | .month => 'm'
  | .year => 'y'

def ofSuffix? : Char → Option DurationUnit
  | 'h' => some .hour
  | 'd' => some .day
  | 'w' => some .week
  | 'm' => some .month
  | 'y' => some .year
  | _ => none

/-- A month always has 30 days and a year 365. -/
def seconds : DurationUnit → Nat
  | .hour => 3600
  | .day => 86400
  | .week => 7 * 86400
  | .month => 30 * 86400
  | .year => 365 * 86400

theorem ofSuffix?_eq_some_iff {c : Char} {unit : DurationUnit} :
    ofSuffix? c = some unit ↔ unit.suffix = c := by
  constructor
  · intro h
    unfold ofSuffix? at h
    split at h <;> cases h <;> rfl
  · rintro rfl
    cases unit <;> rfl

end DurationUnit

/-- A time span counted back from now. -/
structure Duration where
  amount : Int
  unit : DurationUnit
  deriving DecidableEq

def Duration.seconds (duration : Duration) : Int := duration.amount * duration.unit.seconds

inductive Granularity where
  | year
  | month
  | day
  deriving DecidableEq

/-- A year, a month or a day as written in a filter, which need not exist in the calendar. The text
is the literal itself and the position its offset in the filter. -/
structure DateLiteral where
  year : Int
  month : Option Int := none
  day : Option Int := none
  text : String := ""
  position : Int := 0
  deriving DecidableEq

def DateLiteral.granularity (literal : DateLiteral) : Granularity :=
  match literal.month, literal.day with
  | none, _ => .year
  | some _, none => .month
  | some _, some _ => .day

inductive Token where
  | tag (name : String)
  | notTag (name : String)
  | comparator (comparison : Comparison)
  | connective (connective : Connective)
  | date (literal : DateLiteral)
  | duration (duration : Duration)
  | endOfInput
  deriving DecidableEq

end SearchFilter

import SearchFilter.CalendarDate
import SearchFilter.Json

namespace SearchFilter

/-- What a filter would need at the place where reading it stopped. -/
inductive Expectation where
  | term
  | dateOrDuration
  | endOfText
  deriving DecidableEq

def Expectation.reason : Expectation → String
  | .term => "Expected \x7b\x7b[comparator] \x7bdate | duration\x7d\x7d | tag | not_tag\x7d"
  | .dateOrDuration => "Expected \x7bdate | duration\x7d"
  | .endOfText => "Expected end of text"

/-- The sets of names that a token given from outside chooses from. -/
inductive Vocabulary where
  | comparisons
  | connectives
  | durationUnits
  deriving DecidableEq

def Vocabulary.name : Vocabulary → String
  | .comparisons => "ComparatorKind"
  | .connectives => "OperatorKind"
  | .durationUnits => "DurationUnit"

/-- The most decimal digits a number may have, read or written. -/
def digitLimit : Nat := 4300

/-- The least integer that 64 bits with a sign cannot hold. -/
def wordLimit : Int := 9223372036854775808

/-- Whether a number has too many digits to be written. -/
def exceedsDigitLimit (n : Int) : Bool := digitLimit < (Nat.toDigits 10 n.natAbs).length

inductive Failure where
  | malformed (text : String) (column : Nat) (expected : Expectation)
  | impossibleDate (term : String) (position : Int) (fault : CalendarFault)
  | dateFieldTooLarge
  | dateFieldTooSmall
  | dateFieldBeyondWord
  | amountTooLong (digits : Nat)
  | resultTooLong
  | foreignItem (item : Json)
  | unknownName (vocabulary : Vocabulary) (given : Json)
  | unreadableAmount (text : String)
  | unknownField (name : String)
  | readOnlyName (name : String)
  | notAppendable (value : Json)

def limitText (detail : String) : String :=
  "Exceeds the limit (" ++ toString digitLimit ++ " digits) for integer string conversion" ++
    detail ++ "; use sys.set_int_max_str_digits() to increase the limit"

def Failure.message : Failure → String
  | .malformed text column expected =>
    "Invalid filter " ++ quoted text ++ " at column " ++ toString column ++ ": " ++ expected.reason
  | .impossibleDate term position fault =>
    "Invalid date " ++ quoted term ++ " at position " ++ toString position ++ ": " ++ fault.reason
  | .dateFieldTooLarge => "signed integer is greater than maximum"
  | .dateFieldTooSmall => "signed integer is less than minimum"
  | .dateFieldBeyondWord => "Python int too large to convert to C long"
  | .amountTooLong digits => limitText (": value has " ++ toString digits ++ " digits")
  | .resultTooLong => limitText ""
  | .foreignItem item => "Unexpected filter token " ++ item.shown
  | .unknownName vocabulary given => given.shown ++ " is not a valid " ++ vocabulary.name
  | .unreadableAmount text =>
    "invalid literal for int() with base 10: " ++ ((quoted text).take 200).toString
  | .readOnlyName name => "property '" ++ name ++ "' of 'SearchQuery' object has no setter"
  | .unknownField name => "\"SearchQuery\" object has no field \"" ++ name ++ "\""
  | .notAppendable value => "'" ++ value.kind ++ "' object has no attribute 'append'"

/-- The decimal text of a number that has not too many digits. -/
def writeInt (n : Int) : Except Failure String :=
  if exceedsDigitLimit n then .error .resultTooLong else .ok (toString n)

end SearchFilter

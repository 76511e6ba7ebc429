import SearchFilter.Compilation
import SearchFilter.IntegerText

namespace SearchFilter

def Comparison.ofJson : Json → Except Failure Comparison
  | .string ">" => .ok .greater
  | .string "<" => .ok .less
  | given => .error (.unknownName .comparisons given)

def Connective.ofJson : Json → Except Failure Connective
  | .string "AND" => .ok .and
  | .string "OR" => .ok .or
  | given => .error (.unknownName .connectives given)

def DurationUnit.ofJson : Json → Except Failure DurationUnit
  | .string "h" => .ok .hour
  | .string "d" => .ok .day
  | .string "w" => .ok .week
  | .string "m" => .ok .month
  | .string "y" => .ok .year
  | given => .error (.unknownName .durationUnits given)

/-- The integer that a text writes with digits of any script, spaces around it and a sign in front.
Underscores may stand between the digits. Too many digits are refused whatever follows them. -/
def amountOfText (text : String) : Except Failure Int :=
  let (negative, cs) := match text.toList.dropWhile isSpace with
    | '-' :: rest => (true, rest)
    | '+' :: rest => (false, rest)
    | rest => (false, rest)
  let grouped := cs.takeWhile fun c => isDigit c || c == '_'
  let digits := grouped.filter isDigit
  if !underscoresApart grouped then .error (.unreadableAmount text)
  else if digitLimit < digits.length then .error (.amountTooLong digits.length)
  else if digits = [] ∨ ¬(cs.drop grouped.length).all isSpace then .error (.unreadableAmount text)
  else .ok (if negative then -(digitsValue digits : Int) else digitsValue digits)

def amountOfJson : Json → Except Failure Int
  | .int value => .ok value
  | value => amountOfText (value.text?.getD "")

def Duration.ofJson (value : Json) : Except Failure Duration := do
  let amount ← amountOfJson (value.get "amount")
  return ⟨amount, ← DurationUnit.ofJson (value.get "unit")⟩

def DateLiteral.ofJson (value : Json) : DateLiteral :=
  ⟨(value.intAt? "year").getD 0, value.intAt? "month", value.intAt? "day", value.textAt "text",
    (value.intAt? "position").getD 0⟩

/-- A token is an object that says in `t` of which kind it is; all else is foreign. -/
def Item.ofJson (value : Json) : Except Failure Item :=
  match value.textAt "t" with
  | "Tag" => .ok (.token (.tag (value.textAt "name")))
  | "NotTag" => .ok (.token (.notTag (value.textAt "name")))
  | "Comparator" => return .token (.comparator (← Comparison.ofJson (value.get "kind")))
  | "Operator" => return .token (.connective (← Connective.ofJson (value.get "kind")))
  | "DateLiteral" => .ok (.token (.date (DateLiteral.ofJson value)))
  | "Duration" => return .token (.duration (← Duration.ofJson value))
  | "EndOfInput" => .ok (.token .endOfInput)
  | _ => .ok (.foreign value)

end SearchFilter

import SearchFilter.IntegerText
import SearchFilter.Rounding

namespace SearchFilter

namespace Json

def checkText : Json → Checked String
  | string text => .valid text
  | _ => .refuse .notText

/-- The integer that a decimal comes to, if it is one and 64 bits with a sign hold more than it. -/
def intOfDecimal (mantissa exponent : Int) : Checked Int :=
  match BinaryDecimal.ofDecimal mantissa exponent with
  | .infinite => .refuse .infiniteNumber
  | .fractional => .refuse .fractionalInt
  | .whole value =>
    if -wordLimit < value ∧ value < wordLimit then .valid value else .refuse .oversizedInt

def checkInt : Json → Checked Int
  | int value => .valid value
  | bool value => .valid (if value then 1 else 0)
  | decimal mantissa exponent => intOfDecimal mantissa exponent
  | string text => intOfText text
  | _ => .refuse .notInt

def falseWords : List String := ["0", "off", "f", "false", "n", "no"]

def trueWords : List String := ["1", "on", "t", "true", "y", "yes"]

/-- Zero and one are taken for booleans. -/
def boolOfInt : Int → Checked Bool
  | 0 => .valid false
  | 1 => .valid true
  | _ => .refuse .unreadableBool

/-- An integer that 64 bits with a sign cannot hold and a decimal that is no integer are no booleans
at all. -/
def checkBool : Json → Checked Bool
  | bool value => .valid value
  | int value =>
    if -wordLimit ≤ value ∧ value < wordLimit then boolOfInt value else .refuse .notBool
  | decimal mantissa exponent =>
    match intOfDecimal mantissa exponent with
    | .valid value => boolOfInt value
    | .invalid _ => .refuse .notBool
  | string text =>
    let word := String.ofList (text.toList.map Char.toLower)
    if word ∈ falseWords then .valid false
    else if word ∈ trueWords then .valid true
    else .refuse .unreadableBool
  | _ => .refuse .notBool

def checkObject : Json → Checked (List (String × Json))
  | object members => .valid members
  | _ => .refuse .notObject

def checkList {α : Type} (check : Json → Checked α) : Json → Checked (List α)
  | array items => Checked.each check 0 items
  | _ => .refuse .notList

def checkNullable (check : Json → Checked Json) : Json → Checked Json
  | null => .valid null
  | value => check value

/-- The value under the first of some keys that an object has, even if that value is null; without
any of them the default. -/
def checkField {α : Type} (members : List (String × Json)) (keys : List String) (default : α)
    (check : Json → Checked α) : Checked α :=
  match keys.findSome? fun key => (members.lookup key).map (key, ·) with
  | none => .valid default
  | some (key, value) => (check value).within (.key key)

end Json

end SearchFilter

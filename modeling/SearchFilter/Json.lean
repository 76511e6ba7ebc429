import SearchFilter.DecimalText
import SearchFilter.Quoted

namespace SearchFilter

/-- A JSON value. A number written with a fraction or an exponent is `mantissa * 10 ^ exponent`;
an object keeps the order of its members. -/
inductive Json where
  | null
  | bool (value : Bool)
  | int (value : Int)
  | decimal (mantissa exponent : Int)
  | string (text : String)
  | array (items : List Json)
  | object (members : List (String × Json))

namespace Json

def members : Json → List (String × Json)
  | object found => found
  | _ => []

def isNull : Json → Bool
  | null => true
  | _ => false

/-- The value under a key; what is missing is null. -/
def get (value : Json) (key : String) : Json := (value.members.lookup key).getD null

def text? : Json → Option String
  | string text => some text
  | _ => none

def int? : Json → Option Int
  | int value => some value
  | _ => none

def items : Json → List Json
  | array found => found
  | _ => []

def textAt (value : Json) (key : String) : String := (value.get key).text?.getD ""

def intAt? (value : Json) (key : String) : Option Int := (value.get key).int?

/-- A boolean as the number that it counts for; any other value as it is. -/
def counted : Json → Json
  | bool value => int (if value then 1 else 0)
  | value => value

/-- The kind of a value as messages name it. -/
def kind : Json → String
  | null => "NoneType"
  | bool _ => "bool"
  | int _ => "int"
  | decimal _ _ => "float"
  | string _ => "str"
  | array _ => "list"
  | object _ => "dict"

/-- Decimals in messages. -/
def messageDecimals : DecimalLayout := ⟨-4, 2⟩

mutual

/-- A value as messages show it. -/
def shown : Json → String
  | null => "None"
  | bool true => "True"
  | bool false => "False"
  | int value => toString value
  | decimal mantissa exponent => messageDecimals.write mantissa exponent
  | string text => quoted text
  | array found => "[" ++ ", ".intercalate (shownItems found) ++ "]"
  | object found => "\x7b" ++ ", ".intercalate (shownMembers found) ++ "\x7d"

def shownItems : List Json → List String
  | [] => []
  | item :: rest => item.shown :: shownItems rest

def shownMembers : List (String × Json) → List String
  | [] => []
  | (key, value) :: rest => (quoted key ++ ": " ++ value.shown) :: shownMembers rest

end

end Json

end SearchFilter

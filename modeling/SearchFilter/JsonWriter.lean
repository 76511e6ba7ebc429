import SearchFilter.Json

namespace SearchFilter

namespace Json

/-- Only the mark, the backslash and control characters below the space are escaped. -/
def escapeChar (c : Char) : List Char :=
  if c = '\x22' ∨ c = '\\' then ['\\', c]
  else if c = '\x08' then ['\\', 'b']
  else if c = '\x0c' then ['\\', 'f']
  else if c = '\n' then ['\\', 'n']
  else if c = '\r' then ['\\', 'r']
  else if c = '\t' then ['\\', 't']
  else if c.toNat < 0x20 then '\\' :: 'u' :: hexDigits 4 c.toNat
  else [c]

def writeText (text : String) : List Char :=
  '\x22' :: text.toList.flatMap escapeChar ++ ['\x22']

/-- Decimals in bodies. -/
def bodyDecimals : DecimalLayout := ⟨-5, 1⟩

mutual

/-- The shortest layout of a value, with no blanks. -/
def write : Json → List Char
  | null => "null".toList
  | bool true => "true".toList
  | bool false => "false".toList
  | int value => (toString value).toList
  | decimal mantissa exponent => (bodyDecimals.write mantissa exponent).toList
  | string text => writeText text
  | array [] => ['[', ']']
  | array (item :: rest) => '[' :: item.write ++ writeItems rest
  | object [] => ['\x7b', '\x7d']
  | object ((key, value) :: rest) =>
    '\x7b' :: writeText key ++ ':' :: value.write ++ writeMembers rest

def writeItems : List Json → List Char
  | [] => [']']
  | item :: rest => ',' :: item.write ++ writeItems rest

def writeMembers : List (String × Json) → List Char
  | [] => ['\x7d']
  | (key, value) :: rest => ',' :: writeText key ++ ':' :: value.write ++ writeMembers rest

end

def compact (value : Json) : String := String.ofList value.write

end Json

end SearchFilter

import SearchFilter.CharClass
import SearchFilter.Json

namespace SearchFilter

namespace Json

def hexValue? (c : Char) : Option Nat :=
  if c.isDigit then some (c.toNat - 48)
  else if 'a' ≤ c ∧ c ≤ 'f' then some (c.toNat - 87)
  else if 'A' ≤ c ∧ c ≤ 'F' then some (c.toNat - 55)
  else none

/-- The sixteen bits that four hexadecimal digits write. -/
def hexUnit? (a b c d : Char) : Option Nat := do
  return (((← hexValue? a) * 16 + (← hexValue? b)) * 16 + (← hexValue? c)) * 16 + (← hexValue? d)

def isHighSurrogate (unit : Nat) : Bool := 0xD800 ≤ unit && unit < 0xDC00

def isLowSurrogate (unit : Nat) : Bool := 0xDC00 ≤ unit && unit < 0xE000

/-- The character that a backslash and one more character stand for. -/
def plainEscape? : Char → Option Char
  | '\x22' => some '\x22'
  | '\\' => some '\\'
  | '/' => some '/'
  | 'b' => some '\x08'
  | 'f' => some '\x0c'
  | 'n' => some '\n'
  | 'r' => some '\r'
  | 't' => some '\t'
  | _ => none

/-- The rest of a string literal after its opening mark, and what follows the closing one. -/
def readText : List Char → Option (List Char × List Char)
  | [] => none
  | '\x22' :: rest => some ([], rest)
  | '\\' :: 'u' :: a :: b :: c :: d :: rest => do
    let unit ← hexUnit? a b c d
    if isLowSurrogate unit then none
    else if isHighSurrogate unit then
      match rest with
      | '\\' :: 'u' :: e :: f :: g :: h :: later => do
        let low ← hexUnit? e f g h
        guard (isLowSurrogate low)
        let (text, after) ← readText later
        return (Char.ofNat (0x10000 + (unit - 0xD800) * 0x400 + (low - 0xDC00)) :: text, after)
      | _ => none
    else
      let (text, after) ← readText rest
      return (Char.ofNat unit :: text, after)
  | '\\' :: c :: rest => do
    let plain ← plainEscape? c
    let (text, after) ← readText rest
    return (plain :: text, after)
  | c :: rest =>
    if c.toNat < 0x20 then none
    else do
      let (text, after) ← readText rest
      return (c :: text, after)

/-- A run of plain digits, which may not be empty. -/
def readDigits (cs : List Char) : Option (List Char × List Char) :=
  if cs.takeWhile Char.isDigit = [] then none
  else some (cs.takeWhile Char.isDigit, cs.dropWhile Char.isDigit)

/-- An integer with an optional sign. -/
def readSigned : List Char → Option (Int × List Char)
  | '-' :: rest => (readDigits rest).map fun (digits, after) => (-(digitsValue digits : Int), after)
  | '+' :: rest => (readDigits rest).map fun (digits, after) => (digitsValue digits, after)
  | cs => (readDigits cs).map fun (digits, after) => (digitsValue digits, after)

def readFraction : List Char → Option (List Char × List Char)
  | '.' :: rest => readDigits rest
  | cs => some ([], cs)

def readExponent : List Char → Option (Option Int × List Char)
  | 'e' :: rest => (readSigned rest).map fun (exponent, after) => (some exponent, after)
  | 'E' :: rest => (readSigned rest).map fun (exponent, after) => (some exponent, after)
  | cs => some (none, cs)

/-- The digits of a whole number, which do not begin with a needless zero. -/
def readWhole (cs : List Char) : Option (List Char × List Char) := do
  let (whole, after) ← readDigits cs
  guard (whole.length = 1 ∨ whole.head? ≠ some '0')
  return (whole, after)

def readMagnitude (negative : Bool) (cs : List Char) : Option (Json × List Char) := do
  let (whole, cs) ← readWhole cs
  let (fraction, cs) ← readFraction cs
  let (exponent, cs) ← readExponent cs
  let size : Int := digitsValue (whole ++ fraction)
  let value := if negative then -size else size
  if fraction = [] ∧ exponent = none then return (.int value, cs)
  else return (.decimal value (exponent.getD 0 - fraction.length), cs)

def readNumber : List Char → Option (Json × List Char)
  | '-' :: rest => readMagnitude true rest
  | cs => readMagnitude false cs

/-- Puts a member into an object; of two with one key the later value counts. -/
def putMember (key : String) (value : Json) : List (String × Json) → List (String × Json)
  | [] => [(key, value)]
  | (other, old) :: rest =>
    if other = key then (key, value) :: rest else (other, old) :: putMember key value rest

def ofMembers (members : List (String × Json)) : Json :=
  object (members.foldl (fun found (key, value) => putMember key value found) [])

mutual

/-- The value at the start of a text, and what follows it; every step into it or along it takes
one of the given steps. -/
def readValue : (steps : Nat) → List Char → Option (Json × List Char)
  | 0, _ => none
  | steps + 1, cs =>
    match cs.dropWhile isBlank with
    | 'n' :: 'u' :: 'l' :: 'l' :: rest => some (null, rest)
    | 't' :: 'r' :: 'u' :: 'e' :: rest => some (bool true, rest)
    | 'f' :: 'a' :: 'l' :: 's' :: 'e' :: rest => some (bool false, rest)
    | '\x22' :: rest => (readText rest).map fun (text, after) => (string (.ofList text), after)
    | '[' :: rest =>
      match rest.dropWhile isBlank with
      | ']' :: after => some (array [], after)
      | inner => (readItems steps inner).map fun (items, after) => (array items, after)
    | '\x7b' :: rest =>
      match rest.dropWhile isBlank with
      | '\x7d' :: after => some (object [], after)
      | inner => (readMembers steps inner).map fun (found, after) => (ofMembers found, after)
    | other => readNumber other

def readItems : (steps : Nat) → List Char → Option (List Json × List Char)
  | 0, _ => none
  | steps + 1, cs => do
    let (item, cs) ← readValue steps cs
    match cs.dropWhile isBlank with
    | ']' :: after => return ([item], after)
    | ',' :: rest => do
      let (items, after) ← readItems steps rest
      return (item :: items, after)
    | _ => none

def readMembers : (steps : Nat) → List Char → Option (List (String × Json) × List Char)
  | 0, _ => none
  | steps + 1, cs =>
    match cs.dropWhile isBlank with
    | '\x22' :: rest => do
      let (key, cs) ← readText rest
      match cs.dropWhile isBlank with
      | ':' :: rest => do
        let (value, cs) ← readValue steps rest
        match cs.dropWhile isBlank with
        | '\x7d' :: after => return ([(.ofList key, value)], after)
        | ',' :: rest => do
          let (found, after) ← readMembers steps rest
          return ((.ofList key, value) :: found, after)
        | _ => none
      | _ => none
    | _ => none

end

/-- Reads a text that is one JSON value. -/
def parse? (text : String) : Option Json := do
  let (value, rest) ← readValue (text.length + 1) text.toList
  guard (rest.all isBlank)
  return value

end Json

end SearchFilter

import SearchFilter.CharClass
import SearchFilter.Checked
import SearchFilter.Failure

namespace SearchFilter

/-- All white space of Unicode. -/
def isSpace (c : Char) : Bool :=
  let n := c.toNat
  (9 ≤ n && n ≤ 13) || n == 32 || n == 133 || n == 160 || n == 5760 || (8192 ≤ n && n ≤ 8202) ||
    n == 8232 || n == 8233 || n == 8239 || n == 8287 || n == 12288

def trimSpaces (cs : List Char) : List Char :=
  ((cs.dropWhile isSpace).reverse.dropWhile isSpace).reverse

/-- A number of plain digits, not too many of them and with no needless zero in front. -/
def plainNat? (digits : List Char) : Option Nat :=
  if digits = ['0'] then some 0
  else if digits = [] ∨ digits.head? = some '0' ∨ ¬digits.all Char.isDigit then none
  else if digitLimit < digits.length then none
  else some (digitsValue digits)

/-- A plain number that may have a minus. -/
def plainInt? : List Char → Option Int
  | '-' :: digits => (plainNat? digits).map fun size => -(size : Int)
  | digits => (plainNat? digits).map fun size => (size : Int)

/-- How many digits a text begins with, behind a minus if it has one. Digits that begin with zero do
not count. -/
def leadingDigits (cs : List Char) : Nat :=
  let digits := (if cs.head? = some '-' then cs.tail else cs).takeWhile Char.isDigit
  if digits.head? = some '0' then 0 else digits.length

/-- What follows zeros, the last character of which is given, and underscores among and after them.
A point keeps that last character, and so does the end of the text. -/
def afterZeros? (last : Char) : List Char → Option (List Char)
  | [] => some [last]
  | c :: rest =>
    if c = '0' ∨ c = '_' then afterZeros? c rest
    else if c = '.' then some (last :: c :: rest)
    else if c = '-' ∨ c.isDigit then some (c :: rest)
    else none

/-- A text that begins with a digit, without the zeros that it begins with. Behind them a minus may
stand. -/
def dropZeros? : List Char → Option (List Char)
  | [] => none
  | c :: rest =>
    if c = '0' then afterZeros? c rest else if c.isDigit then some (c :: rest) else none

/-- A fraction of one or more zeros is dropped with its point. -/
def dropFraction (cs : List Char) : List Char :=
  match cs.dropWhile (· ≠ '.') with
  | '.' :: '0' :: zeros => if zeros.all (· = '0') then cs.takeWhile (· ≠ '.') else cs
  | _ => cs

/-- Whether no underscore is at an end of a text or next to another one. -/
def underscoresApart (cs : List Char) : Bool :=
  cs.head? ≠ some '_' && cs.getLast? ≠ some '_' && !(cs.zip cs.tail).contains ('_', '_')

def dropUnderscores (cs : List Char) : List Char :=
  if underscoresApart cs then cs.filter (· ≠ '_') else cs

/-- A text that begins with a digit, without what a number may be written with and need not be. -/
def tidiedSize? (cs : List Char) : Option (List Char) := do
  let cs ← dropZeros? cs
  return dropUnderscores (dropFraction cs)

/-- A text without the spaces around it and the plus in front, its digits tidied. -/
def tidied? (cs : List Char) : Option (List Char) :=
  match trimSpaces cs with
  | '-' :: rest => (tidiedSize? rest).map ('-' :: ·)
  | '+' :: rest => tidiedSize? rest
  | rest => tidiedSize? rest

/-- The integer that a text writes. It is refused for its size only if its digits are too many where
it begins; after tidying, digits that are too many are no number. -/
def intOfText (text : String) : Checked Int :=
  if digitLimit < leadingDigits text.toList then .refuse .oversizedInt
  else
    match (tidied? text.toList).bind plainInt? with
    | some value => .valid value
    | none => .refuse .unreadableInt

end SearchFilter

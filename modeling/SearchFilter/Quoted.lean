import SearchFilter.Printable

namespace SearchFilter

/-- As many lower-case hexadecimal digits of a number as `width` says, the highest first. -/
def hexDigits : (width : Nat) → Nat → List Char
  | 0, _ => []
  | width + 1, n => hexDigits width (n / 16) ++ [Nat.digitChar (n % 16)]

/-- Double marks are used only around a text that holds a single mark and no double one. -/
def quoteMark (text : List Char) : Char :=
  if '\x27' ∈ text ∧ '\x22' ∉ text then '\x22' else '\x27'

/-- How one character is written between the marks. -/
def quoteChar (mark c : Char) : List Char :=
  if c = '\\' ∨ c = mark then ['\\', c]
  else if c = '\n' then ['\\', 'n']
  else if c = '\r' then ['\\', 'r']
  else if c = '\t' then ['\\', 't']
  else if isPrintable c then [c]
  else if c.toNat < 0x100 then '\\' :: 'x' :: hexDigits 2 c.toNat
  else if c.toNat < 0x10000 then '\\' :: 'u' :: hexDigits 4 c.toNat
  else '\\' :: 'U' :: hexDigits 8 c.toNat

def quoteChars (text : List Char) : List Char :=
  quoteMark text :: text.flatMap (quoteChar (quoteMark text)) ++ [quoteMark text]

/-- A text as messages show it: on one line, in marks, with everything unprintable escaped. -/
def quoted (text : String) : String := String.ofList (quoteChars text.toList)

end SearchFilter

import SearchFilter.CharClass
import SearchFilter.Token

namespace SearchFilter

/-- A word of date shape, cut into its runs of digits. -/
inductive DateWord where
  | year (y : List Char)
  | month (y m : List Char)
  | day (y m d : List Char)
  deriving DecidableEq

namespace DateWord

def written : DateWord → List Char
  | year y => y
  | month y m => y ++ '-' :: m
  | day y m d => y ++ '-' :: m ++ '-' :: d

def literal (position : Nat) (word : DateWord) : DateLiteral :=
  let value (digits : List Char) : Int := digitsValue digits
  let text := String.ofList word.written
  match word with
  | year y => ⟨value y, none, none, text, position⟩
  | month y m => ⟨value y, some (value m), none, text, position⟩
  | day y m d => ⟨value y, some (value m), some (value d), text, position⟩

end DateWord

/-- The smallest parts of a filter, as written. -/
inductive Lexeme where
  | comparator (comparison : Comparison)
  | connective (connective : Connective)
  | date (word : DateWord)
  | duration (digits : List Char) (unit : DurationUnit)
  | tag (name : List Char)
  | notTag (name : List Char)
  deriving DecidableEq

namespace Lexeme

def written : Lexeme → List Char
  | .comparator c => [c.symbol]
  | .connective c => c.word
  | .date word => word.written
  | .duration digits unit => digits ++ [unit.suffix]
  | .tag name => name
  | .notTag name => '!' :: name

end Lexeme

end SearchFilter

import SearchFilter.Token

namespace SearchFilter

/-- A condition on one document that the search backend checks. -/
inductive Constraint where
  | tagged (name : String)
  | untagged (name : String)
  | dated (comparison : Comparison) (second : Int)
  deriving DecidableEq

/-- The parts that a backend filter is put together from. -/
inductive Piece where
  | constraint (constraint : Constraint)
  | connective (connective : Connective)
  deriving DecidableEq

def Constraint.chars : Constraint → List Char
  | .tagged name => "tags = ".toList ++ name.toList
  | .untagged name => "tags != ".toList ++ name.toList
  | .dated comparison second =>
    "date ".toList ++ comparison.symbol :: ' ' :: (toString second).toList

def Piece.chars : Piece → List Char
  | .constraint c => c.chars
  | .connective c => ' ' :: c.word ++ [' ']

/-- The text of a backend filter. -/
def filterText (pieces : List Piece) : String := String.ofList (pieces.flatMap Piece.chars)

end SearchFilter

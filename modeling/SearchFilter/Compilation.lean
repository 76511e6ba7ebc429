import SearchFilter.Constraint
import SearchFilter.DateRange

namespace SearchFilter

/-- A member of a token sequence given from outside, which need not be a token. -/
inductive Item where
  | token (token : Token)
  | foreign (value : Json)

/-- A bound on the date of a document, unless it has more digits than a number may have. -/
def datePiece (comparison : Comparison) (second : Int) : Except Failure Piece :=
  if exceedsDigitLimit second then .error .resultTooLong
  else .ok (.constraint (.dated comparison second))

/-- What a token adds to the filter when a comparator may be waiting for a date or duration. A date
with none gets both bounds, and a duration alone means later than it. -/
def Token.pieces (now : Moment) (pending : Option Comparison) :
    Token → Except Failure (List Piece)
  | .tag name => .ok [.constraint (.tagged name)]
  | .notTag name => .ok [.constraint (.untagged name)]
  | .connective c => .ok [.connective c]
  | .date literal => do
    let range ← literal.range
    match pending with
    | some .greater => return [← datePiece .greater range.startEpoch]
    | some .less => return [← datePiece .less range.endEpoch]
    | none =>
      let after ← datePiece .greater range.startEpoch
      let before ← datePiece .less range.endEpoch
      return [after, .connective .and, before]
  | .duration length => do
    return [← datePiece (pending.getD .greater) (length.epochBefore now)]
  | .comparator _ => .ok []
  | .endOfInput => .ok []

/-- The comparator that waits after a token: a new one replaces it, a date or duration uses it up,
and everything else lets it wait. -/
def Token.pendingAfter (pending : Option Comparison) : Token → Option Comparison
  | .comparator comparison => some comparison
  | .date _ => none
  | .duration _ => none
  | _ => pending

/-- The pieces of a whole sequence, which ends at the first end of input. -/
def piecesOf (now : Moment) : (pending : Option Comparison) → List Item →
    Except Failure (List Piece)
  | _, [] => .ok []
  | _, .foreign value :: _ => .error (.foreignItem value)
  | _, .token .endOfInput :: _ => .ok []
  | pending, .token token :: rest => do
    let here ← token.pieces now pending
    let later ← piecesOf now (token.pendingAfter pending) rest
    return here ++ later

def compileItems (now : Moment) (items : List Item) : Except Failure String :=
  (piecesOf now none items).map filterText

def compileTokens (now : Moment) (tokens : List Token) : Except Failure String :=
  compileItems now (tokens.map .token)

end SearchFilter

import SearchFilter.Failure
import SearchFilter.Scan

namespace SearchFilter

inductive Span where
  | date (literal : DateLiteral)
  | duration (duration : Duration)
  deriving DecidableEq

inductive Term where
  | tag (name : String)
  | notTag (name : String)
  | timed (bound : Option Comparison) (span : Span)
  deriving DecidableEq

/-- A flat filter: terms with a connective between each two. -/
structure Expression where
  first : Term
  clauses : List (Connective × Term)
  deriving DecidableEq

def Span.token : Span → Token
  | .date literal => .date literal
  | .duration length => .duration length

def Term.tokens : Term → List Token
  | .tag name => [.tag name]
  | .notTag name => [.notTag name]
  | .timed bound span => bound.toList.map .comparator ++ [span.token]

/-- The tokens of a filter in order, closed by the end of the input. -/
def Expression.tokens (expression : Expression) : List Token :=
  expression.first.tokens ++
    expression.clauses.flatMap (fun (connective, term) => .connective connective :: term.tokens) ++
    [.endOfInput]

/-- The date or duration that a lexeme writes, if reading it began at a position. An amount with
more digits than a number may have is refused, leading zeros counted. -/
def Lexeme.span? (position : Nat) : Lexeme → Option (Except Failure Span)
  | .date word => some (.ok (.date (word.literal position)))
  | .duration digits unit =>
    if digitLimit < digits.length then some (.error (.amountTooLong digits.length))
    else some (.ok (.duration ⟨digitsValue digits, unit⟩))
  | _ => none

/-- The term at the head of some lexemes, and the lexemes after it. A date or duration is read from
where it begins, or from directly behind its comparator even if blanks follow that. -/
def Term.read? : List Placed → Option (Except Failure Term × List Placed)
  | [] => none
  | ⟨_, .tag name⟩ :: rest => some (.ok (.tag (.ofList name)), rest)
  | ⟨_, .notTag name⟩ :: rest => some (.ok (.notTag (.ofList name)), rest)
  | ⟨offset, .comparator comparison⟩ :: rest => do
    let placed ← rest.head?
    let span ← placed.lexeme.span? (offset + 1)
    return (span.map (.timed (some comparison)), rest.tail)
  | ⟨offset, lexeme⟩ :: rest =>
    (lexeme.span? offset).map fun span => (span.map (.timed none), rest)

theorem Term.length_of_read? {placed rest : List Placed} {term : Except Failure Term}
    (h : Term.read? placed = some (term, rest)) : rest.length < placed.length := by
  unfold Term.read? at h
  split at h
  next => simp at h
  next => cases h; simp
  next => cases h; simp
  next later =>
    simp only [Option.bind_eq_bind, Option.bind_eq_some_iff] at h
    obtain ⟨_, _, _, _, he⟩ := h
    cases he
    simp only [List.length_tail, List.length_cons]
    omega
  next =>
    obtain ⟨_, _, he⟩ := Option.map_eq_some_iff.mp h
    cases he
    simp

/-- As many pairs of a connective and a term as follow one another, and the lexemes after them. -/
def readClauses : List Placed → List (Connective × Except Failure Term) × List Placed
  | ⟨offset, .connective connective⟩ :: rest =>
    match _h : Term.read? rest with
    | none => ([], ⟨offset, .connective connective⟩ :: rest)
    | some (term, later) =>
      let (clauses, remaining) := readClauses later
      ((connective, term) :: clauses, remaining)
  | placed => ([], placed)
termination_by placed => placed.length
decreasing_by
  have := Term.length_of_read? _h
  simp only [List.length_cons]
  omega

/-- The longest expression at the head of some lexemes, unless an amount in it is refused. -/
def Expression.read? (placed : List Placed) : Option (Except Failure Expression × List Placed) := do
  let (first, rest) ← Term.read? placed
  let (clauses, remaining) := readClauses rest
  let expression := do
    let first ← first
    let clauses ← clauses.mapM fun (connective, term) => term.map (connective, ·)
    return ⟨first, clauses⟩
  return (expression, remaining)

/-- Where a text that begins with no term departs from one. -/
def Scan.missingTerm (scan : Scan) : Nat :=
  match scan.placed with
  | ⟨_, .comparator _⟩ :: rest => scan.offsetOf rest
  | placed => scan.offsetOf placed

/-- Reads a whole filter. -/
def Expression.parse (text : String) : Except Failure Expression :=
  let scan := scanFrom 0 text.toList
  match Expression.read? scan.placed with
  | none =>
    let expected := if scan.missingTerm = 0 then .term else .dateOrDuration
    .error (.malformed text (columnAt text.toList scan.missingTerm) expected)
  | some (expression, remaining) => do
    let expression ← expression
    if scan.offsetOf remaining < text.length then
      .error (.malformed text (columnAt text.toList (scan.offsetOf remaining)) .endOfText)
    else return expression

/-- The tokens of a filter, or why it has none. -/
def tokenize (text : String) : Except Failure (List Token) :=
  (Expression.parse text).map Expression.tokens

end SearchFilter

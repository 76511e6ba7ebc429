import SearchFilter.CharClass
import SearchFilter.DecimalText
import SearchFilter.Failure
import SearchFilter.Proofs.WordKind

namespace SearchFilter

/-- A run of blanks, which may be empty. -/
structure Gap where
  chars : List Char
  blank : chars.all isBlank

def Gap.length (gap : Gap) : Nat := gap.chars.length

namespace Draft

/-- A date as numbers, which need not be in the calendar. -/
inductive Date where
  | year (y : Fin 10000)
  | month (y : Fin 10000) (m : Fin 100)
  | day (y : Fin 10000) (m d : Fin 100)

def Date.chars : Date → List Char
  | year y => zeroPadded 4 y
  | month y m => zeroPadded 4 y ++ '-' :: zeroPadded 2 m
  | day y m d => zeroPadded 4 y ++ '-' :: zeroPadded 2 m ++ '-' :: zeroPadded 2 d

def Date.literal (position : Nat) (date : Date) : DateLiteral :=
  let value (n : Nat) : Int := n
  let text := String.ofList date.chars
  match date with
  | year y => ⟨value y, none, none, text, position⟩
  | month y m => ⟨value y, some (value m), none, text, position⟩
  | day y m d => ⟨value y, some (value m), some (value d), text, position⟩

inductive Span where
  | date (date : Date)
  | duration (amount : Nat) (unit : DurationUnit)
      (short : (Nat.toDigits 10 amount).length ≤ digitLimit)

def Span.chars : Span → List Char
  | date d => d.chars
  | duration amount unit _ => Nat.toDigits 10 amount ++ [unit.suffix]

def Span.token (position : Nat) : Span → Token
  | date d => .date (d.literal position)
  | duration amount unit _ => .duration ⟨amount, unit⟩

/-- A term with the blanks that stand behind its comparator, if it has one. -/
inductive Term where
  | tag (name : List Char) (unclaimed : IsTagWord name)
  | notTag (name : List Char) (word : isWord name)
  | span (span : Span)
  | bounded (comparison : Comparison) (gap : Gap) (span : Span)

namespace Term

def chars : Term → List Char
  | tag name _ => name
  | notTag name _ => '!' :: name
  | span s => s.chars
  | bounded comparison gap s => comparison.symbol :: gap.chars ++ s.chars

/-- Whether a term begins with a sign, which needs no blank in front. -/
def Signed : Term → Prop
  | notTag _ _ => True
  | bounded _ _ _ => True
  | _ => False

/-- The tokens of a term that begins at an offset. How far behind its comparator a date is placed
depends on the gap between them. -/
def tokens (distance : Gap → Nat) (offset : Nat) : Term → List Token
  | tag name _ => [.tag (.ofList name)]
  | notTag name _ => [.notTag (.ofList name)]
  | span s => [s.token offset]
  | bounded comparison gap s => [.comparator comparison, s.token (offset + 1 + distance gap)]

end Term

/-- A connective and the term behind it, with the blanks in front of both. Only a sign may stand
directly behind the connective. -/
structure Clause where
  before : Gap
  connective : Connective
  after : Gap
  term : Term
  before_ne_nil : before.chars ≠ []
  after_ne_nil : ¬term.Signed → after.chars ≠ []

namespace Clause

/-- What a clause has in front of its term. -/
def front (clause : Clause) : List Char :=
  clause.before.chars ++ clause.connective.word ++ clause.after.chars

def chars (clause : Clause) : List Char := clause.front ++ clause.term.chars

def tokens (distance : Gap → Nat) : (offset : Nat) → List Clause → List Token
  | _, [] => []
  | offset, clause :: clauses =>
    .connective clause.connective ::
      clause.term.tokens distance (offset + clause.front.length) ++
      tokens distance (offset + clause.chars.length) clauses

end Clause

end Draft

/-- A filter before it is a text: its terms and connectives, and all blanks around them. -/
structure Draft where
  lead : Gap
  first : Draft.Term
  clauses : List Draft.Clause
  trail : Gap

namespace Draft

def chars (draft : Draft) : List Char :=
  draft.lead.chars ++ draft.first.chars ++ draft.clauses.flatMap Clause.chars ++ draft.trail.chars

def text (draft : Draft) : String := String.ofList draft.chars

def terms (draft : Draft) : List Term := draft.first :: draft.clauses.map Clause.term

/-- The tokens of a draft, closed by the end of the input. -/
def tokens (distance : Gap → Nat) (draft : Draft) : List Token :=
  draft.first.tokens distance draft.lead.length ++
    Clause.tokens distance (draft.lead.length + draft.first.chars.length) draft.clauses ++
    [.endOfInput]

/-- No blank parts a comparator from the date behind it. -/
def DatesAdjoin (draft : Draft) : Prop :=
  ∀ comparison gap date, Term.bounded comparison gap (.date date) ∈ draft.terms → gap.chars = []

end Draft

end SearchFilter

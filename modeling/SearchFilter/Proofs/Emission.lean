import SearchFilter.Compiler
import SearchFilter.Proofs.Demand

namespace SearchFilter

theorem Journaled.outcome_bind {α β : Type} (first : Journaled α) (next : α → Journaled β) :
    (first >>= next).outcome = first.outcome >>= fun value => (next value).outcome := by
  obtain ⟨outcome, events⟩ := first
  cases outcome <;> rfl

theorem Constraint.chars_ne_nil (constraint : Constraint) : constraint.chars ≠ [] := by
  intro he
  cases constraint with
  | tagged name => exact absurd (List.append_eq_nil_iff.mp he).1 (by decide)
  | untagged name => exact absurd (List.append_eq_nil_iff.mp he).1 (by decide)
  | dated comparison second => exact absurd (List.append_eq_nil_iff.mp he).1 (by decide)

namespace Chain

def pieces : Chain Constraint → List Piece
  | single constraint => [.constraint constraint]
  | link constraint connective rest =>
    .constraint constraint :: .connective connective :: rest.pieces

/-- The backend filter that consists of some constraints. -/
def text (chain : Chain Constraint) : String := filterText chain.pieces

theorem pieces_join {chain other : Chain Constraint} {connective : Connective} :
    (chain.join connective other).pieces =
      chain.pieces ++ .connective connective :: other.pieces := by
  induction chain with
  | single constraint => rfl
  | link constraint joint rest ih =>
    rw [join, pieces, pieces, ih, List.cons_append, List.cons_append]

theorem text_join {chain other : Chain Constraint} {connective : Connective} :
    (chain.join connective other).text =
      chain.text ++ " " ++ String.ofList connective.word ++ " " ++ other.text := by
  rw [← String.toList_inj, text, text, text, pieces_join]
  simp [filterText, Piece.chars]

theorem text_ne_empty (chain : Chain Constraint) : chain.text ≠ "" := by
  intro he
  obtain ⟨constraint, rest, hp⟩ : ∃ constraint rest,
      chain.pieces = .constraint constraint :: rest := by
    cases chain <;> exact ⟨_, _, rfl⟩
  have hl := congrArg String.toList he
  rw [text, filterText, String.toList_ofList, hp, List.flatMap_cons] at hl
  exact constraint.chars_ne_nil (List.append_eq_nil_iff.mp hl).1

end Chain

theorem Expression.tokens_ne_nil (expression : Expression) : expression.tokens ≠ [] := by
  simp [tokens]

theorem datePiece_eq (comparison : Comparison) (second : Int) :
    datePiece comparison second =
      (Constraint.writable (.dated comparison second)).map .constraint := by
  rw [datePiece, Constraint.writable]
  split <;> rfl

theorem Span.pieces_eq (now : Moment) (bound : Option Comparison) (span : Span) :
    span.token.pieces now bound = (Term.written now (.timed bound span)).map Chain.pieces := by
  have single : ∀ comparison second,
      (datePiece comparison second).map (fun piece => [piece]) =
        ((Chain.single (.dated comparison second)).traverse Constraint.writable).map
          Chain.pieces := by
    intro comparison second
    rw [datePiece_eq, Chain.traverse]
    cases Constraint.writable (.dated comparison second) <;> rfl
  cases span with
  | duration length => exact single _ _
  | date literal =>
    cases hr : literal.range with
    | error failure =>
      rcases bound with _ | _ | _ <;>
        simp only [token, Token.pieces, Term.written, Term.constraints, hr] <;> rfl
    | ok range =>
      rcases bound with _ | _ | _ <;>
        simp only [token, Token.pieces, Term.written, Term.constraints, hr]
      · have both : (do
            let after ← datePiece .greater range.startEpoch
            let before ← datePiece .less range.endEpoch
            return [after, .connective .and, before]) =
              ((Chain.link (.dated .greater range.startEpoch) .and
                (.single (.dated .less range.endEpoch))).traverse Constraint.writable).map
                Chain.pieces := by
          rw [datePiece_eq, datePiece_eq, Chain.traverse, Chain.traverse]
          cases Constraint.writable (.dated .greater range.startEpoch) with
          | error failure => rfl
          | ok after => cases Constraint.writable (.dated .less range.endEpoch) <;> rfl
        exact both
      · exact single _ _
      · exact single _ _

/-- A token in front of the end adds its pieces, and then the rest adds its own. -/
theorem piecesOf_cons {token : Token} (h : token ≠ .endOfInput) (now : Moment)
    (pending : Option Comparison) (rest : List Item) :
    piecesOf now pending (.token token :: rest) = (do
      let here ← token.pieces now pending
      let later ← piecesOf now (token.pendingAfter pending) rest
      return here ++ later) := by
  cases token with
  | endOfInput => exact absurd rfl h
  | _ => rfl

/-- The tokens of a term add the pieces of its constraints and leave no comparator waiting. -/
theorem piecesOf_term (now : Moment) (term : Term) (rest : List Token) :
    piecesOf now none ((term.tokens ++ rest).map .token) = (do
      let chain ← term.written now
      let later ← piecesOf now none (rest.map .token)
      return chain.pieces ++ later) := by
  cases term with
  | tag name => rfl
  | notTag name => rfl
  | timed bound span =>
    have hspan : piecesOf now bound (.token span.token :: rest.map .token) = (do
        let here ← span.token.pieces now bound
        let later ← piecesOf now none (rest.map .token)
        return here ++ later) := by cases span <;> rfl
    have hbound : piecesOf now none ((Term.tokens (.timed bound span) ++ rest).map .token) =
        piecesOf now bound (.token span.token :: rest.map .token) := by
      cases bound with
      | none => rfl
      | some comparison =>
        change (do
          let later ← piecesOf now (some comparison) (.token span.token :: rest.map .token)
          return [] ++ later) = _
        simp
    rw [hbound, hspan, Span.pieces_eq]
    cases Term.written now (.timed bound span) <;> rfl

theorem piecesOf_chain (now : Moment) (first : Term) (clauses : List (Connective × Term)) :
    piecesOf now none ((Expression.tokens ⟨first, clauses⟩).map .token) =
      (Expression.written now ⟨first, clauses⟩).map Chain.pieces := by
  induction clauses generalizing first with
  | nil =>
    rw [Expression.tokens, List.append_assoc, piecesOf_term]
    simp only [Expression.written, Expression.chain, Chain.ofLinks, Chain.traverse]
    cases first.written now with
    | error failure => rfl
    | ok chain => simp [piecesOf, Chain.flatten, Except.map, bind, Except.bind, pure, Except.pure]
  | cons clause clauses ih =>
    obtain ⟨connective, term⟩ := clause
    have hlink : piecesOf now none
        ((.connective connective :: Expression.tokens ⟨term, clauses⟩).map .token) = (do
          let later ← piecesOf now none ((Expression.tokens ⟨term, clauses⟩).map .token)
          return [.connective connective] ++ later) := rfl
    have htokens : Expression.tokens ⟨first, (connective, term) :: clauses⟩ =
        first.tokens ++ .connective connective :: Expression.tokens ⟨term, clauses⟩ := by
      simp [Expression.tokens]
    rw [htokens, piecesOf_term, hlink, ih]
    simp only [Expression.written, Expression.chain, Chain.ofLinks, Chain.traverse]
    cases first.written now with
    | error failure => rfl
    | ok chain =>
      cases (Chain.ofLinks term clauses).traverse (Term.written now) with
      | error failure => rfl
      | ok later => simp [Chain.flatten, Chain.pieces_join, Except.map, bind, Except.bind, pure,
          Except.pure]

theorem compileTokens_eq (now : Moment) (expression : Expression) :
    compileTokens now expression.tokens = (expression.written now).map Chain.text := by
  rw [compileTokens, compileItems, piecesOf_chain]
  cases expression.written now <;> rfl

theorem Compiler.finish_outcome (compiler : Compiler) (text : String) (tokens : List Token)
    (now : Option Moment) :
    (compiler.finish text tokens now).outcome = compileTokens (now.getD compiler.clock) tokens := by
  rw [finish]
  split
  next he => exact he.symm
  next he => exact he.symm
  next he => exact he.symm

theorem tokenizeOrDrop_outcome (text : String) :
    (tokenizeOrDrop text).outcome =
      match Expression.parse text with
      | .ok expression => .ok expression.tokens
      | .error (.malformed _ _ _) => .ok []
      | .error failure => .error failure := by
  rw [tokenizeOrDrop, tokenize]
  cases Expression.parse text with
  | ok expression => rfl
  | error failure => cases failure <;> rfl

/-- What compiling comes to: nothing for a malformed text, and else the text of its demands. -/
theorem Compiler.compile_outcome (compiler : Compiler) (text : String) (now : Option Moment) :
    (compiler.compile text now).outcome =
      match Expression.parse text with
      | .ok expression => (expression.written (now.getD compiler.clock)).map Chain.text
      | .error (.malformed _ _ _) => .ok ""
      | .error failure => .error failure := by
  rw [compile, Journaled.outcome_bind, tokenizeOrDrop_outcome]
  cases Expression.parse text with
  | error failure => cases failure <;> rfl
  | ok expression =>
    have hne : ¬expression.tokens.isEmpty := by simp [expression.tokens_ne_nil]
    change (if expression.tokens.isEmpty then (pure "" : Journaled String)
      else compiler.finish text expression.tokens now).outcome = _
    rw [if_neg hne, finish_outcome, compileTokens_eq]

theorem Compiler.compile_of_parse {compiler : Compiler} {text : String} {now : Option Moment}
    {expression : Expression} (h : Expression.parse text = .ok expression) :
    (compiler.compile text now).outcome =
      (expression.written (now.getD compiler.clock)).map Chain.text := by
  rw [compile_outcome, h]

theorem Compiler.compileStrictly_outcome (compiler : Compiler) (text : String)
    (now : Option Moment) :
    (compiler.compileStrictly text now).outcome = (do
      let expression ← Expression.parse text
      (expression.written (now.getD compiler.clock)).map Chain.text) := by
  rw [compileStrictly, Journaled.outcome_bind, Journaled.ofOutcome, tokenize]
  cases Expression.parse text with
  | error failure => rfl
  | ok expression =>
    change (compiler.finish text expression.tokens now).outcome = _
    rw [finish_outcome, compileTokens_eq]
    rfl

end SearchFilter

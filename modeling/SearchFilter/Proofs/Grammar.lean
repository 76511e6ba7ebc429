import SearchFilter.Expression
import SearchFilter.Proofs.Outcome
import SearchFilter.Proofs.Spelling

namespace SearchFilter

def Lexeme.IsSpan : Lexeme → Prop
  | .date _ => True
  | .duration _ _ => True
  | _ => False

/-- A tag, a negated tag, or a date or duration with or without a comparator. -/
inductive IsTerm : List Lexeme → Prop
  | tag (name : List Char) : IsTerm [.tag name]
  | notTag (name : List Char) : IsTerm [.notTag name]
  | span {lexeme : Lexeme} : lexeme.IsSpan → IsTerm [lexeme]
  | bounded (comparison : Comparison) {lexeme : Lexeme} :
      lexeme.IsSpan → IsTerm [.comparator comparison, lexeme]

/-- Terms with a connective between each two. -/
inductive IsExpression : List Lexeme → Prop
  | term {term : List Lexeme} : IsTerm term → IsExpression term
  | joined {term rest : List Lexeme} (connective : Connective) : IsTerm term →
      IsExpression rest → IsExpression (term ++ .connective connective :: rest)

/-- The lexemes that a term is read from, or from which it is refused. -/
inductive Term.Spelled : Except Failure Term → List Placed → Prop
  | tag {offset : Nat} {name : List Char} :
      Spelled (.ok (.tag (.ofList name))) [⟨offset, .tag name⟩]
  | notTag {offset : Nat} {name : List Char} :
      Spelled (.ok (.notTag (.ofList name))) [⟨offset, .notTag name⟩]
  | span {offset : Nat} {lexeme : Lexeme} {span : Except Failure Span} :
      lexeme.span? offset = some span → Spelled (span.map (.timed none)) [⟨offset, lexeme⟩]
  | bounded {offset place : Nat} {comparison : Comparison} {lexeme : Lexeme}
      {span : Except Failure Span} : lexeme.span? (offset + 1) = some span →
      Spelled (span.map (.timed (some comparison)))
        [⟨offset, .comparator comparison⟩, ⟨place, lexeme⟩]

/-- The lexemes that connectives, each with a term behind it, are read from. -/
inductive ClausesSpelled : List (Connective × Except Failure Term) → List Placed → Prop
  | nil : ClausesSpelled [] []
  | cons {offset : Nat} {connective : Connective} {term : Except Failure Term}
      {clauses : List (Connective × Except Failure Term)} {placed rest : List Placed} :
      Term.Spelled term placed → ClausesSpelled clauses rest →
      ClausesSpelled ((connective, term) :: clauses)
        (⟨offset, .connective connective⟩ :: (placed ++ rest))

/-- The lexemes that an expression is read from. -/
def Expression.Spelled (expression : Expression) (placed : List Placed) : Prop :=
  ∃ first rest, placed = first ++ rest ∧ Term.Spelled (.ok expression.first) first ∧
    ClausesSpelled (expression.clauses.map fun (connective, term) => (connective, .ok term)) rest

theorem Lexeme.span?_isSome {lexeme : Lexeme} (h : lexeme.IsSpan) (position : Nat) :
    ∃ span, lexeme.span? position = some span := by
  cases lexeme with
  | date word => exact ⟨_, rfl⟩
  | duration digits unit => exact Option.isSome_iff_exists.mp (by simp only [span?]; split <;> rfl)
  | _ => exact absurd h (by simp [IsSpan])

theorem Lexeme.isSpan_of_span? {lexeme : Lexeme} {position : Nat} {span : Except Failure Span}
    (h : lexeme.span? position = some span) : lexeme.IsSpan := by
  cases lexeme with
  | date word => trivial
  | duration digits unit => trivial
  | _ => cases h

theorem Term.spelled_of_isTerm {placed : List Placed}
    (h : IsTerm (placed.map Placed.lexeme)) : ∃ term, Term.Spelled term placed := by
  generalize hl : placed.map Placed.lexeme = lexemes at h
  cases h with
  | tag name =>
    obtain ⟨⟨offset, lexeme⟩, rfl, rfl⟩ := List.map_eq_singleton_iff.mp hl
    exact ⟨_, .tag⟩
  | notTag name =>
    obtain ⟨⟨offset, lexeme⟩, rfl, rfl⟩ := List.map_eq_singleton_iff.mp hl
    exact ⟨_, .notTag⟩
  | span hs =>
    obtain ⟨⟨offset, lexeme⟩, rfl, rfl⟩ := List.map_eq_singleton_iff.mp hl
    obtain ⟨span, hp⟩ := Lexeme.span?_isSome hs offset
    exact ⟨_, .span hp⟩
  | bounded comparison hs =>
    obtain ⟨⟨offset, lexeme⟩, rest, rfl, rfl, hr⟩ := List.map_eq_cons_iff.mp hl
    obtain ⟨⟨place, later⟩, rfl, rfl⟩ := List.map_eq_singleton_iff.mp hr
    obtain ⟨span, hp⟩ := Lexeme.span?_isSome hs (offset + 1)
    exact ⟨_, .bounded hp⟩

theorem Term.Spelled.isTerm {term : Except Failure Term} {placed : List Placed}
    (h : Term.Spelled term placed) : IsTerm (placed.map Placed.lexeme) := by
  cases h with
  | tag => exact .tag _
  | notTag => exact .notTag _
  | span hs => exact .span (Lexeme.isSpan_of_span? hs)
  | bounded hs => exact .bounded _ (Lexeme.isSpan_of_span? hs)

/-- Reading a term takes exactly its own lexemes off the front. -/
theorem Term.read?_eq_some_iff {placed rest : List Placed} {term : Except Failure Term} :
    Term.read? placed = some (term, rest) ↔
      ∃ front, placed = front ++ rest ∧ Term.Spelled term front := by
  constructor
  · intro h
    unfold Term.read? at h
    split at h
    next => simp at h
    next => cases h; exact ⟨_, rfl, .tag⟩
    next => cases h; exact ⟨_, rfl, .notTag⟩
    next offset comparison later =>
      simp only [Option.bind_eq_bind, Option.bind_eq_some_iff] at h
      obtain ⟨⟨place, lexeme⟩, hh, span, hs, he⟩ := h
      obtain ⟨tail, rfl⟩ := List.head?_eq_some_iff.mp hh
      cases he
      exact ⟨_, rfl, .bounded hs⟩
    next =>
      obtain ⟨span, hs, he⟩ := Option.map_eq_some_iff.mp h
      cases he
      exact ⟨_, rfl, .span hs⟩
  · intro hx
    obtain ⟨front, rfl, h⟩ := hx
    cases h with
    | tag => rfl
    | notTag => rfl
    | @span offset lexeme span hs =>
      cases lexeme with
      | date word => simp [Term.read?, hs]
      | duration digits unit => simp [Term.read?, hs]
      | _ => simp [Lexeme.span?] at hs
    | bounded hs => simp [Term.read?, hs]

/-- Reading clauses takes those at the head first and then goes on behind them. -/
theorem readClauses_append {clauses : List (Connective × Except Failure Term)}
    {front : List Placed} (h : ClausesSpelled clauses front) (rest : List Placed) :
    readClauses (front ++ rest) = (clauses ++ (readClauses rest).1, (readClauses rest).2) := by
  induction h with
  | nil => rfl
  | @cons offset connective term clauses first front ht _ ih =>
    have hr : Term.read? (first ++ (front ++ rest)) = some (term, front ++ rest) :=
      Term.read?_eq_some_iff.mpr ⟨first, rfl, ht⟩
    rw [List.cons_append, List.append_assoc, readClauses]
    split
    next he => simp [hr] at he
    next he =>
      rw [hr] at he
      cases he
      rw [ih]
      rfl

theorem readClauses_of_spelled {clauses : List (Connective × Except Failure Term)}
    {placed : List Placed} (h : ClausesSpelled clauses placed) :
    readClauses placed = (clauses, []) := by
  have hnil : readClauses [] = ([], []) := by rw [readClauses]; simp
  have hr := readClauses_append h []
  rwa [hnil, List.append_nil, List.append_nil] at hr

/-- What the clauses leave over is the end of what they were read from. -/
theorem spelled_of_readClauses (placed : List Placed) :
    ∃ front, placed = front ++ (readClauses placed).2 ∧
      ClausesSpelled (readClauses placed).1 front := by
  fun_induction readClauses placed with
  | case1 offset connective rest hr => exact ⟨[], rfl, .nil⟩
  | case2 offset connective rest term later hr clauses remaining he ih =>
    obtain ⟨first, rfl, ht⟩ := Term.read?_eq_some_iff.mp hr
    obtain ⟨front, hf, hc⟩ := ih
    rw [he] at hf hc
    exact ⟨⟨offset, .connective connective⟩ :: (first ++ front), by simp [← hf], .cons ht hc⟩
  | case3 placed _ => exact ⟨[], rfl, .nil⟩

theorem clauses_mapM_eq_ok_iff {clauses : List (Connective × Except Failure Term)}
    {terms : List (Connective × Term)} :
    (clauses.mapM fun (connective, term) => term.map (connective, ·)) = .ok terms ↔
      clauses = terms.map fun (connective, term) => (connective, .ok term) := by
  induction clauses generalizing terms with
  | nil =>
    simp only [List.mapM_nil, pure_eq_ok_iff]
    constructor
    · rintro rfl
      rfl
    · intro h
      exact (List.map_eq_nil_iff.mp h.symm).symm
  | cons clause rest ih =>
    obtain ⟨connective, term⟩ := clause
    simp only [List.mapM_cons, bind_eq_ok_iff, map_eq_ok_iff, pure_eq_ok_iff, ih]
    constructor
    · intro hx
      obtain ⟨_, ⟨term, rfl, rfl⟩, later, rfl, rfl⟩ := hx
      rfl
    · intro h
      obtain ⟨⟨_, term⟩, later, rfl, he, rfl⟩ := List.map_eq_cons_iff.mp h.symm
      obtain ⟨rfl, rfl⟩ := Prod.mk.inj he
      exact ⟨_, ⟨term, rfl, rfl⟩, later, rfl, rfl⟩

/-- An expression consists of a term and of clauses, which may be refused. -/
theorem exists_spelled_of_isExpression {placed : List Placed}
    (h : IsExpression (placed.map Placed.lexeme)) :
    ∃ term clauses first rest, placed = first ++ rest ∧ Term.Spelled term first ∧
      ClausesSpelled clauses rest := by
  generalize hl : placed.map Placed.lexeme = lexemes at h
  induction h generalizing placed with
  | term ht =>
    obtain ⟨term, hs⟩ := Term.spelled_of_isTerm (hl ▸ ht)
    exact ⟨term, [], placed, [], by simp, hs, .nil⟩
  | joined connective ht _ ih =>
    obtain ⟨first, rest, rfl, rfl, hr⟩ := List.map_eq_append_iff.mp hl
    obtain ⟨⟨offset, lexeme⟩, later, rfl, rfl, rfl⟩ := List.map_eq_cons_iff.mp hr
    obtain ⟨term, hs⟩ := Term.spelled_of_isTerm ht
    obtain ⟨next, clauses, front, back, rfl, hn, hc⟩ := ih rfl
    exact ⟨term, (connective, next) :: clauses, first, _, rfl, hs, .cons hn hc⟩

namespace Expression

theorem spelled_of_read? {placed remaining : List Placed} {expression : Expression}
    (h : read? placed = some (.ok expression, remaining)) :
    ∃ front, placed = front ++ remaining ∧ expression.Spelled front := by
  simp only [read?, Option.bind_eq_bind, Option.bind_eq_some_iff] at h
  obtain ⟨⟨term, rest⟩, ht, he⟩ := h
  obtain ⟨first, rfl, hf⟩ := Term.read?_eq_some_iff.mp ht
  obtain ⟨later, hl, hc⟩ := spelled_of_readClauses rest
  obtain ⟨ho, rfl⟩ := Prod.mk.inj (Option.some.inj he)
  simp only [bind_eq_ok_iff, pure_eq_ok_iff, clauses_mapM_eq_ok_iff] at ho
  obtain ⟨term, rfl, terms, hm, rfl⟩ := ho
  rw [hm] at hc
  exact ⟨first ++ later, by rw [List.append_assoc, ← hl], first, later, rfl, hf, hc⟩

theorem read?_of_spelled {placed : List Placed} {expression : Expression}
    (h : expression.Spelled placed) : read? placed = some (.ok expression, []) := by
  obtain ⟨first, rest, rfl, hf, hc⟩ := h
  have ht : Term.read? (first ++ rest) = some (.ok expression.first, rest) :=
    Term.read?_eq_some_iff.mpr ⟨first, rfl, hf⟩
  simp only [read?, ht, Option.bind_eq_bind, Option.bind_some, readClauses_of_spelled hc,
    Option.pure_def, Option.some.injEq, Prod.mk.injEq, and_true, bind_eq_ok_iff, pure_eq_ok_iff,
    clauses_mapM_eq_ok_iff]
  exact ⟨expression.first, rfl, expression.clauses, rfl, rfl⟩

theorem spelled_iff_read? {placed : List Placed} {expression : Expression} :
    expression.Spelled placed ↔ read? placed = some (.ok expression, []) := by
  refine ⟨read?_of_spelled, fun h => ?_⟩
  obtain ⟨front, rfl, hs⟩ := spelled_of_read? h
  rwa [List.append_nil]

theorem isExpression_of_clauses {clauses : List (Connective × Except Failure Term)}
    {placed : List Placed} (h : ClausesSpelled clauses placed) {term : List Lexeme}
    (ht : IsTerm term) : IsExpression (term ++ placed.map Placed.lexeme) := by
  induction h generalizing term with
  | nil => simpa using IsExpression.term ht
  | cons hs _ ih => simpa using IsExpression.joined _ ht (ih hs.isTerm)

theorem Spelled.isExpression {expression : Expression} {placed : List Placed}
    (h : expression.Spelled placed) : IsExpression (placed.map Placed.lexeme) := by
  obtain ⟨first, rest, rfl, hf, hc⟩ := h
  rw [List.map_append]
  exact isExpression_of_clauses hc hf.isTerm

/-- A text is a filter exactly if the lexemes that it spells are those of an expression. -/
theorem parse_eq_ok_iff {text : String} {expression : Expression} :
    parse text = .ok expression ↔
      ∃ placed, Spells 0 text.toList placed ∧ expression.Spelled placed := by
  have hlen : text.toList.length = text.length := String.length_toList
  constructor
  · intro h
    simp only [parse] at h
    split at h
    next => simp at h
    next outcome remaining hr =>
      simp only [bind_eq_ok_iff] at h
      obtain ⟨found, rfl, h⟩ := h
      split at h
      next => simp at h
      next hstop =>
        cases pure_eq_ok_iff.mp h
        obtain ⟨front, hp, hs⟩ := spelled_of_read? hr
        obtain ⟨hle, hlt⟩ := scanFrom_bounds 0 text.toList
        cases remaining with
        | nil =>
          have hend : (scanFrom 0 text.toList).stop = 0 + text.toList.length := by
            simp only [Scan.offsetOf, List.head?_nil, Option.map_none, Option.getD_none] at hstop
            omega
          rw [List.append_nil] at hp
          exact ⟨front, hp ▸ spells_of_scanFrom hend, hs⟩
        | cons next rest =>
          have hn := hlt next (by simp [hp])
          simp only [Scan.offsetOf, List.head?_cons, Option.map_some, Option.getD_some] at hstop
          omega
  · intro hx
    obtain ⟨placed, hs, he⟩ := hx
    simp only [parse, scanFrom_of_spells hs, read?_of_spelled he]
    simp [Scan.offsetOf, hlen, bind, Except.bind, pure, Except.pure]

end Expression

theorem tokenize_eq_ok_iff {text : String} {tokens : List Token} :
    tokenize text = .ok tokens ↔
      ∃ expression, Expression.parse text = .ok expression ∧ expression.tokens = tokens :=
  map_eq_ok_iff

end SearchFilter

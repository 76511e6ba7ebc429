import SearchFilter.Proofs.Emission
import SearchFilter.Proofs.LongAmount
import SearchFilter.Proofs.RealDate

namespace SearchFilter

section

variable (place : Int → Int)

def DateLiteral.relocated (literal : DateLiteral) : DateLiteral :=
  { literal with position := place literal.position }

def Span.relocated : Span → Span
  | .date literal => .date (literal.relocated place)
  | .duration length => .duration length

def Term.relocated : Term → Term
  | .tag name => .tag name
  | .notTag name => .notTag name
  | .timed bound span => .timed bound (span.relocated place)

/-- An expression of which every position is changed by a function. -/
def Expression.relocated (expression : Expression) : Expression :=
  ⟨expression.first.relocated place,
    expression.clauses.map fun (connective, term) => (connective, term.relocated place)⟩

def Token.relocated : Token → Token
  | .date literal => .date (literal.relocated place)
  | token => token

/-- A failure that reports the changed position. -/
def Failure.relocated : Failure → Failure
  | .impossibleDate term position fault => .impossibleDate term (place position) fault
  | failure => failure

def Placed.relocated (placed : Placed) : Placed :=
  { placed with offset := (place placed.offset).toNat }

/-- The change keeps a character at an offset in front of the one behind it. -/
def Keeps (offset : Nat) : Prop := 0 ≤ place offset ∧ place (offset + 1) = place offset + 1

/-- What two texts are read as that hold the same lexemes, at places which the change leads from one
to the other. Nothing is said of where and how texts are malformed. -/
inductive ReadAlike : Except Failure Expression → Except Failure Expression → Prop
  | accepted (expression : Expression) :
    ReadAlike (.ok expression) (.ok (expression.relocated place))
  | refused (digits : Nat) :
      ReadAlike (.error (.amountTooLong digits)) (.error (.amountTooLong digits))
  | malformed (text other : String) (column place : Nat) (expected needed : Expectation) :
      ReadAlike (.error (.malformed text column expected)) (.error (.malformed other place needed))

end

/-- Other dates in the place of those among some tokens. -/
def Token.mapDate (change : DateLiteral → DateLiteral) : Token → Token
  | .date literal => .date (change literal)
  | token => token

/-- A change of dates that keeps their numbers, with the change of what is reported about them. -/
structure Restated (change : DateLiteral → DateLiteral) (report : Failure → Failure) : Prop where
  year : ∀ literal, (change literal).year = literal.year
  month : ∀ literal, (change literal).month = literal.month
  day : ∀ literal, (change literal).day = literal.day
  impossible : ∀ literal fault,
    report (.impossibleDate literal.text literal.position fault) =
      .impossibleDate (change literal).text (change literal).position fault
  other : ∀ failure, (∀ term position fault, failure ≠ .impossibleDate term position fault) →
    report failure = failure

namespace Restated

variable {change : DateLiteral → DateLiteral} {report : Failure → Failure}

theorem range (h : Restated change report) {literal : DateLiteral} :
    (change literal).range = literal.range.mapError report := by
  have field : ∀ n, (checkDateField n).mapError report = checkDateField n := by
    intro n
    rcases checkDateField_cases n with ⟨-, he⟩ | ⟨failure, hoverflow, he⟩
    · rw [he]
      rfl
    · rw [he]
      refine congrArg Except.error (h.other failure ?_)
      rintro term position fault rfl
      cases hoverflow
  have error : ∀ failure, (Except.error failure : Except Failure CalendarDate).mapError report =
      .error (report failure) := fun _ => rfl
  have hfirst : (change literal).firstDay = literal.firstDay.mapError report := by
    simp only [DateLiteral.firstDay, h.year, h.month, h.day, mapError_bind, field]
    cases CalendarDate.ofNumbers literal.year (literal.month.getD 1) (literal.day.getD 1) with
    | error fault => simp only [error, h.impossible]
    | ok date => rfl
  have hlast : ∀ first, (change literal).lastDay first = literal.lastDay first := by
    intro first
    rw [DateLiteral.lastDay, DateLiteral.lastDay, h.month, h.day]
  rw [DateLiteral.range, DateLiteral.range, hfirst]
  cases literal.firstDay with
  | error failure => rfl
  | ok first =>
    change Except.ok (DateRange.mk _ (.endOfDay ((change literal).lastDay first))) = _
    rw [hlast]
    rfl

theorem pieces (h : Restated change report) {token : Token} {now : Moment}
    {pending : Option Comparison} :
    (token.mapDate change).pieces now pending = (token.pieces now pending).mapError report := by
  have piece : ∀ comparison second,
      (datePiece comparison second).mapError report = datePiece comparison second := by
    intro comparison second
    rw [datePiece]
    split
    next => exact congrArg Except.error (h.other _ (by simp))
    next => rfl
  cases token with
  | date literal =>
    simp only [Token.mapDate, Token.pieces, h.range, mapError_bind]
    rcases pending with _ | _ | _ <;> simp only [mapError_bind, piece] <;> rfl
  | duration length =>
    simp only [Token.mapDate, Token.pieces, mapError_bind, piece]
    rfl
  | _ => rfl

/-- The change shows in what a failure reports and in nothing else that compiling comes to. -/
theorem compileTokens_map (h : Restated change report) {now : Moment} {tokens : List Token} :
    compileTokens now (tokens.map (Token.mapDate change)) =
      (compileTokens now tokens).mapError report := by
  have pieces : ∀ pending, piecesOf now pending ((tokens.map (Token.mapDate change)).map .token) =
      (piecesOf now pending (tokens.map .token)).mapError report := by
    induction tokens with
    | nil => exact fun _ => rfl
    | cons token tokens ih =>
      intro pending
      by_cases hend : token = .endOfInput
      · subst hend
        rfl
      · have hother : token.mapDate change ≠ .endOfInput := by
          cases token <;> simp_all [Token.mapDate]
        have hpending : (token.mapDate change).pendingAfter pending =
            token.pendingAfter pending := by cases token <;> rfl
        rw [List.map_cons, List.map_cons, piecesOf_cons hother, h.pieces, hpending, ih,
          List.map_cons, piecesOf_cons hend]
        simp only [mapError_bind]
        rfl
  rw [compileTokens, compileItems, pieces, compileTokens, compileItems]
  cases piecesOf now none (tokens.map .token) <;> rfl

end Restated

section

variable {place : Int → Int} {now : Moment}

theorem DateWord.literal_relocated {word : DateWord} {position other : Nat}
    (h : place position = other) :
    word.literal other = (word.literal position).relocated place := by
  cases word <;> simp [literal, DateLiteral.relocated, h]

theorem Lexeme.span?_relocated {lexeme : Lexeme} {position other : Nat}
    (h : place position = other) :
    lexeme.span? other = (lexeme.span? position).map (Except.map (Span.relocated place)) := by
  cases lexeme with
  | date word =>
    rw [span?, DateWord.literal_relocated h]
    rfl
  | duration digits unit =>
    rw [span?, span?]
    split <;> rfl
  | _ => rfl

theorem Term.map_timed_relocated {bound : Option Comparison} {span : Except Failure Span} :
    (span.map (Span.relocated place)).map (.timed bound) =
      (span.map (.timed bound)).map (Term.relocated place) := by
  cases span <;> rfl

theorem Term.read?_relocated {placed : List Placed}
    (h : ∀ found ∈ placed, Keeps place found.offset) :
    Term.read? (placed.map (Placed.relocated place)) =
      (Term.read? placed).map fun (term, rest) =>
        (term.map (Term.relocated place), rest.map (Placed.relocated place)) := by
  cases placed with
  | nil => rfl
  | cons first rest =>
    obtain ⟨offset, lexeme⟩ := first
    obtain ⟨hpos, hnext⟩ := h ⟨offset, lexeme⟩ (by simp)
    have hplace : place offset = ((place offset).toNat : Nat) := (Int.toNat_of_nonneg hpos).symm
    have hbehind : place (offset + 1 : Nat) = ((place offset).toNat + 1 : Nat) := by
      push_cast
      rw [hnext, ← hplace]
    cases lexeme with
    | tag name => rfl
    | notTag name => rfl
    | connective connective => rfl
    | comparator comparison =>
      cases rest with
      | nil => rfl
      | cons next rest =>
        obtain ⟨later, lexeme⟩ := next
        simp only [List.map_cons, Placed.relocated, Term.read?, List.head?_cons, List.tail_cons,
          Option.bind_eq_bind, Option.bind_some, Lexeme.span?_relocated hbehind]
        cases lexeme.span? (offset + 1) with
        | none => rfl
        | some span => simp [Term.map_timed_relocated]
    | date word =>
      simp only [List.map_cons, Placed.relocated, Term.read?, Lexeme.span?_relocated hplace]
      cases (Lexeme.date word).span? offset with
      | none => rfl
      | some span => simp [Term.map_timed_relocated]
    | duration digits unit =>
      simp only [List.map_cons, Placed.relocated, Term.read?, Lexeme.span?_relocated hplace]
      cases (Lexeme.duration digits unit).span? offset with
      | none => rfl
      | some span => simp [Term.map_timed_relocated]

theorem readClauses_relocated {placed : List Placed}
    (h : ∀ found ∈ placed, Keeps place found.offset) :
    readClauses (placed.map (Placed.relocated place)) =
      ((readClauses placed).1.map fun (connective, term) =>
          (connective, term.map (Term.relocated place)),
        (readClauses placed).2.map (Placed.relocated place)) := by
  fun_induction readClauses placed with
  | case1 offset connective rest hr =>
    have hread := Term.read?_relocated fun found hm => h found (List.mem_cons_of_mem _ hm)
    rw [List.map_cons, Placed.relocated, readClauses]
    split
    next => rfl
    next term later he =>
      rw [hread, hr] at he
      cases he
  | case2 offset connective rest term later hr clauses remaining he ih =>
    have hread := Term.read?_relocated fun found hm => h found (List.mem_cons_of_mem _ hm)
    obtain ⟨front, rfl, -⟩ := Term.read?_eq_some_iff.mp hr
    have hih := ih fun found hm => h found (by simp [hm])
    rw [he] at hih
    rw [List.map_cons, Placed.relocated, readClauses]
    split
    next hnone =>
      rw [hread, hr] at hnone
      cases hnone
    next other behind hsome =>
      rw [hread, hr] at hsome
      cases hsome
      rw [hih]
      rfl
  | case3 placed hn =>
    cases placed with
    | nil => exact readClauses_of_spelled .nil
    | cons first rest =>
      obtain ⟨offset, lexeme⟩ := first
      rw [List.map_cons, readClauses]
      · rfl
      · intro start connective more he
        obtain ⟨hfirst, -⟩ := List.cons.inj he
        obtain ⟨-, rfl⟩ := Placed.mk.inj hfirst
        exact hn _ _ _ rfl

namespace Expression

theorem read?_relocated {placed : List Placed} (h : ∀ found ∈ placed, Keeps place found.offset) :
    read? (placed.map (Placed.relocated place)) =
      (read? placed).map fun (outcome, rest) =>
        (outcome.map (relocated place), rest.map (Placed.relocated place)) := by
  have clauses : ∀ clauses : List (Connective × Except Failure Term),
      ((clauses.map fun (connective, term) =>
          (connective, term.map (Term.relocated place))).mapM
        fun (connective, term) => term.map (connective, ·) :
          Except Failure (List (Connective × Term))) =
        (clauses.mapM fun (connective, term) => term.map (connective, ·) :
          Except Failure (List (Connective × Term))).map
            (List.map fun (connective, term) => (connective, term.relocated place)) := by
    intro clauses
    induction clauses with
    | nil => rfl
    | cons clause clauses ih =>
      obtain ⟨connective, term⟩ := clause
      rw [List.map_cons, List.mapM_cons, List.mapM_cons, ih]
      cases term with
      | error failure => rfl
      | ok term =>
        cases clauses.mapM fun (connective, term) => term.map (connective, ·) <;> rfl
  rw [read?, read?, Term.read?_relocated h]
  cases hr : Term.read? placed with
  | none => rfl
  | some found =>
    obtain ⟨first, rest⟩ := found
    obtain ⟨front, rfl, -⟩ := Term.read?_eq_some_iff.mp hr
    have hrest := readClauses_relocated fun found hm => h found (List.mem_append_right front hm)
    simp only [Option.map_some, Option.bind_eq_bind, Option.bind_some, Option.pure_def, hrest,
      clauses]
    cases first with
    | error failure => rfl
    | ok first =>
      cases (readClauses rest).1.mapM fun (connective, term) => term.map (connective, ·) <;> rfl

theorem tokens_relocated {expression : Expression} :
    (expression.relocated place).tokens = expression.tokens.map (Token.relocated place) := by
  have hterm : ∀ term : Term,
      (term.relocated place).tokens = term.tokens.map (Token.relocated place) := by
    intro term
    cases term with
    | timed bound span => rcases bound with _ | _ <;> cases span <;> rfl
    | _ => rfl
  simp [tokens, relocated, hterm, List.flatMap_map, List.map_flatMap, Token.relocated]

/-- Texts are read alike that hold the same lexemes in corresponding places and either both end
behind them or both go on. -/
theorem readAlike_parse {text other : String}
    (hkeeps : ∀ found ∈ (scanFrom 0 text.toList).placed, Keeps place found.offset)
    (hplaced : (scanFrom 0 other.toList).placed =
      (scanFrom 0 text.toList).placed.map (Placed.relocated place))
    (hstop : (scanFrom 0 text.toList).stop < text.length ↔
      (scanFrom 0 other.toList).stop < other.length) :
    ReadAlike place (parse text) (parse other) := by
  rw [parse, parse, hplaced, read?_relocated hkeeps]
  cases hr : read? (scanFrom 0 text.toList).placed with
  | none => exact .malformed ..
  | some found =>
    obtain ⟨outcome, remaining⟩ := found
    obtain ⟨front, hfront, -, hlimit⟩ := limitedBy_of_read? hr
    have hends : (scanFrom 0 text.toList).offsetOf remaining < text.length ↔
        (scanFrom 0 other.toList).offsetOf (remaining.map (Placed.relocated place)) <
          other.length := by
      cases remaining with
      | nil => exact hstop
      | cons next rest =>
        have hnext := (scanFrom_bounds 0 text.toList).2 next (by simp [hfront])
        have hlater := (scanFrom_bounds 0 other.toList).2 (next.relocated place)
          (by simp [hplaced, hfront])
        simp only [String.length_toList, Nat.zero_add] at hnext hlater
        simp [Scan.offsetOf, hnext, hlater]
    by_cases hlong : HoldsLongAmount (front.map Placed.lexeme)
    · obtain ⟨digits, -, rfl⟩ := hlimit.refused hlong
      exact .refused digits
    · obtain ⟨expression, rfl⟩ := hlimit.given hlong
      by_cases hgoes : (scanFrom 0 text.toList).offsetOf remaining < text.length
      · have hother := hends.mp hgoes
        simp only [Option.map_some, Except.map, bind, Except.bind, if_pos hgoes, if_pos hother]
        exact .malformed ..
      · have hother := mt hends.mpr hgoes
        simp only [Option.map_some, Except.map, bind, Except.bind, if_neg hgoes, if_neg hother]
        exact .accepted expression

end Expression

theorem restated_relocated :
    Restated (DateLiteral.relocated place) (Failure.relocated place) where
  year _ := rfl
  month _ := rfl
  day _ := rfl
  impossible _ _ := rfl
  other failure h := by
    cases failure with
    | impossibleDate term position fault => exact absurd rfl (h term position fault)
    | _ => rfl

/-- A change of positions shows in the position that a failure reports and in nothing else that
compiling comes to. -/
theorem compileTokens_relocated {tokens : List Token} :
    compileTokens now (tokens.map (Token.relocated place)) =
      (compileTokens now tokens).mapError (Failure.relocated place) := by
  have hchange : Token.relocated place = Token.mapDate (DateLiteral.relocated place) := by
    funext token
    cases token <;> rfl
  rw [hchange]
  exact restated_relocated.compileTokens_map

theorem Compiler.compile_of_tokenize {compiler : Compiler} {text : String} {now : Option Moment}
    {tokens : List Token} (h : tokenize text = .ok tokens) :
    (compiler.compile text now).outcome = compileTokens (now.getD compiler.clock) tokens := by
  obtain ⟨expression, hp, rfl⟩ := tokenize_eq_ok_iff.mp h
  rw [compile_of_parse hp, compileTokens_eq]

/-- Compiling gives the same for two texts that are read alike, but for a failure's position. -/
theorem ReadAlike.compile {text other : String}
    (h : ReadAlike place (Expression.parse text) (Expression.parse other)) (compiler : Compiler)
    (now : Option Moment) :
    (compiler.compile other now).outcome =
      (compiler.compile text now).outcome.mapError (Failure.relocated place) := by
  rw [Compiler.compile_outcome, Compiler.compile_outcome]
  generalize Expression.parse text = outcome at h ⊢
  generalize Expression.parse other = result at h ⊢
  cases h with
  | accepted expression =>
    change (Expression.written _ _).map _ = ((Expression.written _ _).map _).mapError _
    rw [← compileTokens_eq, Expression.tokens_relocated, compileTokens_relocated, compileTokens_eq]
  | refused digits => rfl
  | malformed => rfl

end

end SearchFilter

import SearchFilter.Proofs.LongAmount

namespace SearchFilter

/-- A word that no character of a word stands directly before or behind. -/
def IsWordOf (text word : List Char) : Prop :=
  isWord word ∧ ∃ before after, text = before ++ word ++ after ∧
    (∀ c ∈ before.getLast?, isWordPart c = false) ∧ atBoundary after

/-- None of the durations among the words of a text has more digits than a limit. -/
def AmountsWithin (limit : Nat) (text : String) : Prop :=
  ∀ digits : List Char, ∀ unit : DurationUnit,
    IsWordOf text.toList (digits ++ [unit.suffix]) → digits.all isDigit → digits.length ≤ limit

/-- The token of a lexeme whose literal, if it is a date, is taken to begin at a position. -/
def Lexeme.token (position : Nat) : Lexeme → Token
  | .comparator comparison => .comparator comparison
  | .connective joint => .connective joint
  | .date word => .date (word.literal position)
  | .duration digits unit => .duration ⟨digitsValue digits, unit⟩
  | .tag name => .tag (.ofList name)
  | .notTag name => .notTag (.ofList name)

def Placed.token (placed : Placed) : Token := placed.lexeme.token placed.offset

/-- Where a date is taken to begin that follows a lexeme, if not at its own offset. -/
def Placed.behind : Placed → Option Nat
  | ⟨offset, .comparator _⟩ => some (offset + 1)
  | _ => none

/-- The tokens of lexemes; a date is recorded directly behind its comparator even if blanks follow
that. -/
def tokensFrom : (behind : Option Nat) → List Placed → List Token
  | _, [] => []
  | behind, placed :: rest =>
    placed.lexeme.token (behind.getD placed.offset) :: tokensFrom placed.behind rest

/-- No blank parts a comparator from the date behind it. -/
def DatesAdjoin (placed : List Placed) : Prop :=
  ∀ offset place comparison word,
    [⟨offset, .comparator comparison⟩, ⟨place, .date word⟩] <:+: placed → place = offset + 1

theorem DateWord.position_literal (word : DateWord) (position : Nat) :
    (word.literal position).position = position := by
  cases word <;> rfl

theorem DateWord.literal_eq_iff {word : DateWord} {position other : Nat} :
    word.literal position = word.literal other ↔ position = other := by
  refine ⟨fun h => ?_, fun h => by rw [h]⟩
  have hposition := congrArg DateLiteral.position h
  rw [position_literal, position_literal] at hposition
  exact Int.ofNat.inj hposition

theorem Lexeme.token_eq_iff {lexeme : Lexeme} {position other : Nat} :
    lexeme.token position = lexeme.token other ↔
      ∀ word, lexeme = .date word → position = other := by
  cases lexeme with
  | date word => simp [token, DateWord.literal_eq_iff]
  | _ => simp [token]

theorem datesAdjoin_cons {placed : Placed} {rest : List Placed} :
    DatesAdjoin (placed :: rest) ↔
      (∀ start ∈ placed.behind, ∀ date ∈ rest.head?, ∀ word, date.lexeme = .date word →
        date.offset = start) ∧ DatesAdjoin rest := by
  obtain ⟨offset, lexeme⟩ := placed
  simp only [DatesAdjoin, List.infix_cons_iff]
  constructor
  · intro h
    refine ⟨?_, fun offset place comparison word hi => h offset place comparison word (.inr hi)⟩
    rintro start hs ⟨place, date⟩ hd word rfl
    obtain ⟨tail, rfl⟩ := List.head?_eq_some_iff.mp hd
    cases lexeme with
    | comparator comparison =>
      cases Option.some.inj hs
      exact h offset place comparison word (.inl ⟨tail, rfl⟩)
    | _ => simp [Placed.behind] at hs
  · rintro ⟨hfirst, hrest⟩ offset' place comparison word (⟨tail, he⟩ | hi)
    · cases he
      exact hfirst _ rfl ⟨place, .date word⟩ rfl word rfl
    · exact hrest _ _ _ _ hi

theorem tokensFrom_eq_map_iff {behind : Option Nat} {placed : List Placed} :
    tokensFrom behind placed = placed.map Placed.token ↔
      (∀ start ∈ behind, ∀ date ∈ placed.head?, ∀ word, date.lexeme = .date word →
        date.offset = start) ∧ DatesAdjoin placed := by
  induction placed generalizing behind with
  | nil => simp [tokensFrom, DatesAdjoin]
  | cons placed rest ih =>
    have htoken : placed.lexeme.token (behind.getD placed.offset) = placed.token ↔
        ∀ start ∈ behind, ∀ word, placed.lexeme = .date word → placed.offset = start := by
      rw [Placed.token, Lexeme.token_eq_iff]
      cases behind with
      | none => simp
      | some start => simp [eq_comm]
    rw [tokensFrom, List.map_cons, List.cons.injEq, htoken, ih, datesAdjoin_cons]
    simp

theorem Lexeme.token_of_span? {lexeme : Lexeme} {position : Nat} {span : Span}
    (h : lexeme.span? position = some (.ok span)) : lexeme.token position = span.token := by
  cases lexeme with
  | date word => cases h; rfl
  | duration digits unit =>
    rw [span?] at h
    split at h
    next => simp at h
    next => cases h; rfl
  | _ => simp [span?] at h

/-- No date behind a date or duration is moved. -/
theorem behind_of_span? {offset position : Nat} {lexeme : Lexeme} {span : Except Failure Span}
    (h : lexeme.span? position = some span) : Placed.behind ⟨offset, lexeme⟩ = none := by
  cases lexeme with
  | comparator comparison => simp [Lexeme.span?] at h
  | _ => rfl

theorem tokensFrom_of_spelled {term : Term} {front rest : List Placed}
    (h : Term.Spelled (.ok term) front) :
    tokensFrom none (front ++ rest) = term.tokens ++ tokensFrom none rest := by
  generalize ho : (Except.ok term : Except Failure Term) = outcome at h
  cases h with
  | tag => cases ho; rfl
  | notTag => cases ho; rfl
  | @span offset lexeme span hs =>
    obtain ⟨value, rfl, rfl⟩ := map_eq_ok_iff.mp ho.symm
    change lexeme.token offset :: tokensFrom (Placed.behind ⟨offset, lexeme⟩) rest = _
    rw [behind_of_span? hs, Lexeme.token_of_span? hs]
    rfl
  | @bounded offset place comparison lexeme span hs =>
    obtain ⟨value, rfl, rfl⟩ := map_eq_ok_iff.mp ho.symm
    change .comparator comparison :: lexeme.token (offset + 1) ::
      tokensFrom (Placed.behind ⟨place, lexeme⟩) rest = _
    rw [behind_of_span? hs, Lexeme.token_of_span? hs]
    rfl

theorem tokensFrom_of_clauses {clauses : List (Connective × Term)} {placed : List Placed}
    (h : ClausesSpelled (clauses.map fun (connective, term) => (connective, .ok term)) placed) :
    tokensFrom none placed =
      clauses.flatMap fun (connective, term) => .connective connective :: term.tokens := by
  induction clauses generalizing placed with
  | nil => cases h; rfl
  | cons clause clauses ih =>
    obtain ⟨connective, term⟩ := clause
    cases h with
    | cons ht hc =>
      rw [List.flatMap_cons, ← ih hc, List.cons_append, ← tokensFrom_of_spelled ht]
      rfl

/-- The tokens of an expression are those of the lexemes that it is read from. -/
theorem Expression.Spelled.tokens_eq {expression : Expression} {placed : List Placed}
    (h : expression.Spelled placed) :
    expression.tokens = tokensFrom none placed ++ [.endOfInput] := by
  obtain ⟨first, rest, rfl, hf, hc⟩ := h
  rw [tokensFrom_of_spelled hf, tokensFrom_of_clauses hc]
  rfl

/-- A text is accepted exactly if its lexemes are those of an expression without a long amount. -/
theorem tokenize_eq_ok_iff_spells {text : String} {tokens : List Token} :
    tokenize text = .ok tokens ↔ ∃ placed, Spells 0 text.toList placed ∧
      IsExpression (placed.map Placed.lexeme) ∧ ¬HoldsLongAmount (placed.map Placed.lexeme) ∧
      tokens = tokensFrom none placed ++ [.endOfInput] := by
  rw [tokenize_eq_ok_iff]
  constructor
  · rintro ⟨expression, hp, rfl⟩
    obtain ⟨placed, hs, hx⟩ := Expression.parse_eq_ok_iff.mp hp
    refine ⟨placed, hs, hx.isExpression, fun hl => ?_, hx.tokens_eq⟩
    obtain ⟨front, hfront, -, hlimit⟩ :=
      Expression.limitedBy_of_read? (Expression.read?_of_spelled hx)
    rw [List.append_nil] at hfront
    obtain ⟨digits, -, he⟩ := hlimit.refused (hfront ▸ hl)
    cases he
  · rintro ⟨placed, hs, he, hl, rfl⟩
    have hshort : ∀ digits unit, .duration digits unit ∈ placed.map Placed.lexeme →
        digits.length ≤ digitLimit :=
      fun digits unit hm => Nat.le_of_not_lt fun hlong => hl ⟨digits, unit, hm, hlong⟩
    obtain ⟨expression, hx⟩ := Expression.spelled_of_isExpression he hshort
    exact ⟨expression, Expression.parse_eq_ok_iff.mpr ⟨placed, hs, hx⟩, hx.tokens_eq⟩

theorem isWordOf_of_spells {offset : Nat} {cs : List Char} {placed : List Placed}
    (before : List Char) (h : Spells offset cs placed)
    (hb : (∀ c ∈ before.getLast?, isWordPart c = false) ∨ atBoundary cs)
    {lexeme : Lexeme} (hm : lexeme ∈ placed.map Placed.lexeme) (hl : lexeme.lead = none) :
    IsWordOf (before ++ cs) lexeme.written := by
  induction h generalizing before with
  | nil => simp at hm
  | @blank offset c rest placed hc _ ih =>
    have hr := ih (before ++ [c]) (.inl (by simp [isWordPart_of_isBlank hc])) hm
    simpa using hr
  | @lexeme offset cs rest found placed hh _ ih =>
    rcases List.mem_cons.mp hm with rfl | hm
    · have hw := Lexeme.isWord_written hh.proper hl
      refine ⟨hw, before, rest, by rw [hh.split, List.append_assoc], ?_, hh.boundary hl⟩
      refine hb.resolve_right fun ha => ?_
      obtain ⟨c, tail, rfl, hs⟩ := Lexeme.isWordStart_head hh hl
      simp [atBoundary, isWordPart_of_isWordStart hs] at ha
    · have hr := ih (before ++ found.written) ?_ hm
      · simpa [hh.split] using hr
      · cases found with
        | comparator comparison =>
          left
          intro c hc
          have he : comparison.symbol = c := by simpa [Lexeme.written] using hc
          rw [← he]
          cases comparison <;> decide
        | _ => exact .inr (hh.whole (by simp))

/-- Tokenizing accepts the texts whose lexemes form an expression, reads them in one way only, and
gives the token of each lexeme in order. A date gets its own offset except behind a comparator with
blanks after it: there it gets the offset directly behind the comparator. -/
theorem tokenize_language {text : String} (hlimit : AmountsWithin 4300 text) :
    ((∃ tokens, tokenize text = .ok tokens) ↔
      ∃ placed, Spells 0 text.toList placed ∧ IsExpression (placed.map Placed.lexeme)) ∧
    ∀ placed, Spells 0 text.toList placed → IsExpression (placed.map Placed.lexeme) →
      (∀ other, Spells 0 text.toList other → other = placed) ∧
      tokenize text = .ok (tokensFrom none placed ++ [.endOfInput]) ∧
      (tokenize text = .ok (placed.map Placed.token ++ [.endOfInput]) ↔ DatesAdjoin placed) := by
  have complete : ∀ placed, Spells 0 text.toList placed →
      IsExpression (placed.map Placed.lexeme) →
      tokenize text = .ok (tokensFrom none placed ++ [.endOfInput]) := by
    intro placed hs he
    have hfit : ∀ digits unit, .duration digits unit ∈ placed.map Placed.lexeme →
        digits.length ≤ digitLimit := by
      intro digits unit hm
      have hw := isWordOf_of_spells [] hs (.inl (by simp)) hm rfl
      have hp : (Lexeme.duration digits unit).Proper := hs.proper hm
      exact hlimit digits unit hw hp.2
    obtain ⟨expression, hx⟩ := Expression.spelled_of_isExpression he hfit
    rw [← hx.tokens_eq]
    exact tokenize_eq_ok_iff.mpr
      ⟨expression, Expression.parse_eq_ok_iff.mpr ⟨placed, hs, hx⟩, rfl⟩
  refine ⟨⟨?_, ?_⟩, fun placed hs he => ⟨fun other ho => ho.unique hs, complete placed hs he, ?_⟩⟩
  · intro h
    obtain ⟨tokens, ht⟩ := h
    obtain ⟨expression, hp, _⟩ := tokenize_eq_ok_iff.mp ht
    obtain ⟨placed, hs, hx⟩ := Expression.parse_eq_ok_iff.mp hp
    exact ⟨placed, hs, hx.isExpression⟩
  · intro h
    obtain ⟨placed, hs, he⟩ := h
    exact ⟨_, complete placed hs he⟩
  · rw [complete placed hs he, Except.ok.injEq, List.append_cancel_right_eq, tokensFrom_eq_map_iff]
    simp

theorem amountsWithin_of_length {limit : Nat} {text : String} (h : text.length ≤ limit) :
    AmountsWithin limit text := by
  rintro digits unit ⟨-, before, after, he, -⟩ -
  have hl := congrArg List.length he
  rw [String.length_toList] at hl
  simp only [List.length_append, List.length_singleton] at hl
  omega

theorem tokenize_language_spaced :
    AmountsWithin 4300 "vim OR > 2019" ∧
      tokenize "vim OR > 2019" = .ok [.tag "vim", .connective .or, .comparator .greater,
        .date ⟨2019, none, none, "2019", 8⟩, .endOfInput] := by
  have hlimit : AmountsWithin 4300 "vim OR > 2019" := amountsWithin_of_length (by decide)
  have hs : Spells 0 "vim OR > 2019".toList (scanFrom 0 "vim OR > 2019".toList).placed :=
    spells_of_scanFrom (by decide +kernel)
  have hp : (scanFrom 0 "vim OR > 2019".toList).placed =
      [⟨0, .tag "vim".toList⟩, ⟨4, .connective .or⟩, ⟨7, .comparator .greater⟩,
        ⟨9, .date (.year "2019".toList)⟩] := by decide +kernel
  rw [hp] at hs
  have he : IsExpression [.tag "vim".toList, .connective .or, .comparator .greater,
      .date (.year "2019".toList)] :=
    .joined .or (.tag _) (.term (.bounded .greater trivial))
  exact ⟨hlimit, ((tokenize_language hlimit).2 _ hs he).2.1.trans
    (congrArg Except.ok (by decide +kernel))⟩

/-- Blanks behind a comparator keep the date behind them from its own offset. -/
theorem spaced_date_misplaced :
    AmountsWithin 4300 "> 2019" ∧ ∃ placed, Spells 0 "> 2019".toList placed ∧
      IsExpression (placed.map Placed.lexeme) ∧
      tokenize "> 2019" ≠ .ok (placed.map Placed.token ++ [.endOfInput]) := by
  have hs : Spells 0 "> 2019".toList (scanFrom 0 "> 2019".toList).placed :=
    spells_of_scanFrom (by decide +kernel)
  have hp : (scanFrom 0 "> 2019".toList).placed =
      [⟨0, .comparator .greater⟩, ⟨2, .date (.year "2019".toList)⟩] := by decide +kernel
  rw [hp] at hs
  have ht : tokenize "> 2019" = .ok [.comparator .greater, .date ⟨2019, none, none, "2019", 1⟩,
      .endOfInput] := eq_ok_of_toOption (by decide +kernel)
  refine ⟨amountsWithin_of_length (by decide), _, hs, .term (.bounded .greater trivial), ?_⟩
  rw [ht]
  exact fun he => absurd (Except.ok.inj he) (by decide +kernel)

end SearchFilter

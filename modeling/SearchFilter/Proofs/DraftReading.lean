import SearchFilter.Proofs.DecimalNumber
import SearchFilter.Proofs.Draft
import SearchFilter.Proofs.Grammar

namespace SearchFilter

/-- Blanks end every word in front of them. -/
theorem atBoundary_blanks {blanks rest : List Char} (hb : blanks.all isBlank)
    (h : blanks = [] → atBoundary rest) : atBoundary (blanks ++ rest) := by
  cases blanks with
  | nil => exact h rfl
  | cons c blanks =>
    simp only [List.all_cons, Bool.and_eq_true] at hb
    exact atBoundary_of_isBlank hb.1

namespace Draft

def Date.word : Date → DateWord
  | year y => .year (zeroPadded 4 y)
  | month y m => .month (zeroPadded 4 y) (zeroPadded 2 m)
  | day y m d => .day (zeroPadded 4 y) (zeroPadded 2 m) (zeroPadded 2 d)

def Span.lexeme : Span → Lexeme
  | date d => .date d.word
  | duration amount unit _ => .duration (Nat.toDigits 10 amount) unit

theorem Date.written_word (date : Date) : date.word.written = date.chars := by
  cases date <;> rfl

theorem Date.proper_word (date : Date) : date.word.Proper := by
  have hyear : ∀ y : Fin 10000, IsDigitRun 4 (zeroPadded 4 y) := by
    intro y
    have hl : (Nat.toDigits 10 y).length ≤ 4 :=
      (Nat.length_toDigits_le_iff (by decide) (by decide)).mpr y.isLt
    exact ⟨length_zeroPadded hl, all_isDigit_zeroPadded 4 y⟩
  have hpart : ∀ n : Fin 100, IsDigitRun 2 (zeroPadded 2 n) := by
    intro n
    have hl : (Nat.toDigits 10 n).length ≤ 2 :=
      (Nat.length_toDigits_le_iff (by decide) (by decide)).mpr n.isLt
    exact ⟨length_zeroPadded hl, all_isDigit_zeroPadded 2 n⟩
  cases date with
  | year y => exact hyear y
  | month y m => exact ⟨hyear y, hpart m⟩
  | day y m d => exact ⟨hyear y, hpart m, hpart d⟩

/-- The digits of a date are read as the numbers that they were written for. -/
theorem Date.literal_word (date : Date) (position : Nat) :
    date.word.literal position = date.literal position := by
  cases date <;> simp [word, DateWord.literal, literal, digitsValue_zeroPadded, DateWord.written,
    chars]

theorem Span.written_lexeme (span : Span) : span.lexeme.written = span.chars := by
  cases span with
  | date d => exact d.written_word
  | duration amount unit short => rfl

theorem Span.proper_lexeme (span : Span) : span.lexeme.Proper := by
  cases span with
  | date d => exact d.proper_word
  | duration amount unit short =>
    exact ⟨Nat.toDigits_ne_nil, all_isDigit_of_plain (all_isDigit_toDigits amount)⟩

theorem Span.exists_read (span : Span) (position : Nat) :
    ∃ found, span.lexeme.span? position = some (.ok found) ∧
      found.token = span.token position := by
  cases span with
  | date d => exact ⟨_, rfl, congrArg Token.date (d.literal_word position)⟩
  | duration amount unit short =>
    refine ⟨.duration ⟨amount, unit⟩, ?_, rfl⟩
    rw [lexeme, Lexeme.span?, if_neg (by omega), digitsValue_toDigits]

namespace Term

/-- The lexemes of a term that begins at an offset. -/
def placed (offset : Nat) : Term → List Placed
  | tag name _ => [⟨offset, .tag name⟩]
  | notTag name _ => [⟨offset, .notTag name⟩]
  | span s => [⟨offset, s.lexeme⟩]
  | bounded comparison gap s =>
    [⟨offset, .comparator comparison⟩, ⟨offset + 1 + gap.length, s.lexeme⟩]

theorem spells {term : Term} {offset : Nat} {rest : List Char} {later : List Placed}
    (hb : atBoundary rest) (h : Spells (offset + term.chars.length) rest later) :
    Spells offset (term.chars ++ rest) (term.placed offset ++ later) := by
  cases term with
  | tag name unclaimed => exact .lexeme ⟨unclaimed, rfl, fun _ => hb⟩ h
  | notTag name word => exact .lexeme ⟨word, rfl, fun _ => hb⟩ h
  | span s =>
    rw [chars, ← s.written_lexeme] at h ⊢
    exact .lexeme ⟨s.proper_lexeme, rfl, fun _ => hb⟩ h
  | bounded comparison gap s =>
    have hsign : (Lexeme.comparator comparison).Heads
        (comparison.symbol :: (gap.chars ++ (s.chars ++ rest))) (gap.chars ++ (s.chars ++ rest)) :=
      ⟨trivial, rfl, fun hn => absurd rfl (hn comparison)⟩
    have hspan : Spells (offset + 1 + gap.length) (s.chars ++ rest)
        (⟨offset + 1 + gap.length, s.lexeme⟩ :: later) := by
      have hl : offset + 1 + gap.length + s.lexeme.written.length =
          offset + (bounded comparison gap s).chars.length := by
        simp only [chars, s.written_lexeme, Gap.length, List.length_append, List.length_cons]
        omega
      rw [← s.written_lexeme]
      exact .lexeme ⟨s.proper_lexeme, rfl, fun _ => hb⟩ (hl ▸ h)
    rw [chars, List.append_assoc]
    exact .lexeme hsign (hspan.behind_blanks gap.blank)

/-- What a term is read as, with its date placed directly behind its comparator. -/
theorem exists_spelled (term : Term) (offset : Nat) :
    ∃ found, SearchFilter.Term.Spelled (.ok found) (term.placed offset) ∧
      found.tokens = term.tokens (fun _ => 0) offset := by
  cases term with
  | tag name _ => exact ⟨_, .tag, rfl⟩
  | notTag name _ => exact ⟨_, .notTag, rfl⟩
  | span s =>
    obtain ⟨found, hf, ht⟩ := s.exists_read offset
    exact ⟨_, .span hf, congrArg ([·]) ht⟩
  | bounded comparison gap s =>
    obtain ⟨found, hf, ht⟩ := s.exists_read (offset + 1)
    refine ⟨_, .bounded hf, ?_⟩
    rw [SearchFilter.Term.tokens, ht]
    rfl

theorem atBoundary_of_signed {term : Term} {rest : List Char} (h : term.Signed) :
    atBoundary (term.chars ++ rest) := by
  cases term with
  | tag name _ => exact absurd h id
  | span s => exact absurd h id
  | notTag name _ =>
    have hs : isWordPart '!' = false := by decide
    simp [chars, atBoundary, hs]
  | bounded comparison gap s =>
    have hs : isWordPart comparison.symbol = false := by cases comparison <;> decide
    simp [chars, atBoundary, hs]

end Term

namespace Clause

/-- The lexemes of clauses, the first of which begins at an offset. -/
def placed : (offset : Nat) → List Clause → List Placed
  | _, [] => []
  | offset, clause :: clauses =>
    ⟨offset + clause.before.length, .connective clause.connective⟩ ::
      (clause.term.placed (offset + clause.front.length) ++
        placed (offset + clause.chars.length) clauses)

theorem atBoundary_chars (clauses : List Clause) (trail : Gap) :
    atBoundary (clauses.flatMap chars ++ trail.chars) := by
  cases clauses with
  | nil =>
    have hb : atBoundary (trail.chars ++ []) := atBoundary_blanks trail.blank fun _ => rfl
    rwa [List.append_nil] at hb
  | cons clause clauses =>
    rw [List.flatMap_cons, chars, front]
    simp only [List.append_assoc]
    exact atBoundary_blanks clause.before.blank fun he => absurd he clause.before_ne_nil

theorem atBoundary_after (clause : Clause) {rest : List Char} :
    atBoundary (clause.after.chars ++ (clause.term.chars ++ rest)) := by
  refine atBoundary_blanks clause.after.blank fun he => ?_
  by_cases hs : clause.term.Signed
  · exact Term.atBoundary_of_signed hs
  · exact absurd he (clause.after_ne_nil hs)

theorem spells (clauses : List Clause) (trail : Gap) (offset : Nat) :
    Spells offset (clauses.flatMap chars ++ trail.chars) (placed offset clauses) := by
  induction clauses generalizing offset with
  | nil =>
    have hs : Spells (offset + trail.chars.length) [] [] := .nil
    have hb := hs.behind_blanks trail.blank
    rwa [List.append_nil] at hb
  | cons clause clauses ih =>
    have hrest : Spells (offset + clause.front.length + clause.term.chars.length)
        (clauses.flatMap chars ++ trail.chars) (placed (offset + clause.chars.length) clauses) := by
      rw [Nat.add_assoc, ← List.length_append]
      exact ih _
    have hterm := clause.term.spells (atBoundary_chars clauses trail) hrest
    have hfront : offset + clause.front.length =
        offset + clause.before.length + clause.connective.word.length +
          clause.after.chars.length := by
      simp only [front, Gap.length, List.length_append]
      omega
    have hjoint : Spells (offset + clause.before.length)
        (clause.connective.word ++ (clause.after.chars ++
          (clause.term.chars ++ (clauses.flatMap chars ++ trail.chars))))
        (placed offset (clause :: clauses)) :=
      .lexeme ⟨trivial, rfl, fun _ => clause.atBoundary_after⟩
        (.behind_blanks clause.after.blank (hfront ▸ hterm))
    have hb := hjoint.behind_blanks clause.before.blank
    simpa [chars, front] using hb

/-- What clauses are read as, with each date placed directly behind its comparator. -/
theorem exists_spelled (clauses : List Clause) (offset : Nat) :
    ∃ found : List (Connective × SearchFilter.Term),
      ClausesSpelled (found.map fun (connective, term) => (connective, .ok term))
        (placed offset clauses) ∧
      found.flatMap (fun (connective, term) => .connective connective :: term.tokens) =
        tokens (fun _ => 0) offset clauses := by
  induction clauses generalizing offset with
  | nil => exact ⟨[], .nil, rfl⟩
  | cons clause clauses ih =>
    obtain ⟨term, hs, ht⟩ := clause.term.exists_spelled (offset + clause.front.length)
    obtain ⟨found, hc, hf⟩ := ih (offset + clause.chars.length)
    refine ⟨(clause.connective, term) :: found, .cons hs hc, ?_⟩
    rw [List.flatMap_cons, hf]
    change .connective clause.connective :: term.tokens ++ _ = _
    rw [ht]
    rfl

end Clause

/-- The lexemes of a draft, each at the offset where it is written. -/
def placed (draft : Draft) : List Placed :=
  draft.first.placed draft.lead.length ++
    Clause.placed (draft.lead.length + draft.first.chars.length) draft.clauses

theorem spells (draft : Draft) : Spells 0 draft.text.toList draft.placed := by
  have hclauses := Clause.spells draft.clauses draft.trail
    (draft.lead.length + draft.first.chars.length)
  have hfirst := draft.first.spells (Clause.atBoundary_chars draft.clauses draft.trail) hclauses
  rw [← Nat.zero_add draft.lead.length] at hfirst
  have hs := hfirst.behind_blanks draft.lead.blank
  rw [text, chars, String.toList_ofList]
  simpa [placed] using hs

/-- A draft is read as it was written, except that a date is placed directly behind its comparator
even if blanks follow that. -/
theorem tokenize_eq (draft : Draft) : tokenize draft.text = .ok (draft.tokens fun _ => 0) := by
  obtain ⟨first, hf, htokens⟩ := draft.first.exists_spelled draft.lead.length
  obtain ⟨clauses, hc, hclauses⟩ := Clause.exists_spelled draft.clauses
    (draft.lead.length + draft.first.chars.length)
  have hp : Expression.parse draft.text = .ok ⟨first, clauses⟩ :=
    Expression.parse_eq_ok_iff.mpr ⟨draft.placed, draft.spells, _, _, rfl, hf, hc⟩
  refine tokenize_eq_ok_iff.mpr ⟨⟨first, clauses⟩, hp, ?_⟩
  rw [Expression.tokens, htokens, hclauses]
  rfl

theorem Date.literal_eq_iff {date : Date} {position other : Nat} :
    date.literal position = date.literal other ↔ position = other := by
  refine ⟨fun h => ?_, fun h => by rw [h]⟩
  have hposition := congrArg DateLiteral.position h
  cases date <;> exact Int.ofNat.inj hposition

section

variable {distance other : Gap → Nat} {offset : Nat}

theorem append_eq_iff_of_length {front back later rest : List Token}
    (h : front.length = back.length) :
    front ++ later = back ++ rest ↔ front = back ∧ later = rest :=
  ⟨fun he => List.append_inj he h, fun he => by rw [he.1, he.2]⟩

theorem Term.length_tokens (term : Term) :
    (term.tokens distance offset).length = (term.tokens other offset).length := by
  cases term <;> rfl

/-- Only the dates behind a comparator depend on the distance that gaps keep. -/
theorem Term.tokens_eq_iff {term : Term} :
    term.tokens distance offset = term.tokens other offset ↔
      ∀ comparison gap date, .bounded comparison gap (.date date) = term →
        distance gap = other gap := by
  cases term with
  | bounded comparison gap s =>
    cases s with
    | date d =>
      have hplace : tokens distance offset (bounded comparison gap (.date d)) =
          tokens other offset (bounded comparison gap (.date d)) ↔ distance gap = other gap := by
        simp [tokens, Span.token, Date.literal_eq_iff]
      rw [hplace]
      constructor
      · rintro h _ _ _ ⟨⟩
        exact h
      · exact fun h => h comparison gap d rfl
    | duration amount unit short => simp [tokens, Span.token]
  | _ => simp [tokens]

theorem Clause.tokens_eq_iff {clauses : List Clause} :
    tokens distance offset clauses = tokens other offset clauses ↔
      ∀ comparison gap date, .bounded comparison gap (.date date) ∈ clauses.map Clause.term →
        distance gap = other gap := by
  induction clauses generalizing offset with
  | nil => simp [tokens]
  | cons clause clauses ih =>
    rw [tokens, tokens, List.cons_append, List.cons_append, List.cons.injEq,
      append_eq_iff_of_length clause.term.length_tokens, Term.tokens_eq_iff, ih]
    simp only [List.map_cons, List.mem_cons, or_imp, forall_and, true_and]

theorem tokens_eq_iff {draft : Draft} :
    draft.tokens distance = draft.tokens other ↔
      ∀ comparison gap date, .bounded comparison gap (.date date) ∈ draft.terms →
        distance gap = other gap := by
  rw [tokens, tokens, List.append_cancel_right_eq,
    append_eq_iff_of_length draft.first.length_tokens, Term.tokens_eq_iff, Clause.tokens_eq_iff]
  simp only [terms, List.mem_cons, or_imp, forall_and]

end

/-- Tokenizing a draft's text gives the draft's tokens back, whatever blanks it has, except for the
position of a date that blanks part from its comparator: that date is placed directly behind the
comparator. So the tokens have every date at the offset where it is written exactly if no blanks
stand between a comparator and a date. -/
theorem tokenize_text (draft : Draft) :
    tokenize draft.text = .ok (draft.tokens fun _ => 0) ∧
      (tokenize draft.text = .ok (draft.tokens Gap.length) ↔ draft.DatesAdjoin) := by
  refine ⟨draft.tokenize_eq, ?_⟩
  rw [draft.tokenize_eq, Except.ok.injEq, tokens_eq_iff]
  have hgap : ∀ gap : Gap, 0 = gap.length ↔ gap.chars = [] := by
    intro gap
    rw [Gap.length, eq_comm, List.length_eq_zero_iff]
  simp only [hgap, DatesAdjoin]

/-- The draft of a date that a blank parts from its comparator. -/
def spacedYear : Draft where
  lead := ⟨[], rfl⟩
  first := .bounded .greater ⟨[' '], by decide⟩ (.date (.year 2019))
  clauses := []
  trail := ⟨[], rfl⟩

/-- The text of that draft is a filter, but its date is not placed where it is written. -/
theorem spacedYear_misplaced :
    spacedYear.text = "> 2019" ∧
      tokenize spacedYear.text = .ok [.comparator .greater,
        .date ⟨2019, none, none, "2019", 1⟩, .endOfInput] ∧
      tokenize spacedYear.text ≠ .ok (spacedYear.tokens Gap.length) := by
  have htext : spacedYear.text = "> 2019" := by decide +kernel
  have ht : tokenize spacedYear.text = .ok [.comparator .greater,
      .date ⟨2019, none, none, "2019", 1⟩, .endOfInput] := eq_ok_of_toOption (by decide +kernel)
  refine ⟨htext, ht, ?_⟩
  rw [ht]
  exact fun he => absurd (Except.ok.inj he) (by decide +kernel)

end Draft

end SearchFilter

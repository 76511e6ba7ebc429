import SearchFilter.Proofs.EpochSize
import SearchFilter.Proofs.LongAmount

namespace SearchFilter

/-- No tokens stand for a malformed text and for nothing else. -/
theorem tokenizeOrDrop_eq_nil_iff {text : String} :
    (tokenizeOrDrop text).outcome = .ok [] ↔
      ∃ column expected, Expression.parse text = .error (.malformed text column expected) := by
  rw [tokenizeOrDrop_outcome]
  rcases Expression.parse_cases text with ⟨expression, hp⟩ | ⟨column, expected, hp⟩ | ⟨digits, hp⟩
  · simp [hp, expression.tokens_ne_nil]
  · simp [hp]
  · simp [hp]

theorem tokenizeOrDrop_isOk_iff {text : String} :
    (∃ tokens, (tokenizeOrDrop text).outcome = .ok tokens) ↔ ¬OpensWithLongAmount text := by
  rw [tokenizeOrDrop_outcome]
  by_cases hl : OpensWithLongAmount text
  · obtain ⟨digits, -, hp⟩ := Expression.parse_of_opensWithLongAmount hl
    simp [hp, hl]
  · rcases Expression.parse_of_not_opensWithLongAmount hl with
      ⟨expression, hp⟩ | ⟨column, expected, hp⟩
    · simp [hp, hl]
    · simp [hp, hl]

namespace Compiler

variable {compiler : Compiler} {text : String} {now : Option Moment}

/-- The empty filter stands for a malformed text and for nothing else. -/
theorem compile_eq_empty_iff :
    (compiler.compile text now).outcome = .ok "" ↔
      ∃ column expected, Expression.parse text = .error (.malformed text column expected) := by
  rw [compile_outcome]
  rcases Expression.parse_cases text with ⟨expression, hp⟩ | ⟨column, expected, hp⟩ | ⟨digits, hp⟩
  · simp [hp, map_eq_ok_iff, Chain.text_ne_empty]
  · simp [hp]
  · simp [hp]

/-- The silent entry points drop a malformed text, and the strict ones report it. -/
def Drops (compiler : Compiler) (text : String) (now : Option Moment) : Prop :=
  ∃ column expected, tokenize text = .error (.malformed text column expected) ∧
    (tokenizeOrDrop text).outcome = .ok [] ∧
    (compiler.compileStrictly text now).outcome = .error (.malformed text column expected) ∧
    (compiler.compile text now).outcome = .ok ""

/-- Both ways of compiling give the same filter, which is not empty. -/
def Compiles (compiler : Compiler) (text : String) (now : Option Moment) : Prop :=
  ∃ output, output ≠ "" ∧ (compiler.compile text now).outcome = .ok output ∧
    (compiler.compileStrictly text now).outcome = .ok output

/-- Both ways of compiling fail alike, and not because the text is malformed. -/
def Fails (compiler : Compiler) (text : String) (now : Option Moment) : Prop :=
  ∃ failure, (∀ other column expected, failure ≠ .malformed other column expected) ∧
    (compiler.compile text now).outcome = .error failure ∧
    (compiler.compileStrictly text now).outcome = .error failure

theorem drops_of_parse {column : Nat} {expected : Expectation}
    (h : Expression.parse text = .error (.malformed text column expected)) :
    compiler.Drops text now := by
  refine ⟨column, expected, ?_, ?_, ?_, ?_⟩
  · rw [tokenize, h]
    rfl
  · rw [tokenizeOrDrop_outcome, h]
  · rw [compileStrictly_outcome, h]
    rfl
  · rw [compile_outcome, h]

theorem fails_of_parse {digits : Nat}
    (h : Expression.parse text = .error (.amountTooLong digits)) : compiler.Fails text now := by
  refine ⟨.amountTooLong digits, by simp, ?_, ?_⟩
  · rw [compile_outcome, h]
  · rw [compileStrictly_outcome, h]
    rfl

theorem compiles_or_fails_of_parse {expression : Expression}
    (h : Expression.parse text = .ok expression) :
    compiler.Compiles text now ∨ compiler.Fails text now := by
  have hcompile : (compiler.compile text now).outcome =
      (expression.written (now.getD compiler.clock)).map Chain.text := compile_of_parse h
  have hstrict : (compiler.compileStrictly text now).outcome =
      (expression.written (now.getD compiler.clock)).map Chain.text := by
    rw [compileStrictly_outcome, h]
    rfl
  cases hw : expression.written (now.getD compiler.clock) with
  | ok filter =>
    rw [hw] at hcompile hstrict
    exact .inl ⟨filter.text, filter.text_ne_empty, hcompile, hstrict⟩
  | error failure =>
    rw [hw] at hcompile hstrict
    refine .inr ⟨failure, ?_, hcompile, hstrict⟩
    rcases Expression.failure_of_written h hw with ⟨_, _, _, rfl⟩ | rfl
    · simp
    · simp

/-- The silent and the strict entry points agree: a text is dropped by the silent ones and reported
by the strict ones, or both compile it to the same filter, or both fail alike. So only a malformed
text comes to an empty filter. With a time given, the default compiler does as any other. -/
theorem entry_points_agree (compiler : Compiler) (text : String) (now : Option Moment) :
    (compiler.Drops text now ∨ compiler.Compiles text now ∨ compiler.Fails text now) ∧
    ¬(compiler.Drops text now ∧ compiler.Compiles text now) ∧
    ¬(compiler.Drops text now ∧ compiler.Fails text now) ∧
    ¬(compiler.Compiles text now ∧ compiler.Fails text now) ∧
    (∀ systemTime moment, compileFilter systemTime text (some moment) =
      compiler.compile text (some moment)) ∧
    ((compiler.compile text now).outcome = .ok "" ↔
      ∃ column expected, tokenize text = .error (.malformed text column expected)) := by
  refine ⟨?_, ?_, ?_, ?_, fun _ _ => rfl, ?_⟩
  · rcases Expression.parse_cases text with ⟨_, hp⟩ | ⟨_, _, hp⟩ | ⟨_, hp⟩
    · exact .inr (compiles_or_fails_of_parse hp)
    · exact .inl (drops_of_parse hp)
    · exact .inr (.inr (fails_of_parse hp))
  · rintro ⟨⟨_, _, _, _, _, hempty⟩, output, hne, houtput, _⟩
    cases hempty.symm.trans houtput
    exact hne rfl
  · rintro ⟨⟨_, _, _, _, _, hempty⟩, failure, _, hfailure, _⟩
    cases hempty.symm.trans hfailure
  · rintro ⟨⟨output, _, houtput, _⟩, failure, _, hfailure, _⟩
    cases houtput.symm.trans hfailure
  · simp only [tokenize, map_eq_error_iff]
    exact compile_eq_empty_iff

end Compiler

/-- A duration with a tag behind it that no connective joins to it. -/
def unjoined (digits : List Char) : String := String.ofList (digits ++ "d b".toList)

theorem spells_unjoined {digits : List Char} (hne : digits ≠ []) (hd : digits.all isDigit) :
    Spells 0 (unjoined digits).toList
      [⟨0, .duration digits .day⟩, ⟨0 + (digits.length + 1) + 1, .tag ['b']⟩] := by
  have hamount : (Lexeme.duration digits .day).Heads (unjoined digits).toList [' ', 'b'] :=
    ⟨⟨hne, hd⟩, by simp [unjoined, Lexeme.written, DurationUnit.suffix], fun _ => by decide⟩
  have htag : (Lexeme.tag ['b']).Heads ['b'] [] := Lexeme.read?_eq_some_iff.mp (by decide +kernel)
  have hlength : (Lexeme.duration digits .day).written.length = digits.length + 1 := by
    simp [Lexeme.written]
  refine .lexeme hamount ?_
  rw [hlength]
  exact .blank (by decide) (.lexeme htag .nil)

theorem not_isExpression_unjoined {digits name : List Char} {unit : DurationUnit} :
    ¬IsExpression [.duration digits unit, .tag name] := by
  intro h
  generalize hl : [Lexeme.duration digits unit, .tag name] = lexemes at h
  cases h with
  | term ht => cases ht <;> cases hl
  | joined connective ht hr =>
    cases ht with
    | bounded comparison hs => cases hl
    | _ => simp at hl

/-- Tokenizing gives a list unless the text opens with an expression in which an amount is too long,
and then it fails, as compiling does, whether the text is malformed or not. Every other text outside
of the language is dropped: it has no tokens and an empty filter. -/
theorem malformed_dropped_iff (text : String) :
    ((∃ tokens, (tokenizeOrDrop text).outcome = .ok tokens) ↔ ¬OpensWithLongAmount text) ∧
    ((tokenizeOrDrop text).outcome = .ok [] ↔ ¬InLanguage text ∧ ¬OpensWithLongAmount text) ∧
    (∀ (compiler : Compiler) (now : Option Moment), (compiler.compile text now).outcome = .ok "" ↔
      ¬InLanguage text ∧ ¬OpensWithLongAmount text) ∧
    (∀ systemTime now, (compileFilter systemTime text now).outcome = .ok "" ↔
      ¬InLanguage text ∧ ¬OpensWithLongAmount text) ∧
    (OpensWithLongAmount text ↔ ∃ digits, digitLimit < digits ∧
      (tokenizeOrDrop text).outcome = .error (.amountTooLong digits) ∧
      (∀ (compiler : Compiler) (now : Option Moment),
        (compiler.compile text now).outcome = .error (.amountTooLong digits)) ∧
      ∀ systemTime now,
        (compileFilter systemTime text now).outcome = .error (.amountTooLong digits)) := by
  have hempty : ∀ (compiler : Compiler) (now : Option Moment),
      (compiler.compile text now).outcome = .ok "" ↔
        ¬InLanguage text ∧ ¬OpensWithLongAmount text := by
    intro compiler now
    rw [Compiler.compile_eq_empty_iff, Expression.parse_eq_malformed_iff]
  refine ⟨tokenizeOrDrop_isOk_iff, ?_, hempty, fun systemTime => hempty ⟨systemTime⟩, ?_, ?_⟩
  · rw [tokenizeOrDrop_eq_nil_iff, Expression.parse_eq_malformed_iff]
  · intro hl
    obtain ⟨digits, hd, hp⟩ := Expression.parse_of_opensWithLongAmount hl
    have hfail : ∀ (compiler : Compiler) (now : Option Moment),
        (compiler.compile text now).outcome = .error (.amountTooLong digits) := by
      intro compiler now
      rw [Compiler.compile_outcome, hp]
    refine ⟨digits, hd, ?_, hfail, fun systemTime => hfail ⟨systemTime⟩⟩
    rw [tokenizeOrDrop_outcome, hp]
  · rintro ⟨digits, -, hfail, -⟩
    by_cases hl : OpensWithLongAmount text
    · exact hl
    · obtain ⟨tokens, hok⟩ := tokenizeOrDrop_isOk_iff.mpr hl
      cases hfail.symm.trans hok

/-- A text outside of the language is not dropped if it opens with an amount that is too long. -/
theorem longAmount_not_dropped :
    ¬InLanguage (unjoined (List.replicate 4301 '1')) ∧
      ∃ digits, digitLimit < digits ∧
        (tokenizeOrDrop (unjoined (List.replicate 4301 '1'))).outcome =
          .error (.amountTooLong digits) := by
  have hlength : (List.replicate 4301 '1').length = 4301 := List.length_replicate
  have hdigits : (List.replicate 4301 '1').all isDigit := by
    rw [List.all_replicate, if_neg (by decide)]
    decide
  generalize List.replicate 4301 '1' = digits at hlength hdigits
  have hne : digits ≠ [] := by
    rintro rfl
    cases hlength
  have hs := spells_unjoined hne hdigits
  refine ⟨?_, ?_⟩
  · rintro ⟨placed, ho, he⟩
    cases ho.unique hs
    exact not_isExpression_unjoined he
  · have hopens : Opens 0 (unjoined digits).toList [⟨0, .duration digits .day⟩] := by
      rw [opens_iff, scanFrom_of_spells hs]
      exact List.prefix_append [_] _
    have hlong : OpensWithLongAmount (unjoined digits) := by
      refine ⟨_, hopens, .term (.span trivial), digits, .day, by simp, ?_⟩
      rw [hlength]
      decide
    obtain ⟨count, hcount, hp⟩ := Expression.parse_of_opensWithLongAmount hlong
    refine ⟨count, hcount, ?_⟩
    rw [tokenizeOrDrop_outcome, hp]

end SearchFilter

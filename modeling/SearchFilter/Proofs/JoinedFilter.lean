import SearchFilter.Proofs.EpochSize
import SearchFilter.Proofs.Joining

namespace SearchFilter

namespace Expression

/-- An expression that begins later compiles to the same, but for the place of a failure. -/
theorem written_moved {now : Moment} {expression : Expression} {distance : Nat} :
    ((expression.moved distance).written now).map Chain.text =
      ((expression.written now).map Chain.text).mapError (Failure.moved distance) := by
  rw [← compileTokens_eq, ← compileTokens_eq, moved, tokens_relocated]
  exact compileTokens_relocated

theorem chain_join {expression other : Expression} {connective : Connective} :
    (expression.join connective other).chain = expression.chain.join connective other.chain := by
  obtain ⟨first, clauses⟩ := expression
  simp only [join, chain]
  induction clauses generalizing first with
  | nil => rfl
  | cons clause clauses ih =>
    obtain ⟨joint, term⟩ := clause
    rw [List.cons_append, Chain.ofLinks, Chain.ofLinks, Chain.join, ih]

theorem written_join {now : Moment} {expression other : Expression} {connective : Connective} :
    (expression.join connective other).written now = (do
      let filter ← expression.written now
      let later ← other.written now
      return filter.join connective later) := by
  rw [written, written, written, chain_join, Chain.traverse_flatten_join]

end Expression

/-- The filter of two texts with a connective between them, or the first failure in it. -/
theorem Compiler.compile_joinedText {text other : String} {connective : Connective}
    {left right : Expression} (hl : Expression.parse text = .ok left)
    (hr : Expression.parse other = .ok right) (compiler : Compiler) (now : Option Moment) :
    (compiler.compile (joinedText text connective other) now).outcome = (do
      let filter ← (compiler.compile text now).outcome
      let later ← (compiler.compile other now).outcome.mapError
        (Failure.moved (text.length + connective.word.length + 2))
      return joinedText filter connective later) := by
  rw [compile_of_parse (Expression.parse_joinedText connective hl hr), compile_of_parse hl,
    compile_of_parse hr, ← Expression.written_moved, Expression.written_join]
  cases left.written (now.getD compiler.clock) with
  | error failure => rfl
  | ok filter =>
    cases (right.moved (text.length + connective.word.length + 2)).written
        (now.getD compiler.clock) with
    | error failure => rfl
    | ok later => exact congrArg Except.ok Chain.text_join

theorem Compiler.compile_error {text : String} {expression : Expression} {compiler : Compiler}
    {now : Option Moment} {failure : Failure} (hp : Expression.parse text = .ok expression)
    (hd : DigitRunsWithin 4292 text) (h : (compiler.compile text now).outcome = .error failure) :
    ∃ term position fault, failure = .impossibleDate term position fault := by
  rw [compile_of_parse hp] at h
  obtain ⟨_, literal, fault, _, _, he⟩ :=
    Expression.written_error hp hd (map_eq_error_iff.mp h)
  exact ⟨literal.text, literal.position, fault, he⟩

/-- Expressions compose as texts: two texts with a connective between them are a filter exactly if
both are, with the tokens of both and the compiled filters of both. Of dates that are not in the
calendar the first one is reported, at its place in the whole text. -/
theorem compile_of_joined {text other : String} (connective : Connective)
    (hfront : DigitRunsWithin 4292 text) (hback : DigitRunsWithin 4292 other) :
    ((∃ tokens, tokenize (joinedText text connective other) = .ok tokens) ↔
      (∃ tokens, tokenize text = .ok tokens) ∧ ∃ tokens, tokenize other = .ok tokens) ∧
    ∀ front back, tokenize text = .ok front → tokenize other = .ok back →
      front = front.dropLast ++ [.endOfInput] ∧
      tokenize (joinedText text connective other) =
        .ok (front.dropLast ++ .connective connective ::
          back.map (Token.moved (text.length + connective.word.length + 2))) ∧
      ∀ (compiler : Compiler) (now : Option Moment),
        (∀ filter later, (compiler.compile text now).outcome = .ok filter →
          (compiler.compile other now).outcome = .ok later →
          (compiler.compile (joinedText text connective other) now).outcome =
            .ok (joinedText filter connective later)) ∧
        (∀ failure, (compiler.compile text now).outcome = .error failure →
          (∃ term position fault, failure = .impossibleDate term position fault) ∧
          (compiler.compile (joinedText text connective other) now).outcome = .error failure) ∧
        ∀ filter failure, (compiler.compile text now).outcome = .ok filter →
          (compiler.compile other now).outcome = .error failure →
          ∃ term position fault, failure = .impossibleDate term position fault ∧
            (compiler.compile (joinedText text connective other) now).outcome =
              .error (.impossibleDate term
                (position + (text.length + connective.word.length + 2 : Nat)) fault) := by
  refine ⟨Expression.accepts_joinedText_iff, fun front back hf hb => ?_⟩
  obtain ⟨left, hl, rfl⟩ := tokenize_eq_ok_iff.mp hf
  obtain ⟨right, hr, rfl⟩ := tokenize_eq_ok_iff.mp hb
  refine ⟨by simp [Expression.tokens], ?_, fun compiler now => ?_⟩
  · refine tokenize_eq_ok_iff.mpr ⟨_, Expression.parse_joinedText connective hl hr, ?_⟩
    rw [Expression.tokens_join, Expression.moved, Expression.tokens_relocated]
    rfl
  · rw [Compiler.compile_joinedText hl hr]
    refine ⟨?_, ?_, ?_⟩
    · intro filter later hfilter hlater
      rw [hfilter, hlater]
      rfl
    · intro failure hfailure
      refine ⟨Compiler.compile_error hl hfront hfailure, ?_⟩
      rw [hfailure]
      rfl
    · intro filter failure hfilter hfailure
      obtain ⟨term, position, fault, rfl⟩ := Compiler.compile_error hr hback hfailure
      refine ⟨term, position, fault, rfl, ?_⟩
      rw [hfilter, hfailure]
      rfl

theorem compile_of_joined_impossible :
    DigitRunsWithin 4292 "vim" ∧ DigitRunsWithin 4292 ">2019-02-30" ∧
      ((⟨.startOfDay ⟨2020, 1, 1, by decide, by decide⟩⟩ : Compiler).compile
        "vim OR >2019-02-30" none).outcome =
          .error (.impossibleDate "2019-02-30" 8 .dayOutOfRange) := by
  have hfront : DigitRunsWithin 4292 "vim" := digitRunsWithin_of_length (by decide)
  have hback : DigitRunsWithin 4292 ">2019-02-30" := digitRunsWithin_of_length (by decide)
  have hl : Expression.parse "vim" = .ok ⟨.tag "vim", []⟩ := eq_ok_of_toOption (by decide +kernel)
  have hr : Expression.parse ">2019-02-30" = .ok ⟨.timed (some .greater)
      (.date ⟨2019, some 2, some 30, "2019-02-30", 1⟩), []⟩ := eq_ok_of_toOption (by decide +kernel)
  have hf : tokenize "vim" = .ok [.tag "vim", .endOfInput] := by rw [tokenize, hl]; rfl
  have hb : tokenize ">2019-02-30" = .ok [.comparator .greater,
      .date ⟨2019, some 2, some 30, "2019-02-30", 1⟩, .endOfInput] := by rw [tokenize, hr]; rfl
  obtain ⟨-, -, hcompile⟩ := (compile_of_joined .or hfront hback).2 _ _ hf hb
  obtain ⟨_, _, _, he, hjoined⟩ :=
    (hcompile ⟨.startOfDay ⟨2020, 1, 1, by decide, by decide⟩⟩ none).2.2 "tags = vim"
      (.impossibleDate "2019-02-30" 1 .dayOutOfRange)
      (by rw [Compiler.compile_of_parse hl]; rfl) (by rw [Compiler.compile_of_parse hr]; rfl)
  cases he
  exact ⟨hfront, hback, hjoined⟩

end SearchFilter

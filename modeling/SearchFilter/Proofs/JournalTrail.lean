import SearchFilter.Proofs.EntryPoints
import SearchFilter.Proofs.QuotedText
import SearchFilter.SearchQuery

namespace SearchFilter

/-- What a reader of the journal sees of an event. -/
structure Entry where
  channel : Channel
  level : Level
  message : String

def Event.entry (event : Event) : Entry := ⟨event.channel, event.level, event.message⟩

def Journaled.entries {α : Type} (journaled : Journaled α) : List Entry :=
  journaled.events.map Event.entry

namespace Failure

def IsMalformed (failure : Failure) : Prop :=
  ∃ text column expected, failure = .malformed text column expected

def IsImpossibleDate (failure : Failure) : Prop :=
  ∃ term position fault, failure = .impossibleDate term position fault

end Failure

/-- The records that an outcome of compiling a text leaves. The empty filter stands for a malformed
text. -/
inductive Trail (text : String) : Except Failure String → List Entry → Prop
  | dropped {column : Nat} {expected : Expectation} :
      tokenize text = .error (.malformed text column expected) →
      Trail text (.ok "")
        [⟨.grammar, .debug, "Dropping filter " ++ quoted text ++ ": " ++ expected.reason⟩]
  | compiled {output : String} : output ≠ "" →
      Trail text (.ok output)
        [⟨.compiler, .debug, "Compiled filter " ++ quoted text ++ " -> " ++ quoted output⟩]
  | rejected {failure : Failure} : failure.IsImpossibleDate →
      Trail text (.error failure)
        [⟨.compiler, .warning, "Rejecting filter " ++ quoted text ++ ": " ++ failure.message⟩]
  | silent {failure : Failure} : ¬failure.IsImpossibleDate → Trail text (.error failure) []

namespace Trail

variable {text : String} {outcome : Except Failure String} {entries other : List Entry}

/-- An outcome is recorded in one way only. -/
theorem unique (h : Trail text outcome entries) (ho : Trail text outcome other) :
    entries = other := by
  cases h with
  | dropped ht =>
    cases ho with
    | dropped hs =>
      cases ht.symm.trans hs
      rfl
    | compiled hne => exact absurd rfl hne
  | compiled hne =>
    cases ho with
    | dropped => exact absurd rfl hne
    | compiled => rfl
  | rejected hf =>
    cases ho with
    | rejected => rfl
    | silent hn => exact absurd hf hn
  | silent hn =>
    cases ho with
    | rejected hf => exact absurd hf hn
    | silent => rfl

theorem length_le_one (h : Trail text outcome entries) : entries.length ≤ 1 := by
  cases h <;> simp

theorem drops_iff (h : Trail text outcome entries) :
    (∃ entry ∈ entries, entry.channel = .grammar) ↔ outcome = .ok "" := by
  cases h with
  | dropped => simp
  | compiled hne => simpa using hne
  | rejected => simp
  | silent => simp

theorem compiles_iff (h : Trail text outcome entries) :
    (∃ entry ∈ entries, entry.channel = .compiler ∧ entry.level = .debug) ↔
      ∃ output, outcome = .ok output ∧ output ≠ "" := by
  cases h with
  | dropped => simp
  | compiled hne => simpa using hne
  | rejected => simp
  | silent => simp

/-- The record of a filter names the text, and behind it the filter. -/
theorem names_output {output : String} (h : Trail text (.ok output) entries) (hne : output ≠ "") :
    ∃ entry, entries = [entry] ∧ namedText? entry.message = some text ∧
      namedResult? entry.message = some output := by
  cases h with
  | dropped => exact absurd rfl hne
  | compiled =>
    have hpreface : "Compiled filter ".toList.all (!isMark ·) := by decide
    have hlink : " -> ".toList.all (!isMark ·) := by decide
    refine ⟨_, rfl, ?_, namedResult?_quoted hpreface hlink text output⟩
    rw [String.append_assoc]
    exact namedText?_quoted hpreface text _

theorem warns_iff (h : Trail text outcome entries) :
    (∃ entry ∈ entries, entry.level = .warning) ↔
      ∃ failure, outcome = .error failure ∧ failure.IsImpossibleDate := by
  cases h with
  | dropped => simp
  | compiled => simp
  | rejected hf => simpa using hf
  | silent hn => simpa using hn

end Trail

/-- What compiling a text came to is recorded at most once, and as nothing else. The filter can be
read back from its record. -/
structure Journaled.Recorded (journaled : Journaled String) (text : String) : Prop where
  trail : ∀ entries, Trail text journaled.outcome entries ↔ entries = journaled.entries
  length_le_one : journaled.entries.length ≤ 1
  drops_iff : (∃ entry ∈ journaled.entries, entry.channel = .grammar) ↔
    journaled.outcome = .ok ""
  compiles_iff : (∃ entry ∈ journaled.entries, entry.channel = .compiler ∧ entry.level = .debug) ↔
    ∃ output, journaled.outcome = .ok output ∧ output ≠ ""
  names_output : ∀ output, journaled.outcome = .ok output → output ≠ "" →
    ∃ entry, journaled.entries = [entry] ∧ namedText? entry.message = some text ∧
      namedResult? entry.message = some output
  warns_iff : (∃ entry ∈ journaled.entries, entry.level = .warning) ↔
    ∃ failure, journaled.outcome = .error failure ∧ failure.IsImpossibleDate

theorem Trail.recorded {text : String} {journaled : Journaled String}
    (h : Trail text journaled.outcome journaled.entries) : journaled.Recorded text where
  trail entries := by
    constructor
    · exact fun ho => ho.unique h
    · rintro rfl
      exact h
  length_le_one := h.length_le_one
  drops_iff := h.drops_iff
  compiles_iff := h.compiles_iff
  names_output _ he hne := (he ▸ h).names_output hne
  warns_iff := h.warns_iff

namespace Journaled

variable {α β : Type} {first : Journaled α} {next : α → Journaled β}

theorem bind_of_ok {value : α} (h : first.outcome = .ok value) :
    first >>= next = ⟨(next value).outcome, first.events ++ (next value).events⟩ := by
  obtain ⟨outcome, events⟩ := first
  cases h
  rfl

theorem bind_of_error {failure : Failure} (h : first.outcome = .error failure) :
    first >>= next = ⟨.error failure, first.events⟩ := by
  obtain ⟨outcome, events⟩ := first
  cases h
  rfl

end Journaled

namespace Compiler

variable {compiler : Compiler} {text : String} {now : Option Moment}

theorem compile_of_malformed {column : Nat} {expected : Expectation}
    (h : tokenize text = .error (.malformed text column expected)) :
    compiler.compile text now = ⟨.ok "", [.dropped text expected]⟩ := by
  have hdrop : tokenizeOrDrop text = ⟨.ok [], [.dropped text expected]⟩ := by
    rw [tokenizeOrDrop, h]
    rfl
  rw [compile, Journaled.bind_of_ok (congrArg Journaled.outcome hdrop), hdrop]
  rfl

theorem compileStrictly_of_error {failure : Failure} (h : tokenize text = .error failure) :
    compiler.compileStrictly text now = ⟨.error failure, []⟩ := by
  rw [compileStrictly, h]
  rfl

theorem compile_of_refused {digits : Nat} (h : tokenize text = .error (.amountTooLong digits)) :
    compiler.compile text now = ⟨.error (.amountTooLong digits), []⟩ := by
  rw [compile, tokenizeOrDrop, h]
  rfl

theorem compile_of_tokens {tokens : List Token} (h : tokenize text = .ok tokens)
    (hne : tokens ≠ []) : compiler.compile text now = compiler.finish text tokens now := by
  rw [compile, tokenizeOrDrop, h]
  change (if tokens.isEmpty then (pure "" : Journaled String)
    else compiler.finish text tokens now) = _
  rw [if_neg (by simpa using hne)]

theorem compileStrictly_of_tokens {tokens : List Token} (h : tokenize text = .ok tokens) :
    compiler.compileStrictly text now = compiler.finish text tokens now := by
  rw [compileStrictly, h]
  rfl

/-- Compiling the tokens of a text records what it comes to, and does not fail for a malformed
text. -/
theorem finish_trail {expression : Expression} (h : Expression.parse text = .ok expression) :
    Trail text (compiler.finish text expression.tokens now).outcome
        (compiler.finish text expression.tokens now).entries ∧
      ∀ failure, (compiler.finish text expression.tokens now).outcome = .error failure →
        ¬failure.IsMalformed := by
  constructor
  · rw [finish]
    split
    next filter he =>
      rw [compileTokens_eq] at he
      obtain ⟨chain, -, rfl⟩ := map_eq_ok_iff.mp he
      exact .compiled chain.text_ne_empty
    next => exact .rejected ⟨_, _, _, rfl⟩
    next failure hother _ =>
      refine .silent ?_
      rintro ⟨term, position, fault, rfl⟩
      exact hother term position fault rfl
  · rintro failure he ⟨other, column, expected, rfl⟩
    rw [finish_outcome, compileTokens_eq] at he
    rcases Expression.failure_of_written h (map_eq_error_iff.mp he) with ⟨_, _, _, hf⟩ | hf
    · cases hf
    · cases hf

/-- The two ways of compiling leave the trails of their outcomes. They come to the same, unless the
text is malformed. -/
theorem trail_cases (compiler : Compiler) (text : String) (now : Option Moment) :
    Trail text (compiler.compile text now).outcome (compiler.compile text now).entries ∧
    Trail text (compiler.compileStrictly text now).outcome
      (compiler.compileStrictly text now).entries ∧
    ((∃ failure, (compiler.compileStrictly text now) = ⟨.error failure, []⟩ ∧
        failure.IsMalformed ∧ (compiler.compile text now).outcome = .ok "") ∨
      compiler.compileStrictly text now = compiler.compile text now ∧
        ∀ failure, (compiler.compileStrictly text now).outcome = .error failure →
          ¬failure.IsMalformed) := by
  rcases Expression.parse_cases text with ⟨expression, hp⟩ | ⟨column, expected, hp⟩ | ⟨digits, hp⟩
  · have ht : tokenize text = .ok expression.tokens := by
      rw [tokenize, hp]
      rfl
    obtain ⟨htrail, hsound⟩ :
        Trail text (compiler.finish text expression.tokens now).outcome _ ∧ _ := finish_trail hp
    rw [compile_of_tokens ht expression.tokens_ne_nil, compileStrictly_of_tokens ht]
    exact ⟨htrail, htrail, .inr ⟨rfl, hsound⟩⟩
  · have ht : tokenize text = .error (.malformed text column expected) := by
      rw [tokenize, hp]
      rfl
    rw [compile_of_malformed ht, compileStrictly_of_error ht]
    refine ⟨.dropped ht, .silent ?_, .inl ⟨_, rfl, ⟨_, _, _, rfl⟩, rfl⟩⟩
    rintro ⟨_, _, _, hf⟩
    cases hf
  · have ht : tokenize text = .error (.amountTooLong digits) := by
      rw [tokenize, hp]
      rfl
    have hdate : ¬(Failure.amountTooLong digits).IsImpossibleDate := by
      rintro ⟨_, _, _, hf⟩
      cases hf
    rw [compile_of_refused ht, compileStrictly_of_error ht]
    refine ⟨.silent hdate, .silent hdate, .inr ⟨rfl, ?_⟩⟩
    rintro _ hf ⟨_, _, _, rfl⟩
    cases hf

end Compiler

/-- Filtering a request records what compiling does, and behind it that no filter was applied if
there is none. It fails as compiling does. -/
theorem SearchQuery.entries_processFilter (query : SearchQuery) (compiler : Compiler)
    (text : String) (now : Option Moment) :
    ((compiler.compile text now).outcome = .ok "" →
      (query.processFilter compiler text now).2.entries = (compiler.compile text now).entries ++
        [⟨.query, .debug, "No filter applied for " ++ quoted text⟩]) ∧
    ((compiler.compile text now).outcome ≠ .ok "" →
      (query.processFilter compiler text now).2.entries = (compiler.compile text now).entries) ∧
    ∀ failure, (query.processFilter compiler text now).2.outcome = .error failure ↔
      (compiler.compile text now).outcome = .error failure := by
  cases hc : (compiler.compile text now).outcome with
  | error failure =>
    have hp : (query.processFilter compiler text now).2 =
        ⟨.error failure, (compiler.compile text now).events⟩ := by
      simp only [processFilter, hc]
    rw [hp]
    exact ⟨(nomatch ·), fun _ => rfl, fun _ => by simp⟩
  | ok filter =>
    by_cases hempty : filter = ""
    · have hp : (query.processFilter compiler text now).2 =
          ⟨.ok query.filter, (compiler.compile text now).events ++ [.notApplied text]⟩ := by
        simp only [processFilter, hc, if_pos hempty]
      rw [hp]
      refine ⟨fun _ => List.map_append, fun h => ?_, fun _ => by simp⟩
      exact absurd (congrArg Except.ok hempty) h
    · have hp : (query.processFilter compiler text now).2 =
          ⟨.ok (.string filter), (compiler.compile text now).events⟩ := by
        simp only [processFilter, hc, if_neg hempty]
      rw [hp]
      exact ⟨fun h => absurd (Except.ok.inj h) hempty, fun _ => rfl, fun _ => by simp⟩

/-- Compiling leaves one record of what it came to, behind that of the compiler: that a text was
dropped, with the reason, that it was compiled, with the filter, which is read back from there, or
that it was rejected for a date, with a warning. Other failures leave none. Compiling strictly
leaves the same, but nothing about a malformed text, which it reports itself. Filtering a request
adds that no filter was applied if there is none. -/
theorem journal_follows_outcome (clock : Moment) (query : SearchQuery) (text : String)
    (now : Option Moment) :
    let compiler : Compiler := ⟨clock⟩
    let compiled := compiler.compile text now
    let strict := compiler.compileStrictly text now
    let processed := (query.processFilter compiler text now).2
    (∀ {α : Type} (clockName : String) (call : Compiler → Journaled α),
      (Compiler.create clock clockName >>= call).entries =
        ⟨.compiler, .info, "FilterCompiler initialised with clock=" ++ clockName⟩ ::
          (call compiler).entries) ∧
    compiled.Recorded text ∧ strict.Recorded text ∧
    ((∃ failure, strict.outcome = .error failure ∧ failure.IsMalformed) →
      strict.entries = [] ∧ compiled.outcome = .ok "") ∧
    (¬(∃ failure, strict.outcome = .error failure ∧ failure.IsMalformed) →
      strict.outcome = compiled.outcome ∧ strict.entries = compiled.entries) ∧
    (compiled.outcome = .ok "" → processed.entries = compiled.entries ++
      [⟨.query, .debug, "No filter applied for " ++ quoted text⟩]) ∧
    (compiled.outcome ≠ .ok "" → processed.entries = compiled.entries) ∧
    ((∃ entry ∈ processed.entries, entry.level = .warning) ↔
      ∃ failure, processed.outcome = .error failure ∧ failure.IsImpossibleDate) := by
  intro compiler compiled strict processed
  obtain ⟨hcompiled, hstrict, hcases⟩ := compiler.trail_cases text now
  obtain ⟨hempty, hfilter, herror⟩ := query.entries_processFilter compiler text now
  refine ⟨fun _ _ => rfl, hcompiled.recorded, hstrict.recorded, ?_, ?_, hempty, hfilter, ?_⟩
  · rintro ⟨failure, he, hm⟩
    rcases hcases with ⟨other, hs, -, hdropped⟩ | ⟨-, hsound⟩
    · exact ⟨congrArg Journaled.entries hs, hdropped⟩
    · exact absurd hm (hsound failure he)
  · intro hn
    rcases hcases with ⟨failure, hs, hm, -⟩ | ⟨hs, -⟩
    · exact absurd ⟨failure, congrArg Journaled.outcome hs, hm⟩ hn
    · exact ⟨congrArg Journaled.outcome hs, congrArg Journaled.entries hs⟩
  · have hwarns : (∃ entry ∈ processed.entries, entry.level = .warning) ↔
        ∃ entry ∈ compiled.entries, entry.level = .warning := by
      by_cases hc : compiled.outcome = .ok ""
      · rw [hempty hc]
        simp [compiled]
      · rw [hfilter hc]
    rw [hwarns, hcompiled.warns_iff]
    simp only [processed, herror]

/-- A malformed text leaves no record of the strict way of compiling and two of a request, and a tag
is recorded alike by both ways. -/
theorem journal_of_dropped_and_compiled :
    let compiler : Compiler := ⟨.startOfDay ⟨2020, 1, 1, by decide, by decide⟩⟩
    (∃ failure, (compiler.compileStrictly "a b" none).outcome = .error failure ∧
      failure.IsMalformed) ∧
    (compiler.compileStrictly "a b" none).entries = [] ∧
    (compiler.compile "a b" none).outcome = .ok "" ∧
    (({} : SearchQuery).processFilter compiler "a b" none).2.entries =
      (compiler.compile "a b" none).entries ++
        [⟨.query, .debug, "No filter applied for " ++ quoted "a b"⟩] ∧
    (compiler.compile "vim" none).outcome = .ok "tags = vim" ∧
    (compiler.compileStrictly "vim" none).entries = (compiler.compile "vim" none).entries ∧
    (({} : SearchQuery).processFilter compiler "vim" none).2.entries =
      (compiler.compile "vim" none).entries := by
  intro compiler
  obtain ⟨-, -, -, hmalformed, -, hempty, -⟩ := journal_follows_outcome compiler.clock {} "a b" none
  obtain ⟨-, -, -, -, hsame, -, hfilter, -⟩ := journal_follows_outcome compiler.clock {} "vim" none
  have hdropped : (compiler.compile "a b" none).outcome = .ok "" :=
    eq_ok_of_toOption (by decide +kernel)
  have hcompiled : (compiler.compile "vim" none).outcome = .ok "tags = vim" :=
    eq_ok_of_toOption (by decide +kernel)
  have hstrict : (compiler.compileStrictly "vim" none).outcome = .ok "tags = vim" :=
    eq_ok_of_toOption (by decide +kernel)
  obtain ⟨column, expected, hp⟩ := Compiler.compile_eq_empty_iff.mp hdropped
  have hreported : (compiler.compileStrictly "a b" none).outcome =
      .error (.malformed "a b" column expected) := by
    rw [Compiler.compileStrictly_outcome, hp]
    rfl
  have hfails : ∃ failure, (compiler.compileStrictly "a b" none).outcome = .error failure ∧
      failure.IsMalformed := ⟨_, hreported, _, _, _, rfl⟩
  have hsound : ¬∃ failure, (compiler.compileStrictly "vim" none).outcome = .error failure ∧
      failure.IsMalformed := by
    rintro ⟨failure, he, -⟩
    cases hstrict.symm.trans he
  have hne : (compiler.compile "vim" none).outcome ≠ .ok "" := by
    intro he
    exact absurd (Except.ok.inj (hcompiled.symm.trans he)) (by decide)
  exact ⟨hfails, (hmalformed hfails).1, hdropped, hempty hdropped, hcompiled, (hsame hsound).2,
    hfilter hne⟩

end SearchFilter

import SearchFilter.Proofs.OutputReading

namespace SearchFilter

/-- A term with what it demands at two times. -/
structure Recompiled (first second : Moment) where
  term : Term
  before : Chain Constraint
  after : Chain Constraint
  before_demanded : term.Demands first before
  after_demanded : term.Demands second after

/-- How the demands of a term change from one time to another: the bound of a duration moves by the
difference of the times, and nothing else changes. -/
inductive Term.MovesBy (difference : Int) : Term → Chain Constraint → Chain Constraint → Prop
  | duration {bound : Option Comparison} {length : Duration} {comparison : Comparison}
      {second : Int} : MovesBy difference (.timed bound (.duration length))
        (.single (.dated comparison second)) (.single (.dated comparison (second + difference)))
  | fixed {term : Term} {demands : Chain Constraint} :
      (∀ bound length, term ≠ .timed bound (.duration length)) →
        MovesBy difference term demands demands

theorem Recompiled.movesBy {first second : Moment} (run : Recompiled first second) :
    run.term.MovesBy (second.epoch - first.epoch) run.before run.after := by
  obtain ⟨term, before, after, hbefore, hafter⟩ := run
  change term.MovesBy _ before after
  cases hbefore with
  | tag =>
    cases hafter
    exact .fixed (by simp)
  | notTag =>
    cases hafter
    exact .fixed (by simp)
  | @duration bound length =>
    cases hafter
    have hmoved : length.epochBefore second =
        length.epochBefore first + (second.epoch - first.epoch) := by
      rw [Duration.epochBefore, Duration.epochBefore]
      omega
    rw [hmoved]
    exact .duration
  | bounded hr =>
    cases hafter with
    | bounded hs =>
      cases hr.symm.trans hs
      exact .fixed (by simp)
  | whole hr =>
    cases hafter with
    | whole hs =>
      cases hr.symm.trans hs
      exact .fixed (by simp)

/-- The demands of the same terms at two times stand side by side. -/
theorem Chain.Related.exists_recompiled {first second : Moment} {terms : Chain Term}
    {before after : Chain (Chain Constraint)} (hb : terms.Related (Term.Demands first) before)
    (ha : terms.Related (Term.Demands second) after) :
    ∃ runs : Chain (Recompiled first second), runs.map Recompiled.term = terms ∧
      runs.map Recompiled.before = before ∧ runs.map Recompiled.after = after := by
  induction hb generalizing after with
  | single hd =>
    cases ha with
    | single hs => exact ⟨.single ⟨_, _, _, hd, hs⟩, rfl, rfl, rfl⟩
  | @link _ _ connective _ _ hd _ ih =>
    cases ha with
    | link hs hrest =>
      obtain ⟨runs, rfl, rfl, rfl⟩ := ih hrest
      exact ⟨.link ⟨_, _, _, hd, hs⟩ connective runs, rfl, rfl, rfl⟩

/-- Only a duration looks at the time. -/
theorem Token.pieces_of_not_duration {token : Token} (h : ∀ length, token ≠ .duration length)
    (first second : Moment) (pending : Option Comparison) :
    token.pieces first pending = token.pieces second pending := by
  cases token with
  | duration length => exact absurd rfl (h length)
  | _ => rfl

theorem compileTokens_of_no_duration {tokens : List Token}
    (h : ∀ length, .duration length ∉ tokens) (first second : Moment) :
    compileTokens first tokens = compileTokens second tokens := by
  have pieces : ∀ pending, piecesOf first pending (tokens.map .token) =
      piecesOf second pending (tokens.map .token) := by
    induction tokens with
    | nil => exact fun _ => rfl
    | cons token tokens ih =>
      intro pending
      have hrest := ih fun length hm => h length (List.mem_cons_of_mem _ hm)
      have htoken : ∀ length, token ≠ .duration length := by
        rintro length rfl
        exact h length List.mem_cons_self
      by_cases hend : token = .endOfInput
      · subst hend
        rfl
      · rw [List.map_cons, piecesOf_cons hend, piecesOf_cons hend,
          Token.pieces_of_not_duration htoken first second, hrest]
  rw [compileTokens, compileItems, pieces, compileTokens, compileItems]

/-- What comes behind a computation matters only for the value that it gives. -/
theorem Journaled.bind_congr {α β : Type} {first : Journaled α} {next other : α → Journaled β}
    (h : ∀ value, first.outcome = .ok value → next value = other value) :
    first >>= next = first >>= other := by
  obtain ⟨outcome, events⟩ := first
  cases outcome with
  | error failure => rfl
  | ok value =>
    have hvalue := h value rfl
    change Journaled.mk (next value).outcome _ = Journaled.mk (other value).outcome _
    rw [hvalue]

namespace Compiler

/-- Without a duration among its tokens a text compiles alike at all times, its records included. -/
theorem compile_of_no_duration {compiler : Compiler} {text : String}
    (h : ∀ tokens, (tokenizeOrDrop text).outcome = .ok tokens → ∀ length, .duration length ∉ tokens)
    (first second : Moment) :
    compiler.compile text (some first) = compiler.compile text (some second) := by
  refine Journaled.bind_congr fun tokens ht => ?_
  have hsame : compileTokens first tokens = compileTokens second tokens :=
    compileTokens_of_no_duration (h tokens ht) first second
  have hfinish : compiler.finish text tokens (some first) =
      compiler.finish text tokens (some second) := by
    simp only [finish, Option.getD_some, hsame]
  rw [hfinish]

/-- Compiling the same text at two times gives filters that differ in the bounds of its durations
only, each of which moves by the difference of the times. -/
theorem exists_recompiled {compiler : Compiler} {text output later : String}
    {first second : Moment} (hf : (compiler.compile text (some first)).outcome = .ok output)
    (hs : (compiler.compile text (some second)).outcome = .ok later) (hne : output ≠ "")
    (hlater : later ≠ "") :
    ∃ runs : Chain (Recompiled first second),
      (∃ expression, Expression.parse text = .ok expression ∧
        runs.map Recompiled.term = expression.chain) ∧
      (∀ filter : Chain Constraint, filter.Reads (spacedWords output) ↔
        filter = (runs.map Recompiled.before).flatten) ∧
      ∀ filter : Chain Constraint, filter.Reads (spacedWords later) ↔
        filter = (runs.map Recompiled.after).flatten := by
  obtain ⟨expression, before, hp, hb, rfl, hreadable⟩ := compile_filter hf hne
  obtain ⟨same, after, hsame, ha, rfl, hreads⟩ := compile_filter hs hlater
  cases Except.ok.inj (hp.symm.trans hsame)
  obtain ⟨inners, hti, rfl⟩ := map_eq_ok_iff.mp hb
  obtain ⟨others, hto, rfl⟩ := map_eq_ok_iff.mp ha
  have hfirst := (Chain.traverse_eq_ok_iff.mp hti).mono fun _ _ => Term.constraints_eq_ok_iff.mp
  have hsecond := (Chain.traverse_eq_ok_iff.mp hto).mono fun _ _ => Term.constraints_eq_ok_iff.mp
  obtain ⟨runs, hterms, rfl, rfl⟩ := hfirst.exists_recompiled hsecond
  exact ⟨runs, ⟨expression, hp, hterms⟩, fun filter => Chain.reads_text_iff hreadable,
    fun filter => Chain.reads_text_iff hreads⟩

/-- The reference time shows in durations and in nothing else. Without a duration a text compiles
alike at all times. At two times at which it compiles to filters, these consist of the demands of
the same terms with the same connectives between them, and only the bound of a duration differs, by
the difference of the times. The clock is read only where no time is given, and then as if its time
were. -/
theorem time_moves_durations (text : String) (first second : Moment) :
    (∀ compiler : Compiler,
      (∀ tokens, (tokenizeOrDrop text).outcome = .ok tokens →
        ∀ length, .duration length ∉ tokens) →
      compiler.compile text (some first) = compiler.compile text (some second)) ∧
    (∀ (compiler : Compiler) (output later : String),
      (compiler.compile text (some first)).outcome = .ok output →
      (compiler.compile text (some second)).outcome = .ok later → output ≠ "" → later ≠ "" →
      ∃ runs : Chain (Recompiled first second),
        (∃ expression, Expression.parse text = .ok expression ∧
          runs.map Recompiled.term = expression.chain) ∧
        (∀ filter : Chain Constraint, filter.Reads (spacedWords output) ↔
          filter = (runs.map Recompiled.before).flatten) ∧
        (∀ filter : Chain Constraint, filter.Reads (spacedWords later) ↔
          filter = (runs.map Recompiled.after).flatten) ∧
        ∀ run ∈ runs.operands,
          run.term.MovesBy (second.epoch - first.epoch) run.before run.after) ∧
    (∀ (compiler other : Compiler) (now : Moment),
      compiler.compile text (some now) = other.compile text (some now)) ∧
    ∀ compiler : Compiler,
      compiler.compile text none = compiler.compile text (some compiler.clock) := by
  refine ⟨fun compiler h => compile_of_no_duration h first second, ?_, fun _ _ _ => rfl,
    fun _ => rfl⟩
  intro compiler output later hf hs hne hlater
  obtain ⟨runs, hterms, hbefore, hafter⟩ := exists_recompiled hf hs hne hlater
  exact ⟨runs, hterms, hbefore, hafter, fun run _ => run.movesBy⟩

end Compiler

theorem time_moves_durations_one_day :
    ((⟨.startOfDay ⟨2020, 1, 1, by decide, by decide⟩⟩ : Compiler).compile "2019 OR <7d"
        (some (.startOfDay ⟨2020, 1, 1, by decide, by decide⟩))).outcome =
          .ok "date > 1546300800 AND date < 1577836799 OR date < 1577232000" ∧
      ((⟨.startOfDay ⟨2020, 1, 1, by decide, by decide⟩⟩ : Compiler).compile "2019 OR <7d"
        (some (.startOfDay ⟨2020, 1, 2, by decide, by decide⟩))).outcome =
          .ok "date > 1546300800 AND date < 1577836799 OR date < 1577318400" ∧
      ∃ runs : Chain (Recompiled (.startOfDay ⟨2020, 1, 1, by decide, by decide⟩)
          (.startOfDay ⟨2020, 1, 2, by decide, by decide⟩)),
        (runs.map Recompiled.before).flatten.Reads
          (spacedWords "date > 1546300800 AND date < 1577836799 OR date < 1577232000") ∧
        (runs.map Recompiled.after).flatten.Reads
          (spacedWords "date > 1546300800 AND date < 1577836799 OR date < 1577318400") ∧
        ∀ run ∈ runs.operands, run.term.MovesBy 86400 run.before run.after := by
  have hf : ((⟨.startOfDay ⟨2020, 1, 1, by decide, by decide⟩⟩ : Compiler).compile "2019 OR <7d"
      (some (.startOfDay ⟨2020, 1, 1, by decide, by decide⟩))).outcome =
        .ok "date > 1546300800 AND date < 1577836799 OR date < 1577232000" :=
    eq_ok_of_toOption (by decide +kernel)
  have hs : ((⟨.startOfDay ⟨2020, 1, 1, by decide, by decide⟩⟩ : Compiler).compile "2019 OR <7d"
      (some (.startOfDay ⟨2020, 1, 2, by decide, by decide⟩))).outcome =
        .ok "date > 1546300800 AND date < 1577836799 OR date < 1577318400" :=
    eq_ok_of_toOption (by decide +kernel)
  have hday : (Moment.startOfDay ⟨2020, 1, 2, by decide, by decide⟩).epoch -
      (Moment.startOfDay ⟨2020, 1, 1, by decide, by decide⟩).epoch = 86400 := by decide +kernel
  obtain ⟨-, hruns, -, -⟩ := Compiler.time_moves_durations "2019 OR <7d"
    (.startOfDay ⟨2020, 1, 1, by decide, by decide⟩)
    (.startOfDay ⟨2020, 1, 2, by decide, by decide⟩)
  obtain ⟨runs, -, hbefore, hafter, hmoves⟩ :=
    hruns _ _ _ hf hs (by decide) (by decide)
  rw [hday] at hmoves
  exact ⟨hf, hs, runs, (hbefore _).mpr rfl, (hafter _).mpr rfl, hmoves⟩

end SearchFilter

import SearchFilter.Proofs.ErrorPlace
import SearchFilter.Proofs.OutputReading

namespace SearchFilter

theorem readClauses_of_not_connective {placed : List Placed}
    (h : ∀ offset connective, placed.head? ≠ some ⟨offset, .connective connective⟩) :
    readClauses placed = ([], placed) := by
  unfold readClauses
  split
  next offset connective rest => exact absurd rfl (h offset connective)
  next => rfl

theorem readClauses_scanFrom {offset : Nat} {c : Char} {rest : List Char} (hb : isBlank c = false)
    (hs : isWordStart c = false) :
    readClauses (scanFrom offset (c :: rest)).placed =
      ([], (scanFrom offset (c :: rest)).placed) := by
  apply readClauses_of_not_connective
  intro place connective
  rw [scanFrom, if_neg (by simp [hb])]
  split
  next => simp
  next lexeme tail hr =>
    intro he
    cases (Placed.mk.inj (Option.some.inj he)).2
    obtain ⟨d, more, hd, hw⟩ := Lexeme.isWordStart_head (Lexeme.read?_eq_some_iff.mp hr) rfl
    cases hd
    simp [hs] at hw

/-- A tag and a blank, and behind them a character that neither is a blank nor begins a word. -/
structure IsCutTag (name : List Char) (text : String) : Prop where
  tag : IsTagWord name
  split : ∃ c rest, text.toList = name ++ ' ' :: c :: rest ∧ isBlank c = false ∧
    isWordStart c = false

namespace IsCutTag

variable {name : List Char} {text : String}

theorem columnAt_eq (h : IsCutTag name text) :
    columnAt text.toList (name.length + 1) = name.length + 2 := by
  obtain ⟨c, rest, htext, -, -⟩ := h.split
  have hline : '\n' ∉ name ++ [' '] := by
    intro hm
    rcases List.mem_append.mp hm with hm | hm
    · exact absurd (not_isBlank_of_mem_word h.tag.1 hm) (by decide)
    · simp at hm
  have hcolumn : columnAt (name ++ [' '] ++ c :: rest) (name ++ [' ']).length =
      (name ++ [' ']).length + 1 := columnAt_append hline
  rwa [List.append_assoc, List.length_append, List.singleton_append, ← htext] at hcolumn

/-- The tag is an expression, and what follows it does not go on with a connective. -/
theorem read?_eq (h : IsCutTag name text) :
    ∃ remaining, Expression.read? (scanFrom 0 text.toList).placed =
        some (.ok ⟨.tag (.ofList name), []⟩, remaining) ∧
      (scanFrom 0 text.toList).offsetOf remaining = name.length + 1 := by
  obtain ⟨c, rest, htext, hb, hs⟩ := h.split
  have hblank : isBlank ' ' := by decide
  have hheads : (Lexeme.tag name).Heads text.toList (' ' :: c :: rest) :=
    ⟨h.tag, htext, fun _ => atBoundary_of_isBlank hblank⟩
  have hstart : 0 + (Lexeme.tag name).written.length + 1 = name.length + 1 :=
    congrArg Nat.succ (Nat.zero_add _)
  rw [scanFrom_lexeme hheads, scanFrom_blank hblank, hstart]
  have hstop : ∀ d ∈ (c :: rest).head?, isBlank d = false := by simpa using hb
  refine ⟨(scanFrom (name.length + 1) (c :: rest)).placed, ?_, offsetOf_scanFrom hstop⟩
  simp only [Expression.read?, Term.read?, Option.bind_eq_bind, Option.bind_some,
    readClauses_scanFrom hb hs]
  rfl

/-- Such a text is malformed where the tag is cut off from what follows it. -/
theorem parse_eq (h : IsCutTag name text) :
    Expression.parse text = .error (.malformed text (name.length + 2) .endOfText) := by
  obtain ⟨remaining, hread, hstop⟩ := h.read?_eq
  have hlt : name.length + 1 < text.length := by
    obtain ⟨c, rest, htext, -, -⟩ := h.split
    rw [← String.length_toList, htext]
    simp
  rw [Expression.parse, hread]
  simp only [hstop, h.columnAt_eq]
  exact if_pos hlt

end IsCutTag

theorem isTagWord_tagsWord : IsTagWord tagsWord := by
  have hread : Lexeme.read? tagsWord = some (.tag tagsWord, []) := by decide +kernel
  exact (Lexeme.read?_eq_some_iff.mp hread).proper

theorem isTagWord_dateWord : IsTagWord dateWord := by
  have hread : Lexeme.read? dateWord = some (.tag dateWord, []) := by decide +kernel
  exact (Lexeme.read?_eq_some_iff.mp hread).proper

/-- The first word of an atom says what it is about, and the sign behind it begins no word. -/
theorem Constraint.Worded.exists_sign {constraint : Constraint} {atom : List (List Char)}
    (h : constraint.Worded atom) :
    ∃ name c rest, (name = tagsWord ∨ name = dateWord) ∧
      [' '].intercalate atom = name ++ ' ' :: c :: rest ∧ isBlank c = false ∧
      isWordStart c = false := by
  cases h with
  | @tagged name =>
    exact ⟨tagsWord, '=', ' ' :: name, .inl rfl, by simp, by decide, by decide⟩
  | @untagged name =>
    exact ⟨tagsWord, '!', '=' :: ' ' :: name, .inl rfl, by simp, by decide, by decide⟩
  | @dated comparison second number =>
    refine ⟨dateWord, comparison.symbol, ' ' :: number, .inr rfl, by simp, ?_, ?_⟩
    · cases comparison <;> decide
    · cases comparison <;> decide

theorem Chain.exists_isCutTag {chain : Chain Constraint}
    (h : ∀ constraint ∈ chain.operands, constraint.Readable) :
    ∃ name, name.length = 4 ∧ IsCutTag name chain.text := by
  obtain ⟨constraint, more, hm, htext⟩ : ∃ constraint more, constraint ∈ chain.operands ∧
      chain.text.toList = Constraint.chars constraint ++ more := by
    cases chain with
    | single constraint =>
      exact ⟨constraint, [], by simp [operands], by simp [text, pieces, filterText, Piece.chars]⟩
    | link constraint connective rest =>
      exact ⟨constraint, _, by simp [operands], by rw [text_link, List.append_assoc]⟩
  obtain ⟨atom, hw, hchars, -⟩ := Constraint.exists_worded (h constraint hm)
  obtain ⟨name, c, rest, hname, hatom, hb, hs⟩ := hw.exists_sign
  have hsplit : chain.text.toList = name ++ ' ' :: c :: (rest ++ more) := by
    rw [htext, hchars, hatom]
    simp
  rcases hname with rfl | rfl
  · exact ⟨tagsWord, rfl, isTagWord_tagsWord, c, rest ++ more, hsplit, hb, hs⟩
  · exact ⟨dateWord, rfl, isTagWord_dateWord, c, rest ++ more, hsplit, hb, hs⟩

theorem Expression.parse_empty :
    Expression.parse "" = .error (.malformed "" 1 .term) := by
  simp [parse, scanFrom, read?, Term.read?, Scan.missingTerm, Scan.offsetOf, columnAt]

/-- A compiled filter is no filter expression: compiling it once more gives the empty filter, and if
there is anything in it, reading it stops behind its first word, where the text should end. -/
theorem Compiler.output_malformed {compiler : Compiler} {text output : String}
    {now : Option Moment} (h : (compiler.compile text now).outcome = .ok output) :
    (∀ (again : Compiler) (later : Option Moment),
      (again.compile output later).outcome = .ok "") ∧
    (output ≠ "" → tokenize output = .error (.malformed output 6 .endOfText) ∧
      Expectation.endOfText.reason = "Expected end of text") := by
  have dropped : ∀ {column : Nat} {expected : Expectation},
      Expression.parse output = .error (.malformed output column expected) →
      ∀ (again : Compiler) (later : Option Moment),
        (again.compile output later).outcome = .ok "" := by
    intro column expected hp again later
    rw [compile_outcome, hp]
  by_cases hne : output = ""
  · subst hne
    exact ⟨dropped Expression.parse_empty, fun hn => absurd rfl hn⟩
  · obtain ⟨_, filter, _, _, rfl, hr⟩ := compile_filter h hne
    obtain ⟨name, hlength, hcut⟩ := Chain.exists_isCutTag hr
    have hp := hcut.parse_eq
    rw [hlength] at hp
    refine ⟨dropped hp, fun _ => ⟨?_, rfl⟩⟩
    rw [tokenize, hp]
    rfl

theorem output_malformed_bare_date :
    ((⟨.startOfDay ⟨2020, 1, 1, by decide, by decide⟩⟩ : Compiler).compile
        "2019 OR !AND" none).outcome =
          .ok "date > 1546300800 AND date < 1577836799 OR tags != AND" ∧
      ((⟨.startOfDay ⟨2021, 6, 1, by decide, by decide⟩⟩ : Compiler).compile
        "date > 1546300800 AND date < 1577836799 OR tags != AND" none).outcome = .ok "" ∧
      "date > 1546300800 AND date < 1577836799 OR tags != AND" ≠ "" ∧
      tokenize "date > 1546300800 AND date < 1577836799 OR tags != AND" =
        .error (.malformed "date > 1546300800 AND date < 1577836799 OR tags != AND" 6
          .endOfText) ∧
      Expectation.endOfText.reason = "Expected end of text" := by
  have h : ((⟨.startOfDay ⟨2020, 1, 1, by decide, by decide⟩⟩ : Compiler).compile
      "2019 OR !AND" none).outcome =
        .ok "date > 1546300800 AND date < 1577836799 OR tags != AND" :=
    eq_ok_of_toOption (by decide +kernel)
  have hne : "date > 1546300800 AND date < 1577836799 OR tags != AND" ≠ "" := by decide
  obtain ⟨hagain, hreason⟩ := Compiler.output_malformed h
  exact ⟨h, hagain _ none, hne, hreason hne⟩

end SearchFilter

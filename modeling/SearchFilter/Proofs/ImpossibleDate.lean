import SearchFilter.Proofs.DatePlace
import SearchFilter.Proofs.WaitingComparator

namespace SearchFilter

/-- A literal for a year from 1 to 9999, or for a month or day of such a year. -/
structure DateLiteral.InCalendar (literal : DateLiteral) : Prop where
  year : literal.YearExists
  month : literal.MonthExists
  day : literal.DayExists

/-- A date as written, wherever that is, that is in the calendar. -/
def DateWord.InCalendar (word : DateWord) : Prop := (word.literal 0).InCalendar

/-- The leftmost date of some lexemes that is not in the calendar, with the lexemes in front of
it. -/
structure LeftmostImpossible (placed front : List Placed) (place : Nat) (word : DateWord) :
    Prop where
  split : ∃ rest, placed = front ++ ⟨place, .date word⟩ :: rest
  impossible : ¬word.InCalendar
  possible : ∀ other before, ⟨other, .date before⟩ ∈ front → before.InCalendar

/-- A failure that reports a date of a text: the leftmost one that is not in the calendar, with the
first thing that is wrong with it. Its position is where it is written, or else directly behind the
comparator in front of it. -/
structure ReportsDate (text : String) (placed : List Placed) (failure : Failure) (place : Nat)
    (position : Nat) (word : DateWord) : Prop where
  failure_eq : ∃ fault, (word.literal position).FirstFault fault ∧
    failure = .impossibleDate (.ofList word.written) position fault
  member : ⟨place, .date word⟩ ∈ placed
  impossible : ¬word.InCalendar
  leftmost : ∀ other before, ⟨other, .date before⟩ ∈ placed → other < place → before.InCalendar
  dateWord : IsDateWord word.written
  wordOf : IsWordOf text.toList word.written
  written : WrittenBehind text.toList word.written position place
  located : (text.toList.drop position).take word.written.length = word.written ↔ position = place
  moved : position = place ∨ ∃ start comparison,
    [⟨start, .comparator comparison⟩, ⟨place, .date word⟩] <:+: placed ∧ position = start + 1

theorem DateWord.inCalendar_literal_iff {word : DateWord} {position : Nat} :
    (word.literal position).InCalendar ↔ word.InCalendar := by
  -- none of the three parts looks at the position
  cases word <;>
    exact ⟨fun h => ⟨h.year, h.month, h.day⟩, fun h => ⟨h.year, h.month, h.day⟩⟩

/-- A date is emitted if it is in the calendar, and else fails for the first thing wrong with it. -/
theorem DateWord.emission_cases {word : DateWord} (h : word.Proper) (position : Nat) (now : Moment)
    (waiting : Option Comparison) :
    (word.InCalendar ∧ ∃ emitted,
      (Item.token (.date (word.literal position))).emission now waiting = .ok emitted) ∨
    (¬word.InCalendar ∧ ∃ fault, (word.literal position).FirstFault fault ∧
      (Item.token (.date (word.literal position))).emission now waiting =
        .error (.impossibleDate (.ofList word.written) position fault)) := by
  have hplain : (word.literal position).Plain := plain_literal h
  have hstorable := hplain.storable
  rcases DateLiteral.range_cases hstorable with ⟨hy, hm, hd, range, hr⟩ | ⟨fault, hf, hr⟩
  · exact .inl ⟨inCalendar_literal_iff.mp ⟨hy, hm, hd⟩, _, Item.emission_date hr now waiting⟩
  · refine .inr ⟨fun hc => ?_, fault, hf, ?_⟩
    · obtain ⟨hy, hm, hd⟩ : (word.literal position).InCalendar := inCalendar_literal_iff.mpr hc
      obtain ⟨range, hok⟩ := DateLiteral.exists_range hstorable hy hm hd
      cases hok.symm.trans hr
    · rw [text_literal, position_literal] at hr
      rw [Item.emission, Token.pieces, hr]
      rfl

/-- Nothing but a date fails to be emitted, unless an amount is too long. -/
theorem Lexeme.date_of_emission {lexeme : Lexeme} {limit : Nat}
    (hl : 19 ≤ limit ∧ limit + 8 ≤ digitLimit)
    (hd : ∀ digits unit, lexeme = .duration digits unit → digits.length ≤ limit) {position : Nat}
    {now : Moment} {waiting : Option Comparison} {failure : Failure}
    (h : (Item.token (lexeme.token position)).emission now waiting = .error failure) :
    ∃ word, lexeme = .date word := by
  have hpieces : (lexeme.token position).pieces now waiting = .error failure :=
    map_eq_error_iff.mp h
  cases lexeme with
  | date word => exact ⟨word, rfl⟩
  | duration digits unit =>
    have hvalue : digitsValue digits < 10 ^ limit :=
      Nat.lt_of_lt_of_le (digitsValue_lt digits)
        (Nat.pow_le_pow_right (by decide) (hd digits unit rfl))
    have hshort : exceedsDigitLimit
        (Duration.epochBefore ⟨digitsValue digits, unit⟩ now) = false :=
      Duration.short_epochBefore (Int.natCast_nonneg _) hvalue hl now
    rw [token, Token.pieces, datePiece_of_short _ hshort] at hpieces
    cases hpieces
  | _ => cases hpieces

theorem liveItems_tokensFrom (behind : Option Nat) (placed : List Placed) :
    liveItems ((tokensFrom behind placed ++ [Token.endOfInput]).map .token) =
      (tokensFrom behind placed).map .token := by
  induction placed generalizing behind with
  | nil => rfl
  | cons first placed ih =>
    have hend : ∀ position, (Item.token (first.lexeme.token position)).isEnd = false := by
      intro position
      cases first.lexeme <;> rfl
    rw [tokensFrom, List.cons_append, List.map_cons, liveItems_cons, if_neg (by simp [hend]), ih,
      List.map_cons]

theorem inCalendar_of_emissions {placed : List Placed} {now : Moment} {texts : List String}
    (hp : ∀ lexeme ∈ placed.map Placed.lexeme, lexeme.Proper)
    (h : emissionsFrom now [] ((tokensFrom none placed).map .token) = texts.map .ok) {place : Nat}
    {word : DateWord} (hm : ⟨place, .date word⟩ ∈ placed) : word.InCalendar := by
  have hproper : (Lexeme.date word).Proper := hp _ (List.mem_map_of_mem hm)
  obtain ⟨front, rest, rfl⟩ := List.append_of_mem hm
  rw [tokensFrom_date, List.map_append, List.map_cons] at h
  obtain ⟨emitted, hemitted⟩ := exists_emission h
  rcases DateWord.emission_cases hproper _ now _ with ⟨hc, -⟩ | ⟨-, fault, -, he⟩
  · exact hc
  · cases hemitted.symm.trans he

section

variable {text : String} {placed : List Placed} {now : Moment}

/-- Compiling the tokens of a text fails at the leftmost date that is not in the calendar. -/
theorem exists_leftmostImpossible (hs : Spells 0 text.toList placed) {limit : Nat}
    (hd : DigitRunsWithin limit text) (hl : 19 ≤ limit ∧ limit + 8 ≤ digitLimit)
    {failure : Failure}
    (h : compileTokens now (tokensFrom none placed ++ [.endOfInput]) = .error failure) :
    ∃ front place word fault, LeftmostImpossible placed front place word ∧
      (word.literal (positionBehind front place)).FirstFault fault ∧
      failure = .impossibleDate (.ofList word.written) (positionBehind front place) fault := by
  have hrun : compileBehind now []
      ((tokensFrom none placed ++ [Token.endOfInput]).map .token) = .error failure := h
  obtain ⟨before, item, after, texts, hsplit, htexts, hfails⟩ := compileBehind_eq_error_iff.mp hrun
  rw [liveItems_tokensFrom] at hsplit
  obtain ⟨tokens, later, htokens, rfl, hlater⟩ := List.map_eq_append_iff.mp hsplit
  obtain ⟨token, rest, rfl, rfl, -⟩ := List.map_eq_cons_iff.mp hlater
  obtain ⟨front, ⟨place, lexeme⟩, more, rfl, rfl, rfl⟩ := exists_lexeme_of_tokensFrom htokens
  have hamount : ∀ digits unit, lexeme = .duration digits unit → digits.length ≤ limit := by
    rintro digits unit rfl
    have hm : .duration digits unit ∈
        (front ++ ⟨place, .duration digits unit⟩ :: more).map Placed.lexeme := by simp
    exact hs.opens.length_le hd hm
  obtain ⟨word, rfl⟩ := Lexeme.date_of_emission hl hamount hfails
  have hproper : ∀ lexeme ∈ front.map Placed.lexeme, lexeme.Proper :=
    fun lexeme hm => hs.proper (by simp [hm])
  have hword : (Lexeme.date word).Proper := hs.proper (by simp)
  rcases DateWord.emission_cases hword (positionBehind front place) now _ with
    ⟨-, emitted, hok⟩ | ⟨hc, fault, hf, he⟩
  · cases hok.symm.trans hfails
  · exact ⟨front, place, word, fault,
      ⟨⟨more, rfl⟩, hc, fun other before hm => inCalendar_of_emissions hproper htexts hm⟩, hf,
      Except.error.inj (hfails.symm.trans he)⟩

theorem LeftmostImpossible.reportsDate (hs : Spells 0 text.toList placed) {front : List Placed}
    {place : Nat} {word : DateWord} (h : LeftmostImpossible placed front place word)
    {fault : CalendarFault} (hf : (word.literal (positionBehind front place)).FirstFault fault) :
    ReportsDate text placed
      (.impossibleDate (.ofList word.written) (positionBehind front place) fault) place
      (positionBehind front place) word := by
  obtain ⟨⟨rest, rfl⟩, himpossible, hpossible⟩ := h
  have hm : .date word ∈ (front ++ ⟨place, .date word⟩ :: rest).map Placed.lexeme := by simp
  have hproper : (Lexeme.date word).Proper := hs.proper hm
  refine ⟨⟨fault, hf, rfl⟩, by simp, himpossible, ?_, ⟨word, hproper, rfl⟩,
    isWordOf_of_spells [] hs (.inl (by simp)) hm rfl, hs.writtenBehind, hs.slice_position_iff, ?_⟩
  · -- a date that is not in front stands at the place or behind it
    intro other before hother hlt
    have hlater := (List.pairwise_cons.mp (List.pairwise_append.mp hs.ordered).2.1).1
    rcases List.mem_append.mp hother with hfront | hrest
    · exact hpossible other before hfront
    · rcases List.mem_cons.mp hrest with he | hrest
      · have hsame : other = place := congrArg Placed.offset he
        omega
      · have hle : place + word.written.length ≤ other := hlater _ hrest
        omega
  · rcases positionBehind_cases front place with he | ⟨before, start, comparison, rfl, he⟩
    · exact .inl he
    · exact .inr ⟨start, comparison, ⟨before, rest, by simp⟩, he⟩

end

/-- Compiling fails for a date if one in the text is not in the calendar, and for nothing else. The
failure reports the leftmost such date. Its position is where that date is written, and the text has
the date there, unless blanks part it from a comparator: then it is directly behind the comparator.
If all dates are in the calendar, there is a filter. -/
theorem Compiler.compile_reports_date {text : String} (h : ∃ tokens, tokenize text = .ok tokens)
    (hd : DigitRunsWithin 4292 text) (compiler : Compiler) (now : Option Moment) :
    ∃ placed, Spells 0 text.toList placed ∧
      (compiler.compileStrictly text now).outcome = (compiler.compile text now).outcome ∧
      ((∃ term position fault,
          (compiler.compile text now).outcome = .error (.impossibleDate term position fault)) ↔
        ∃ place word, ⟨place, .date word⟩ ∈ placed ∧ ¬word.InCalendar) ∧
      (∀ failure, (compiler.compile text now).outcome = .error failure →
        ∃ place position word, ReportsDate text placed failure place position word) ∧
      ((∀ place word, ⟨place, .date word⟩ ∈ placed → word.InCalendar) →
        ∃ output, (compiler.compile text now).outcome = .ok output) := by
  obtain ⟨tokens, htokens⟩ := h
  obtain ⟨expression, hparse, rfl⟩ := tokenize_eq_ok_iff.mp htokens
  obtain ⟨placed, hs, hx⟩ := Expression.parse_eq_ok_iff.mp hparse
  have hcompile : (compiler.compile text now).outcome =
      compileTokens (now.getD compiler.clock) (tokensFrom none placed ++ [.endOfInput]) := by
    rw [compile_of_parse hparse, ← compileTokens_eq, hx.tokens_eq]
  have hstrict : (compiler.compileStrictly text now).outcome =
      (compiler.compile text now).outcome := by
    rw [compileStrictly_outcome, compile_outcome, hparse]
    rfl
  have hreports : ∀ failure, (compiler.compile text now).outcome = .error failure →
      ∃ place position word, ReportsDate text placed failure place position word := by
    intro failure he
    rw [hcompile] at he
    obtain ⟨front, place, word, fault, hleft, hf, rfl⟩ :=
      exists_leftmostImpossible hs hd (by decide) he
    exact ⟨place, _, word, hleft.reportsDate hs hf⟩
  have hinside : ∀ output, (compiler.compile text now).outcome = .ok output →
      ∀ place word, ⟨place, .date word⟩ ∈ placed → word.InCalendar := by
    intro output ho place word hm
    rw [hcompile] at ho
    have hrun : compileBehind (now.getD compiler.clock) []
        ((tokensFrom none placed ++ [Token.endOfInput]).map .token) = .ok output := ho
    obtain ⟨texts, htexts, -⟩ := compileBehind_eq_ok_iff.mp hrun
    rw [liveItems_tokensFrom] at htexts
    exact inCalendar_of_emissions (fun _ hl => hs.proper hl) htexts hm
  refine ⟨placed, hs, hstrict, ⟨?_, ?_⟩, hreports, ?_⟩
  · rintro ⟨term, position, fault, he⟩
    obtain ⟨place, _, word, hr⟩ := hreports _ he
    exact ⟨place, word, hr.member, hr.impossible⟩
  · rintro ⟨place, word, hm, himpossible⟩
    cases ho : (compiler.compile text now).outcome with
    | ok output => exact absurd (hinside output ho place word hm) himpossible
    | error failure =>
      obtain ⟨_, _, _, hr⟩ := hreports failure ho
      obtain ⟨fault, -, rfl⟩ := hr.failure_eq
      exact ⟨_, _, _, rfl⟩
  · intro hall
    cases ho : (compiler.compile text now).outcome with
    | ok output => exact ⟨output, rfl⟩
    | error failure =>
      obtain ⟨place, _, word, hr⟩ := hreports failure ho
      exact absurd (hall place word hr.member) hr.impossible

theorem compile_reports_date_second :
    (∃ tokens, tokenize "vim OR <2019-02-30" = .ok tokens) ∧
      DigitRunsWithin 4292 "vim OR <2019-02-30" ∧
      ∃ placed, Spells 0 "vim OR <2019-02-30".toList placed ∧ ∃ place position word,
        ReportsDate "vim OR <2019-02-30" placed (.impossibleDate "2019-02-30" 8 .dayOutOfRange)
          place position word := by
  have hd : DigitRunsWithin 4292 "vim OR <2019-02-30" := digitRunsWithin_of_length (by decide)
  have hparse : Expression.parse "vim OR <2019-02-30" =
      .ok ⟨.tag "vim", [(.or, .timed (some .less)
        (.date ⟨2019, some 2, some 30, "2019-02-30", 8⟩))]⟩ := eq_ok_of_toOption (by decide +kernel)
  have ht : ∃ tokens, tokenize "vim OR <2019-02-30" = .ok tokens :=
    ⟨_, tokenize_eq_ok_iff.mpr ⟨_, hparse, rfl⟩⟩
  have hfails : ((⟨.startOfDay ⟨2020, 1, 1, by decide, by decide⟩⟩ : Compiler).compile
      "vim OR <2019-02-30" none).outcome =
        .error (.impossibleDate "2019-02-30" 8 .dayOutOfRange) := by
    rw [Compiler.compile_of_parse hparse]
    rfl
  obtain ⟨placed, hs, -, -, hreports, -⟩ := Compiler.compile_reports_date ht hd
    ⟨.startOfDay ⟨2020, 1, 1, by decide, by decide⟩⟩ none
  exact ⟨ht, hd, placed, hs, hreports _ hfails⟩

/-- Behind a comparator and a blank the date is not at the position that the failure gives. -/
theorem spaced_impossible_date_misplaced :
    DigitRunsWithin 4292 "> 2019-02-30" ∧
      ((⟨.startOfDay ⟨2020, 1, 1, by decide, by decide⟩⟩ : Compiler).compile
        "> 2019-02-30" none).outcome = .error (.impossibleDate "2019-02-30" 1 .dayOutOfRange) ∧
      ("> 2019-02-30".toList.drop 1).take "2019-02-30".length ≠ "2019-02-30".toList := by
  have hd : DigitRunsWithin 4292 "> 2019-02-30" := digitRunsWithin_of_length (by decide)
  have hparse : Expression.parse "> 2019-02-30" = .ok ⟨.timed (some .greater)
      (.date ⟨2019, some 2, some 30, "2019-02-30", 1⟩), []⟩ := eq_ok_of_toOption (by decide +kernel)
  refine ⟨hd, ?_, by decide⟩
  rw [Compiler.compile_of_parse hparse]
  rfl

end SearchFilter

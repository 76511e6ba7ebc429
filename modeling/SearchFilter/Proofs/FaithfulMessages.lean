import SearchFilter.Proofs.JournalTrail
import SearchFilter.Proofs.QuotedText

namespace SearchFilter

/-- Controls, formats and separators other than the plain space. -/
def hiddenRanges : List (Nat × Nat) :=
  [(0, 31), (127, 160), (173, 173), (1536, 1541), (1564, 1564), (1757, 1757), (1807, 1807),
   (2192, 2193), (2274, 2274), (5760, 5760), (6158, 6158), (8192, 8207), (8232, 8239),
   (8287, 8292), (8294, 8303), (12288, 12288), (65279, 65279), (65529, 65531), (69821, 69821),
   (69837, 69837), (78896, 78904), (113824, 113827), (119155, 119162), (917505, 917505),
   (917536, 917631)]

theorem exists_range_of_inRanges {ranges : List (Nat × Nat)} {n : Nat}
    (h : inRanges ranges n = true) : ∃ range ∈ ranges, range.1 ≤ n ∧ n ≤ range.2 := by
  induction ranges with
  | nil => cases h
  | cons range rest ih =>
    simp only [inRanges, Bool.and_eq_true, Bool.or_eq_true, decide_eq_true_eq] at h
    obtain ⟨hlow, hhigh | hrest⟩ := h
    · exact ⟨range, List.mem_cons_self, hlow, hhigh⟩
    · obtain ⟨other, hother, hn⟩ := ih hrest
      exact ⟨other, List.mem_cons_of_mem _ hother, hn⟩

/-- Whether a range of code points lies between some ascending ones or behind them. -/
def liesApart (low high : Nat) : List (Nat × Nat) → Bool
  | [] => true
  | range :: rest => high < range.1 || (range.2 < low && liesApart low high rest)

theorem inRanges_of_liesApart {ranges : List (Nat × Nat)} {low high n : Nat}
    (h : liesApart low high ranges) (hn : low ≤ n ∧ n ≤ high) : inRanges ranges n = false := by
  induction ranges with
  | nil => rfl
  | cons range rest ih =>
    simp only [liesApart, Bool.or_eq_true, Bool.and_eq_true, decide_eq_true_eq] at h
    simp only [inRanges, Bool.and_eq_false_iff, Bool.or_eq_false_iff, decide_eq_false_iff_not]
    rcases h with habove | ⟨hbelow, hrest⟩
    · exact .inl (by omega)
    · exact .inr ⟨by omega, ih hrest⟩

theorem not_hidden_of_isPrintable {c : Char} (h : isPrintable c = true) :
    inRanges hiddenRanges c.toNat = false := by
  have hapart : ∀ hidden ∈ hiddenRanges, liesApart hidden.1 hidden.2 printableRanges := by
    decide +kernel
  by_contra hc
  obtain ⟨hidden, hh, hn⟩ := exists_range_of_inRanges ((Bool.not_eq_false _).mp hc)
  cases h.symm.trans (inRanges_of_liesApart (hapart hidden hh) hn)

theorem isPrintable_of_plain {c : Char} (h : 32 ≤ c.toNat ∧ c.toNat ≤ 126) :
    isPrintable c = true := by
  rw [isPrintable, printableRanges, inRanges, decide_eq_true h.1, decide_eq_true h.2]
  rfl

theorem isPrintable_of_mem_toDigits {n : Nat} {c : Char} (h : c ∈ Nat.toDigits 10 n) :
    isPrintable c = true := by
  have hd : c.isDigit = true := List.all_eq_true.mp (all_isDigit_toDigits n) c h
  have hc : 48 ≤ c.toNat ∧ c.toNat ≤ 57 := by
    simp only [Char.isDigit, Bool.and_eq_true, decide_eq_true_eq] at hd
    exact hd
  exact isPrintable_of_plain (by omega)

theorem isPrintable_of_hexDigits {width n : Nat} {c : Char} (h : c ∈ hexDigits width n) :
    isPrintable c = true := by
  have hdigit : ∀ k < 16, isPrintable (Nat.digitChar k) = true := by decide +kernel
  induction width generalizing n with
  | zero => cases h
  | succ width ih =>
    rw [hexDigits, List.mem_append, List.mem_singleton] at h
    rcases h with h | rfl
    · exact ih h
    · exact hdigit _ (Nat.mod_lt _ (by decide))

theorem isPrintable_of_isMark {c : Char} (h : isMark c) : isPrintable c = true := by
  simp only [isMark, Bool.or_eq_true, beq_iff_eq] at h
  rcases h with rfl | rfl <;> exact isPrintable_of_plain (by decide)

theorem isPrintable_of_shortEscape? {letter c : Char} (h : shortEscape? letter = some c) :
    isPrintable letter = true := by
  unfold shortEscape? at h
  split at h <;> first | exact isPrintable_of_plain (by decide) | cases h

theorem isPrintable_of_escapeWidth? {letter : Char} {width : Nat}
    (h : escapeWidth? letter = some width) : isPrintable letter = true := by
  unfold escapeWidth? at h
  split at h <;> first | exact isPrintable_of_plain (by decide) | cases h

/-- Whatever a character is, it is written with printable ones. -/
theorem isPrintable_of_quoteChar {mark c d : Char} (hm : isMark mark) (h : d ∈ quoteChar mark c) :
    isPrintable d = true := by
  have hslash : isPrintable '\\' = true := isPrintable_of_plain (by decide)
  rcases quoteChar_cases hm c with ⟨letter, hq, hshort⟩ | ⟨hq, -, -, hc⟩ |
    ⟨letter, width, hq, hw, -⟩
  · simp only [hq, List.mem_cons, List.not_mem_nil, or_false] at h
    rcases h with rfl | rfl
    · exact hslash
    · exact isPrintable_of_shortEscape? hshort
  · simp only [hq, List.mem_singleton] at h
    exact h ▸ hc
  · simp only [hq, List.mem_cons] at h
    rcases h with rfl | rfl | h
    · exact hslash
    · exact isPrintable_of_escapeWidth? hw
    · exact isPrintable_of_hexDigits h

/-- A message shows as one line of visible characters and plain spaces. -/
structure ShowsPlainly (message : String) : Prop where
  printable : ∀ c ∈ message.toList, isPrintable c = true
  not_hidden : ∀ c ∈ message.toList, inRanges hiddenRanges c.toNat = false

namespace ShowsPlainly

theorem of_printable {message : String} (h : ∀ c ∈ message.toList, isPrintable c = true) :
    ShowsPlainly message where
  printable := h
  not_hidden c hc := not_hidden_of_isPrintable (h c hc)

/-- A constant message is checked by running through it. -/
theorem of_all {message : String} (h : message.toList.all isPrintable = true) :
    ShowsPlainly message :=
  of_printable (List.all_eq_true.mp h)

theorem append {first second : String} (hf : ShowsPlainly first) (hs : ShowsPlainly second) :
    ShowsPlainly (first ++ second) := by
  refine of_printable fun c hc => ?_
  rw [String.toList_append, List.mem_append] at hc
  exact hc.elim (hf.printable c) (hs.printable c)

end ShowsPlainly

theorem showsPlainly_quoted (text : String) : ShowsPlainly (quoted text) := by
  have hm : isMark (quoteMark text.toList) := isMark_quoteMark text.toList
  refine .of_printable fun c hc => ?_
  rw [quoted, String.toList_ofList, quoteChars] at hc
  rcases List.mem_append.mp hc with hc | hc
  · rcases List.mem_cons.mp hc with rfl | hc
    · exact isPrintable_of_isMark hm
    · obtain ⟨d, -, hd⟩ := List.mem_flatMap.mp hc
      exact isPrintable_of_quoteChar hm hd
  · cases List.mem_singleton.mp hc
    exact isPrintable_of_isMark hm

theorem showsPlainly_toString_nat (n : Nat) : ShowsPlainly (toString n) := by
  refine .of_printable fun c hc => ?_
  rw [Nat.toString_eq_repr, Nat.toList_repr] at hc
  exact isPrintable_of_mem_toDigits hc

theorem showsPlainly_toString_int (n : Int) : ShowsPlainly (toString n) := by
  refine .of_printable fun c hc => ?_
  rw [toList_toString_int] at hc
  split at hc
  next => exact isPrintable_of_mem_toDigits hc
  next =>
    rcases List.mem_cons.mp hc with rfl | hc
    · exact isPrintable_of_plain (by decide)
    · exact isPrintable_of_mem_toDigits hc

theorem Expectation.showsPlainly_reason (expected : Expectation) :
    ShowsPlainly expected.reason := by
  cases expected <;> exact .of_all (by decide +kernel)

theorem CalendarFault.showsPlainly_reason (fault : CalendarFault) : ShowsPlainly fault.reason := by
  cases fault with
  | yearOutOfRange year =>
    have hbefore : ShowsPlainly "year " := .of_all (by decide +kernel)
    have hbehind : ShowsPlainly " is out of range" := .of_all (by decide +kernel)
    exact (hbefore.append (showsPlainly_toString_int year)).append hbehind
  | monthOutOfRange => exact .of_all (by decide +kernel)
  | dayOutOfRange => exact .of_all (by decide +kernel)

theorem Failure.showsPlainly_impossibleDate {failure : Failure} (h : failure.IsImpossibleDate) :
    ShowsPlainly failure.message := by
  obtain ⟨term, position, fault, rfl⟩ := h
  have hopening : ShowsPlainly "Invalid date " := .of_all (by decide +kernel)
  have hplace : ShowsPlainly " at position " := .of_all (by decide +kernel)
  have hcolon : ShowsPlainly ": " := .of_all (by decide +kernel)
  exact ((((hopening.append (showsPlainly_quoted term)).append hplace).append
    (showsPlainly_toString_int position)).append hcolon).append fault.showsPlainly_reason

/-- The first marks of a message are around a text, and it shows plainly outside them. -/
def NamesFirst (text message : String) : Prop :=
  ∃ preface rest, message = preface ++ quoted text ++ rest ∧
    preface.toList.all (!isMark ·) ∧ ShowsPlainly preface ∧ ShowsPlainly rest

namespace NamesFirst

variable {text message : String}

theorem showsPlainly (h : NamesFirst text message) : ShowsPlainly message := by
  obtain ⟨preface, rest, rfl, -, hpreface, hrest⟩ := h
  exact (hpreface.append (showsPlainly_quoted text)).append hrest

theorem namedText?_eq (h : NamesFirst text message) : namedText? message = some text := by
  obtain ⟨preface, rest, rfl, hmarks, -, -⟩ := h
  exact namedText?_quoted hmarks text rest

theorem of_malformed (text : String) (column : Nat) (expected : Expectation) :
    NamesFirst text (Failure.malformed text column expected).message := by
  have hplace : ShowsPlainly " at column " := .of_all (by decide +kernel)
  have hcolon : ShowsPlainly ": " := .of_all (by decide +kernel)
  refine ⟨"Invalid filter ", " at column " ++ toString column ++ ": " ++ expected.reason, ?_,
    by decide +kernel, .of_all (by decide +kernel),
    ((hplace.append (showsPlainly_toString_nat column)).append hcolon).append
      expected.showsPlainly_reason⟩
  change "Invalid filter " ++ quoted text ++ " at column " ++ toString column ++ ": " ++
    expected.reason = _
  simp only [String.append_assoc]

/-- Every record of what compiling a text came to names the text first. -/
theorem of_trail {outcome : Except Failure String} {entries : List Entry} {entry : Entry}
    (h : Trail text outcome entries) (he : entry ∈ entries) : NamesFirst text entry.message := by
  have hcolon : ShowsPlainly ": " := .of_all (by decide +kernel)
  cases h with
  | @dropped _ expected _ =>
    cases List.mem_singleton.mp he
    exact ⟨"Dropping filter ", ": " ++ expected.reason, by simp only [String.append_assoc],
      by decide +kernel, .of_all (by decide +kernel),
      hcolon.append expected.showsPlainly_reason⟩
  | @compiled output _ =>
    cases List.mem_singleton.mp he
    have harrow : ShowsPlainly " -> " := .of_all (by decide +kernel)
    exact ⟨"Compiled filter ", " -> " ++ quoted output, by simp only [String.append_assoc],
      by decide +kernel, .of_all (by decide +kernel),
      harrow.append (showsPlainly_quoted output)⟩
  | @rejected failure hdate =>
    cases List.mem_singleton.mp he
    exact ⟨"Rejecting filter ", ": " ++ failure.message, by simp only [String.append_assoc],
      by decide +kernel, .of_all (by decide +kernel),
      hcolon.append (Failure.showsPlainly_impossibleDate hdate)⟩
  | silent => cases he

theorem of_notApplied (text : String) : NamesFirst text ("No filter applied for " ++ quoted text) :=
  ⟨"No filter applied for ", "", String.append_empty.symm, by decide +kernel,
    .of_all (by decide +kernel), .of_all (by decide +kernel)⟩

end NamesFirst

/-- The failures that a text leads to, however it is read. -/
inductive Reports (text : String) (failure : Failure) : Prop
  | tokenize : tokenize text = .error failure → Reports text failure
  | compile {compiler : Compiler} {now : Option Moment} :
      (compiler.compile text now).outcome = .error failure → Reports text failure
  | compileStrictly {compiler : Compiler} {now : Option Moment} :
      (compiler.compileStrictly text now).outcome = .error failure → Reports text failure
  | processFilter {query : SearchQuery} {compiler : Compiler} {now : Option Moment} :
      (query.processFilter compiler text now).2.outcome = .error failure → Reports text failure

/-- The records that are written about a text, however it is read. -/
inductive Records (text : String) (entry : Entry) : Prop
  | tokenizeOrDrop : entry ∈ (tokenizeOrDrop text).entries → Records text entry
  | compile {compiler : Compiler} {now : Option Moment} :
      entry ∈ (compiler.compile text now).entries → Records text entry
  | compileStrictly {compiler : Compiler} {now : Option Moment} :
      entry ∈ (compiler.compileStrictly text now).entries → Records text entry
  | processFilter {query : SearchQuery} {compiler : Compiler} {now : Option Moment} :
      entry ∈ (query.processFilter compiler text now).2.entries → Records text entry

/-- The messages that are to name a text: of its failure as malformed and of all its records. -/
inductive Concerns (text message : String) : Prop
  | failure {failure : Failure} : Reports text failure → failure.IsMalformed →
      failure.message = message → Concerns text message
  | record {entry : Entry} : Records text entry → entry.message = message → Concerns text message

theorem Compiler.not_compile_malformed {compiler : Compiler} {text other : String}
    {now : Option Moment} {column : Nat} {expected : Expectation} :
    (compiler.compile text now).outcome ≠ .error (.malformed other column expected) := by
  intro hc
  obtain ⟨-, -, ⟨_, -, -, hempty⟩ | ⟨hsame, hsound⟩⟩ := compiler.trail_cases text now
  · cases hc.symm.trans hempty
  · rw [hsame] at hsound
    exact hsound _ hc ⟨_, _, _, rfl⟩

theorem Compiler.text_of_compileStrictly_malformed {compiler : Compiler} {text other : String}
    {now : Option Moment} {column : Nat} {expected : Expectation}
    (h : (compiler.compileStrictly text now).outcome = .error (.malformed other column expected)) :
    other = text := by
  rcases Expression.parse_cases text with ⟨_, hp⟩ | ⟨_, _, hp⟩ | ⟨_, hp⟩
  · have hcases : compiler.Compiles text now ∨ compiler.Fails text now :=
      compiles_or_fails_of_parse hp
    rcases hcases with ⟨_, _, -, hok⟩ | ⟨failure, hsound, -, hfails⟩
    · cases h.symm.trans hok
    · cases h.symm.trans hfails
      exact absurd rfl (hsound _ _ _)
  · rw [compileStrictly_outcome, hp] at h
    cases h
    rfl
  · rw [compileStrictly_outcome, hp] at h
    cases h

/-- A text is reported as malformed under its own name. -/
theorem Reports.text_eq {text other : String} {column : Nat} {expected : Expectation}
    (h : Reports text (.malformed other column expected)) : other = text := by
  cases h with
  | tokenize h =>
    rcases Expression.parse_cases text with ⟨_, hp⟩ | ⟨_, _, hp⟩ | ⟨_, hp⟩
    · rw [SearchFilter.tokenize, hp] at h
      cases h
    · rw [SearchFilter.tokenize, hp] at h
      cases h
      rfl
    · rw [SearchFilter.tokenize, hp] at h
      cases h
  | compile h => exact absurd h Compiler.not_compile_malformed
  | compileStrictly h => exact Compiler.text_of_compileStrictly_malformed h
  | @processFilter query compiler now h =>
    obtain ⟨-, -, herror⟩ := query.entries_processFilter compiler text now
    exact absurd ((herror _).mp h) Compiler.not_compile_malformed

/-- What reading a text records is a part of what compiling it does. -/
theorem Compiler.entries_compile (compiler : Compiler) (text : String) (now : Option Moment) :
    (tokenizeOrDrop text).entries ⊆ (compiler.compile text now).entries := by
  intro entry he
  rw [compile]
  cases hdrop : (tokenizeOrDrop text).outcome with
  | ok tokens =>
    rw [Journaled.bind_of_ok hdrop, Journaled.entries, List.map_append]
    exact List.mem_append_left _ he
  | error failure =>
    rw [Journaled.bind_of_error hdrop]
    exact he

theorem NamesFirst.of_records {text : String} {entry : Entry} (h : Records text entry) :
    NamesFirst text entry.message := by
  have of_compile : ∀ {compiler : Compiler} {now : Option Moment},
      entry ∈ (compiler.compile text now).entries → NamesFirst text entry.message :=
    fun he => .of_trail (Compiler.trail_cases _ text _).1 he
  cases h with
  | tokenizeOrDrop he =>
    exact of_compile (Compiler.entries_compile
      ⟨.startOfDay ⟨1970, 1, 1, by decide, by decide⟩⟩ text none he)
  | compile he => exact of_compile he
  | compileStrictly he => exact .of_trail (Compiler.trail_cases _ text _).2.1 he
  | @processFilter query compiler now he =>
    obtain ⟨hempty, hfilter, -⟩ := query.entries_processFilter compiler text now
    by_cases hc : (compiler.compile text now).outcome = .ok ""
    · rw [hempty hc, List.mem_append, List.mem_singleton] at he
      rcases he with he | rfl
      · exact of_compile he
      · exact .of_notApplied text
    · rw [hfilter hc] at he
      exact of_compile he

theorem NamesFirst.of_concerns {text message : String} (h : Concerns text message) :
    NamesFirst text message := by
  cases h with
  | failure hr hm he =>
    obtain ⟨other, column, expected, rfl⟩ := hm
    cases hr.text_eq
    exact he ▸ .of_malformed text column expected
  | record hr he => exact he ▸ .of_records hr

/-- Whatever a text holds, the messages of its failures and records show plainly, on one line. Of
its failure as malformed and of every record, the first marks are around the text, which is read
back from between them. So no other text has the same message. -/
theorem messages_name_text (text : String) :
    (∀ failure, Reports text failure → failure.IsMalformed ∨ failure.IsImpossibleDate →
      ShowsPlainly failure.message) ∧
    (∀ entry, Records text entry → ShowsPlainly entry.message) ∧
    (∀ message, Concerns text message → namedText? message = some text) ∧
    ∀ other message, Concerns text message → Concerns other message → other = text := by
  refine ⟨fun failure hr hf => ?_, fun entry hr => (NamesFirst.of_records hr).showsPlainly,
    fun message hc => (NamesFirst.of_concerns hc).namedText?_eq, fun other message hc ho => ?_⟩
  · rcases hf with hm | hd
    · exact (NamesFirst.of_concerns (.failure hr hm rfl)).showsPlainly
    · exact Failure.showsPlainly_impossibleDate hd
  · have htext : namedText? message = some text := (NamesFirst.of_concerns hc).namedText?_eq
    have hother : namedText? message = some other := (NamesFirst.of_concerns ho).namedText?_eq
    exact Option.some.inj (hother.symm.trans htext)

/-- A text of marks, a backslash, line breaks and a bell, and a date in no calendar. -/
theorem messages_name_marks_and_controls :
    let text := "\x27\x22\\\n\x07\u2028"
    (∃ failure, Reports text failure ∧ failure.IsMalformed ∧ ShowsPlainly failure.message ∧
      namedText? failure.message = some text) ∧
    (∃ failure, Reports "2019-13\n" failure ∧ failure.IsImpossibleDate ∧
      ShowsPlainly failure.message) ∧
    (∃ entry, Records text entry ∧ ShowsPlainly entry.message ∧
      namedText? entry.message = some text) ∧
    ∀ message, Concerns text message → ¬Concerns "\\n" message := by
  intro text
  let compiler : Compiler := ⟨.startOfDay ⟨2020, 1, 1, by decide, by decide⟩⟩
  obtain ⟨hfailure, hentry, hnamed, hsame⟩ := messages_name_text text
  obtain ⟨hdate, -⟩ := messages_name_text "2019-13\n"
  have hdropped : (compiler.compile text none).outcome = .ok "" :=
    eq_ok_of_toOption (by decide +kernel)
  obtain ⟨column, expected, hp⟩ := Compiler.compile_eq_empty_iff.mp hdropped
  have htext : tokenize text = .error (.malformed text column expected) := by
    rw [tokenize, hp]
    rfl
  have hreports : Reports text (.malformed text column expected) := .tokenize htext
  have hmalformed : (Failure.malformed text column expected).IsMalformed := ⟨_, _, _, rfl⟩
  have hentries : (compiler.compile text none).entries = [(Event.dropped text expected).entry] := by
    rw [Compiler.compile_of_malformed htext]
    rfl
  have hrecords : Records text (Event.dropped text expected).entry :=
    .compile (hentries ▸ List.mem_singleton_self _)
  have hparse : Expression.parse "2019-13\n" =
      .ok ⟨.timed none (.date ⟨2019, some 13, none, "2019-13", 0⟩), []⟩ :=
    eq_ok_of_toOption (by decide +kernel)
  have himpossible : (compiler.compile "2019-13\n" none).outcome =
      .error (.impossibleDate "2019-13" 0 .monthOutOfRange) := by
    rw [Compiler.compile_of_parse hparse]
    rfl
  refine ⟨⟨_, hreports, hmalformed, hfailure _ hreports (.inl hmalformed),
      hnamed _ (.failure hreports hmalformed rfl)⟩,
    ⟨_, .compile himpossible, ⟨_, _, _, rfl⟩, hdate _ (.compile himpossible) (.inr ⟨_, _, _, rfl⟩)⟩,
    ⟨_, hrecords, hentry _ hrecords, hnamed _ (.record hrecords rfl)⟩, fun message hc ho => ?_⟩
  exact absurd (hsame "\\n" message hc ho) (by decide)

end SearchFilter

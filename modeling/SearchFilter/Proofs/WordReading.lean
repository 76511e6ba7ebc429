import SearchFilter.Proofs.LexemeHead

namespace SearchFilter

theorem isDigitRun_ne_nil {count : Nat} {cs : List Char} (h : IsDigitRun (count + 1) cs) :
    cs ≠ [] := List.ne_nil_of_length_eq_add_one h.1

theorem all_isWordPart_of_digits {cs : List Char} (h : cs.all isDigit) : cs.all isWordPart :=
  List.all_eq_true.mpr fun c hc => isWordPart_of_isDigit (List.all_eq_true.mp h c hc)

namespace DateWord

theorem isWord_written {word : DateWord} (h : word.Proper) : isWord word.written := by
  have hyphen : isWordPart '-' := by decide
  cases word with
  | year y => exact isWord_of_digits (isDigitRun_ne_nil h) h.2
  | month y m =>
    apply isWord_append (isWord_of_digits (isDigitRun_ne_nil h.1) h.1.2)
    simp [hyphen, all_isWordPart_of_digits h.2.2]
  | day y m d =>
    apply isWord_append
    · apply isWord_append (isWord_of_digits (isDigitRun_ne_nil h.1) h.1.2)
      simp [hyphen, all_isWordPart_of_digits h.2.1.2]
    · simp [hyphen, all_isWordPart_of_digits h.2.2.2]

theorem length_written {word : DateWord} (h : word.Proper) :
    word.written.length = match word with | .year _ => 4 | .month _ _ => 7 | .day _ _ _ => 10 := by
  cases word with
  | year y => exact h.1
  | month y m => simp [written, h.1.1, h.2.1]
  | day y m d => simp [written, h.1.1, h.2.1.1, h.2.2.1]

/-- A word of date shape is cut into its runs in one way only. -/
theorem written_inj {word other : DateWord} (hw : word.Proper) (ho : other.Proper)
    (h : word.written = other.written) : word = other := by
  have hlen := congrArg List.length h
  rw [length_written hw, length_written ho] at hlen
  cases word with
  | year y =>
    cases other with
    | year y' => exact congrArg year h
    | month y' m' => simp at hlen
    | day y' m' d' => simp at hlen
  | month y m =>
    cases other with
    | year y' => simp at hlen
    | month y' m' =>
      obtain ⟨rfl, ht⟩ := List.append_inj h (hw.1.1.trans ho.1.1.symm)
      cases ht
      rfl
    | day y' m' d' => simp at hlen
  | day y m d =>
    cases other with
    | year y' => simp at hlen
    | month y' m' => simp at hlen
    | day y' m' d' =>
      have hl : (y ++ '-' :: m).length = (y' ++ '-' :: m').length := by
        simp [hw.1.1, ho.1.1, hw.2.1.1, ho.2.1.1]
      obtain ⟨hym, ht⟩ := List.append_inj h hl
      obtain ⟨rfl, hm⟩ := List.append_inj hym (hw.1.1.trans ho.1.1.symm)
      cases ht
      cases hm
      rfl

theorem head_isDigit {word : DateWord} (h : word.Proper) :
    ∃ c rest, word.written = c :: rest ∧ isDigit c := by
  have hy : ∃ y more, word.written = y ++ more ∧ IsDigitRun 4 y := by
    cases word with
    | year y => exact ⟨y, [], by simp [written], h⟩
    | month y m => exact ⟨y, _, rfl, h.1⟩
    | day y m d => exact ⟨y, '-' :: m ++ '-' :: d, by simp [written], h.1⟩
  obtain ⟨y, more, he, hr⟩ := hy
  cases y with
  | nil => exact absurd rfl (isDigitRun_ne_nil hr)
  | cons c rest =>
    exact ⟨c, rest ++ more, he, List.all_eq_true.mp hr.2 c (by simp)⟩

theorem last_isDigit {word : DateWord} (h : word.Proper) :
    ∃ front c, word.written = front ++ [c] ∧ isDigit c := by
  have hl : ∃ front count run, word.written = front ++ run ∧ IsDigitRun (count + 1) run := by
    cases word with
    | year y => exact ⟨[], 3, y, rfl, h⟩
    | month y m => exact ⟨y ++ ['-'], 1, m, by simp [written], h.2⟩
    | day y m d => exact ⟨y ++ '-' :: m ++ ['-'], 1, d, by simp [written], h.2.2⟩
  obtain ⟨front, count, run, he, hr⟩ := hl
  have hne := isDigitRun_ne_nil hr
  refine ⟨front ++ run.dropLast, run.getLast hne, ?_, ?_⟩
  · rw [he, List.append_assoc, List.dropLast_concat_getLast hne]
  · exact List.all_eq_true.mp hr.2 _ (List.getLast_mem hne)

end DateWord

theorem isWord_connective (connective : Connective) : isWord connective.word := by
  cases connective <;> decide

theorem isWord_duration {digits : List Char} (unit : DurationUnit) (hne : digits ≠ [])
    (hd : digits.all isDigit) : isWord (digits ++ [unit.suffix]) := by
  apply isWord_append (isWord_of_digits hne hd)
  simp [isWordPart_of_isWordStart (isWordStart_suffix unit)]

/-- The unit at the end tells a duration from a date. -/
theorem not_isDurationWord_of_isDateWord {cs : List Char} (h : IsDateWord cs) :
    ¬IsDurationWord cs := by
  intro hx
  obtain ⟨digits, unit, _, _, he⟩ := hx
  obtain ⟨word, hp, rfl⟩ := h
  obtain ⟨front, c, hl, hc⟩ := DateWord.last_isDigit hp
  rw [hl] at he
  have hs : unit.suffix = c := by simpa using (List.append_inj' he rfl).2
  rw [← hs, isDigit_suffix] at hc
  simp at hc

theorem isDigit_head_of_isDurationWord {cs : List Char} (h : IsDurationWord cs) :
    ∃ c rest, cs = c :: rest ∧ isDigit c := by
  obtain ⟨digits, unit, hne, hd, rfl⟩ := h
  cases digits with
  | nil => exact absurd rfl hne
  | cons c rest => exact ⟨c, rest ++ [unit.suffix], rfl, List.all_eq_true.mp hd c (by simp)⟩

theorem not_isConnectiveWord_of_digit {c : Char} {rest : List Char} (h : isDigit c) :
    ¬IsConnectiveWord (c :: rest) := by
  intro hx
  obtain ⟨connective, he⟩ := hx
  have ha : isDigit 'A' = false := by decide
  have ho : isDigit 'O' = false := by decide
  cases connective with
  | and => cases he; simp [ha] at h
  | or => cases he; simp [ho] at h

namespace Lexeme

theorem isWord_written {lexeme : Lexeme} (hp : lexeme.Proper) (hl : lexeme.lead = none) :
    isWord lexeme.written := by
  cases lexeme with
  | comparator c => simp [lead] at hl
  | connective c => exact isWord_connective c
  | date word => exact DateWord.isWord_written hp
  | duration digits unit => exact isWord_duration unit hp.1 hp.2
  | tag name => exact hp.1
  | notTag name => simp [lead] at hl

/-- What a word is depends on its characters alone. -/
theorem written_inj {lexeme other : Lexeme} (hp : lexeme.Proper) (ho : other.Proper)
    (hl : lexeme.lead = none) (hlo : other.lead = none) (h : lexeme.written = other.written) :
    lexeme = other := by
  cases lexeme with
  | comparator c => simp [lead] at hl
  | notTag name => simp [lead] at hl
  | tag name =>
    cases other with
    | comparator c => simp [lead] at hlo
    | notTag name => simp [lead] at hlo
    | tag name' => exact congrArg tag h
    | date word => exact absurd ⟨word, ho, h.symm⟩ hp.2.1
    | duration digits unit => exact absurd ⟨digits, unit, ho.1, ho.2, h.symm⟩ hp.2.2.1
    | connective c => exact absurd ⟨c, h.symm⟩ hp.2.2.2
  | date word =>
    have hw : IsDateWord word.written := ⟨word, hp, rfl⟩
    cases other with
    | comparator c => simp [lead] at hlo
    | notTag name => simp [lead] at hlo
    | tag name => exact absurd ⟨word, hp, h⟩ ho.2.1
    | date word' => exact congrArg date (DateWord.written_inj hp ho h)
    | duration digits unit =>
      exact absurd ⟨digits, unit, ho.1, ho.2, h.symm⟩ (not_isDurationWord_of_isDateWord hw)
    | connective c =>
      obtain ⟨d, rest, he, hd⟩ := DateWord.head_isDigit hp
      exact absurd ⟨c, h.symm.trans he⟩ (not_isConnectiveWord_of_digit hd)
  | duration digits unit =>
    have hw : IsDurationWord (digits ++ [unit.suffix]) := ⟨digits, unit, hp.1, hp.2, rfl⟩
    cases other with
    | comparator c => simp [lead] at hlo
    | notTag name => simp [lead] at hlo
    | tag name => exact absurd ⟨digits, unit, hp.1, hp.2, h⟩ ho.2.2.1
    | date word => exact absurd hw (not_isDurationWord_of_isDateWord ⟨word, ho, h.symm⟩)
    | duration digits' unit' =>
      obtain ⟨rfl, hs⟩ := List.append_inj' h rfl
      cases suffix_inj (List.cons.inj hs).1
      rfl
    | connective c =>
      obtain ⟨d, rest, he, hd⟩ := isDigit_head_of_isDurationWord hw
      exact absurd ⟨c, h.symm.trans he⟩ (not_isConnectiveWord_of_digit hd)
  | connective c =>
    cases other with
    | comparator c => simp [lead] at hlo
    | notTag name => simp [lead] at hlo
    | tag name => exact absurd ⟨c, h⟩ ho.2.2.2
    | date word =>
      obtain ⟨d, rest, he, hd⟩ := DateWord.head_isDigit ho
      exact absurd ⟨c, h.trans he⟩ (not_isConnectiveWord_of_digit hd)
    | duration digits unit =>
      obtain ⟨d, rest, he, hd⟩ := isDigit_head_of_isDurationWord ⟨digits, unit, ho.1, ho.2, rfl⟩
      exact absurd ⟨c, h.trans he⟩ (not_isConnectiveWord_of_digit hd)
    | connective c' => exact congrArg connective (Connective.word_inj h)

theorem isWordStart_head {lexeme : Lexeme} {cs rest : List Char} (h : lexeme.Heads cs rest)
    (hl : lexeme.lead = none) : ∃ c tail, cs = c :: tail ∧ isWordStart c := by
  have hw := isWord_written h.proper hl
  rw [h.split]
  cases hc : lexeme.written with
  | nil => simp [hc, isWord] at hw
  | cons c tail =>
    simp only [hc, isWord, Bool.and_eq_true] at hw
    exact ⟨c, tail ++ rest, rfl, hw.1⟩

theorem head_of_lead {lexeme : Lexeme} {cs rest : List Char} {c : Char}
    (h : lexeme.Heads cs rest) (hl : lexeme.lead = some c) : ∃ tail, cs = c :: tail := by
  rw [h.split]
  cases lexeme with
  | comparator comparison => exact ⟨rest, by simpa [lead, written] using hl⟩
  | notTag name => exact ⟨name ++ rest, by simpa [lead, written] using hl⟩
  | _ => simp [lead] at hl

theorem not_isWordStart_lead {lexeme : Lexeme} {c : Char} (h : lexeme.lead = some c) :
    isWordStart c = false := by
  have hg : isWordStart '>' = false := by decide
  have hl : isWordStart '<' = false := by decide
  have hn : isWordStart '!' = false := by decide
  cases lexeme with
  | comparator comparison =>
    cases comparison with
    | greater => cases Option.some.inj h; exact hg
    | less => cases Option.some.inj h; exact hl
  | notTag name => cases Option.some.inj h; exact hn
  | _ => simp [lead] at h

/-- The first character of a text decides whether a word, a negated one or a comparator begins
there. -/
theorem Heads.lead_eq {lexeme other : Lexeme} {cs rest tail : List Char}
    (h : lexeme.Heads cs rest) (ho : other.Heads cs tail) : lexeme.lead = other.lead := by
  cases hl : lexeme.lead with
  | none =>
    obtain ⟨c, more, rfl, hs⟩ := isWordStart_head h hl
    cases hlo : other.lead with
    | none => rfl
    | some d =>
      obtain ⟨_, he⟩ := head_of_lead ho hlo
      cases he
      simp [not_isWordStart_lead hlo] at hs
  | some c =>
    obtain ⟨more, rfl⟩ := head_of_lead h hl
    cases hlo : other.lead with
    | none =>
      obtain ⟨_, _, he, hs⟩ := isWordStart_head ho hlo
      cases he
      simp [not_isWordStart_lead hl] at hs
    | some d =>
      obtain ⟨_, he⟩ := head_of_lead ho hlo
      cases he
      rfl

theorem Heads.boundary {lexeme : Lexeme} {cs rest : List Char} (h : lexeme.Heads cs rest)
    (hl : lexeme.lead = none) : atBoundary rest :=
  h.whole fun c he => by simp [he, lead] at hl

/-- At most one lexeme stands at the head of a text. -/
theorem Heads.unique {lexeme other : Lexeme} {cs rest tail : List Char}
    (h : lexeme.Heads cs rest) (ho : other.Heads cs tail) : lexeme = other ∧ rest = tail := by
  have hlead := h.lead_eq ho
  have hsplit := h.split.symm.trans ho.split
  cases hl : lexeme.lead with
  | none =>
    have hlo := hlead.symm.trans hl
    have hw := all_isWordPart_of_isWord (isWord_written h.proper hl)
    have hwo := all_isWordPart_of_isWord (isWord_written ho.proper hlo)
    obtain ⟨he, hr⟩ := run_unique hw hwo (h.boundary hl) (ho.boundary hlo) hsplit
    exact ⟨written_inj h.proper ho.proper hl hlo he, hr⟩
  | some c =>
    rw [hl] at hlead
    cases lexeme with
    | comparator comparison =>
      cases other with
      | comparator comparison' =>
        cases comparison <;> cases comparison' <;> simp_all [lead, written, Comparison.symbol]
      | notTag name => cases comparison <;> simp_all [lead, Comparison.symbol]
      | _ => simp [lead] at hlead
    | notTag name =>
      cases other with
      | comparator comparison => cases comparison <;> simp_all [lead, Comparison.symbol]
      | notTag name' =>
        have hw := all_isWordPart_of_isWord h.proper
        have hwo := all_isWordPart_of_isWord ho.proper
        obtain ⟨rfl, hr⟩ := run_unique hw hwo (h.whole (by simp)) (ho.whole (by simp))
          (List.cons.inj hsplit).2
        exact ⟨rfl, hr⟩
      | _ => simp [lead] at hlead
    | _ => simp [lead] at hl

theorem read?_eq_or (cs : List Char) :
    read? cs = ((day? cs).or <| (month? cs).or <| (year? cs).or <| (duration? cs).or <|
      (connective? cs).or <| (tag? cs).or <| (notTag? cs).or <| comparator? cs) := by
  have first : ∀ (reader : List Char → Option (Lexeme × List Char)) readers,
      (reader :: readers).findSome? (· cs) = (reader cs).or (readers.findSome? (· cs)) := by
    intro reader readers
    cases h : reader cs <;> simp [h]
  simp only [read?, wordReaders, List.cons_append, List.nil_append, first, List.findSome?_nil,
    Option.or_none]

/-- A word that no reading before that of a tag takes to its end is a tag. -/
theorem isTagWord_of_refused {name rest : List Char} (hw : isWord name) (hb : atBoundary rest)
    (hday : day? (name ++ rest) = none) (hmonth : month? (name ++ rest) = none)
    (hyear : year? (name ++ rest) = none) (hduration : duration? (name ++ rest) = none)
    (hconnective : connective? (name ++ rest) = none) : IsTagWord name := by
  refine ⟨hw, ?_, ?_, ?_⟩
  · intro hd
    obtain ⟨word, hp, rfl⟩ := hd
    have hh : (date word).Heads (word.written ++ rest) rest := ⟨hp, rfl, fun _ => hb⟩
    cases word with
    | year y => simp [year?_eq_some_iff.mpr ⟨y, rfl, hh⟩] at hyear
    | month y m => simp [month?_eq_some_iff.mpr ⟨y, m, rfl, hh⟩] at hmonth
    | day y m d => simp [day?_eq_some_iff.mpr ⟨y, m, d, rfl, hh⟩] at hday
  · intro hd
    obtain ⟨digits, unit, hne, hall, rfl⟩ := hd
    have hh : (duration digits unit).Heads (digits ++ [unit.suffix] ++ rest) rest :=
      ⟨⟨hne, hall⟩, rfl, fun _ => hb⟩
    rw [duration?_eq_some_iff.mpr ⟨digits, unit, rfl, hh⟩] at hduration
    simp at hduration
  · intro hc
    obtain ⟨c, rfl⟩ := hc
    have hh : (connective c).Heads (c.word ++ rest) rest := ⟨trivial, rfl, fun _ => hb⟩
    rw [connective?_eq_some_iff.mpr ⟨c, rfl, hh⟩] at hconnective
    simp at hconnective

/-- Of the readings of a word, the first one that takes it to its end is what the whole word is. -/
theorem heads_of_read? {cs rest : List Char} {lexeme : Lexeme}
    (h : read? cs = some (lexeme, rest)) : lexeme.Heads cs rest := by
  rw [read?_eq_or] at h
  simp only [Option.or_eq_some_iff] at h
  rcases h with h | ⟨hday, h⟩
  · obtain ⟨_, _, _, _, hh⟩ := day?_eq_some_iff.mp h
    exact hh
  rcases h with h | ⟨hmonth, h⟩
  · obtain ⟨_, _, _, hh⟩ := month?_eq_some_iff.mp h
    exact hh
  rcases h with h | ⟨hyear, h⟩
  · obtain ⟨_, _, hh⟩ := year?_eq_some_iff.mp h
    exact hh
  rcases h with h | ⟨hduration, h⟩
  · obtain ⟨_, _, _, hh⟩ := duration?_eq_some_iff.mp h
    exact hh
  rcases h with h | ⟨hconnective, h⟩
  · obtain ⟨_, _, hh⟩ := connective?_eq_some_iff.mp h
    exact hh
  rcases h with h | ⟨_, h⟩
  · obtain ⟨_, name, rfl, hw, rfl, hb⟩ := tag?_eq_some_iff.mp h
    exact ⟨isTagWord_of_refused hw hb hday hmonth hyear hduration hconnective, rfl, fun _ => hb⟩
  rcases h with h | ⟨_, h⟩
  · obtain ⟨_, _, hh⟩ := notTag?_eq_some_iff.mp h
    exact hh
  · obtain ⟨_, _, hh⟩ := comparator?_eq_some_iff.mp h
    exact hh

theorem Heads.read?_isSome {lexeme : Lexeme} {cs rest : List Char} (h : lexeme.Heads cs rest) :
    (read? cs).isSome := by
  rw [read?_eq_or]
  simp only [Option.isSome_or, Bool.or_eq_true]
  cases lexeme with
  | date word =>
    cases word with
    | year y => simp [year?_eq_some_iff.mpr ⟨y, rfl, h⟩]
    | month y m => simp [month?_eq_some_iff.mpr ⟨y, m, rfl, h⟩]
    | day y m d => simp [day?_eq_some_iff.mpr ⟨y, m, d, rfl, h⟩]
  | duration digits unit => simp [duration?_eq_some_iff.mpr ⟨digits, unit, rfl, h⟩]
  | connective c => simp [connective?_eq_some_iff.mpr ⟨c, rfl, h⟩]
  | notTag name => simp [notTag?_eq_some_iff.mpr ⟨name, rfl, h⟩]
  | comparator c => simp [comparator?_eq_some_iff.mpr ⟨c, rfl, h⟩]
  | tag name =>
    cases hc : connective? cs with
    | some _ => simp
    | none => simp [tag?_eq_some_iff.mpr ⟨hc, name, rfl, h.proper.1, h.split, h.boundary rfl⟩]

/-- Reading finds the lexeme at the head of a text. -/
theorem read?_eq_some_iff {cs rest : List Char} {lexeme : Lexeme} :
    read? cs = some (lexeme, rest) ↔ lexeme.Heads cs rest := by
  constructor
  · exact heads_of_read?
  · intro h
    obtain ⟨⟨other, tail⟩, hr⟩ := Option.isSome_iff_exists.mp h.read?_isSome
    obtain ⟨rfl, rfl⟩ := (heads_of_read? hr).unique h
    exact hr

end Lexeme

end SearchFilter

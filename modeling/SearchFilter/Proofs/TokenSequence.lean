import SearchFilter.Proofs.DatePlace
import SearchFilter.Proofs.TermShape

namespace SearchFilter

/-- The number of parts that a date of a granularity is written with. -/
def Granularity.parts : Granularity → Nat
  | .year => 1
  | .month => 2
  | .day => 3

/-- A literal that holds the numbers of its text, cut at the hyphens. -/
structure DateLiteral.Sound (literal : DateLiteral) : Prop where
  plain : literal.Plain
  monthOfDay : literal.day.isSome → literal.month.isSome
  parts : (literal.text.toList.splitOn '-').length = literal.granularity.parts
  numbers : (literal.text.toList.splitOn '-').map (fun run => (digitsValue run : Int)) =
    literal.year :: (literal.month.toList ++ literal.day.toList)

namespace Token

/-- A date or a duration. -/
def IsSpan : Token → Prop
  | .date _ => True
  | .duration _ => True
  | _ => False

/-- What compiling relies on in a token. -/
def Sound : Token → Prop
  | .tag name => IsTagWord name.toList
  | .notTag name => isWord name.toList
  | .duration length => 0 ≤ length.amount
  | .date literal => literal.Sound
  | _ => True

/-- If two tokens are dates, the first begins and ends before the second begins. -/
def DatesApart (token later : Token) : Prop :=
  ∀ first second, token = .date first → later = .date second →
    first.position < second.position ∧ first.position + first.text.length ≤ second.position

/-- A tag, a negated tag, or a date or duration with or without a comparator. -/
inductive IsGroup : List Token → Prop
  | tag (name : String) : IsGroup [.tag name]
  | notTag (name : String) : IsGroup [.notTag name]
  | span {token : Token} : token.IsSpan → IsGroup [token]
  | bounded (comparison : Comparison) {token : Token} :
      token.IsSpan → IsGroup [.comparator comparison, token]

/-- Groups with a connective between each two. -/
inductive IsGrouped : List Token → Prop
  | group {tokens : List Token} : IsGroup tokens → IsGrouped tokens
  | joined {tokens rest : List Token} (connective : Connective) : IsGroup tokens →
      IsGrouped rest → IsGrouped (tokens ++ .connective connective :: rest)

theorem IsGroup.not_end {tokens : List Token} (h : IsGroup tokens) : .endOfInput ∉ tokens := by
  intro hm
  cases h with
  | tag name => simp at hm
  | notTag name => simp at hm
  | span hs => cases List.mem_singleton.mp hm; exact hs
  | bounded comparison hs =>
    rcases List.mem_cons.mp hm with he | hm
    · cases he
    · cases List.mem_singleton.mp hm; exact hs

theorem IsGrouped.not_end {tokens : List Token} (h : IsGrouped tokens) :
    .endOfInput ∉ tokens := by
  induction h with
  | group hg => exact hg.not_end
  | joined connective hg _ ih =>
    intro hm
    rcases List.mem_append.mp hm with hm | hm
    · exact hg.not_end hm
    · rcases List.mem_cons.mp hm with he | hm
      · cases he
      · exact ih hm

/-- Behind a comparator there is a date or duration. -/
theorem IsGrouped.isSpan {before after : List Token} {comparison : Comparison} {next : Token}
    (h : IsGrouped (before ++ .comparator comparison :: next :: after)) : next.IsSpan := by
  have group : ∀ {before after tokens : List Token}, IsGroup tokens →
      tokens = before ++ .comparator comparison :: after →
        ∃ span, after = [span] ∧ span.IsSpan := by
    intro before after tokens hg he
    cases hg with
    | tag name => simp [List.cons_eq_append_iff] at he
    | notTag name => simp [List.cons_eq_append_iff] at he
    | span hs =>
      rcases List.append_eq_singleton_iff.mp he.symm with ⟨-, he⟩ | ⟨-, he⟩
      · obtain ⟨rfl, -⟩ := List.cons.inj he
        exact absurd hs id
      · cases he
    | @bounded _ token hs =>
      cases before with
      | nil =>
        obtain ⟨-, rfl⟩ := List.cons.inj he
        exact ⟨token, rfl, hs⟩
      | cons first before =>
        obtain ⟨-, htail⟩ := List.cons.inj he
        rcases List.append_eq_singleton_iff.mp htail.symm with ⟨-, he⟩ | ⟨-, he⟩
        · obtain ⟨rfl, -⟩ := List.cons.inj he
          exact absurd hs id
        · cases he
  generalize hl : before ++ .comparator comparison :: next :: after = tokens at h
  induction h generalizing before with
  | group hg =>
    obtain ⟨span, he, hs⟩ := group hg hl.symm
    obtain ⟨rfl, -⟩ := List.cons.inj he
    exact hs
  | joined connective hg _ ih =>
    rcases List.append_eq_append_iff.mp hl with ⟨more, rfl, hmore⟩ | ⟨more, rfl, hmore⟩
    · cases more with
      | nil => cases hmore
      | cons first tail =>
        obtain ⟨rfl, htail⟩ := List.cons.inj hmore
        obtain ⟨span, rfl, hs⟩ := group hg rfl
        obtain ⟨rfl, -⟩ := List.cons.inj htail
        exact hs
    · cases more with
      | nil => cases hmore
      | cons first tail =>
        obtain ⟨rfl, rfl⟩ := List.cons.inj hmore
        exact ih rfl

end Token

theorem Term.isGroup_tokens (term : Term) : Token.IsGroup term.tokens := by
  cases term with
  | tag name => exact .tag name
  | notTag name => exact .notTag name
  | timed bound span =>
    have hspan : span.token.IsSpan := by cases span <;> trivial
    cases bound with
    | none => exact .span hspan
    | some comparison => exact .bounded comparison hspan

theorem Term.isGrouped_tokens (first : Term) (clauses : List (Connective × Term)) :
    Token.IsGrouped (first.tokens ++
      clauses.flatMap fun (connective, term) => .connective connective :: term.tokens) := by
  induction clauses generalizing first with
  | nil => simpa using Token.IsGrouped.group first.isGroup_tokens
  | cons clause clauses ih =>
    obtain ⟨connective, term⟩ := clause
    exact .joined connective first.isGroup_tokens (ih term)

theorem isGrouped_of_tokenize {text : String} {tokens : List Token}
    (h : tokenize text = .ok (tokens ++ [.endOfInput])) : Token.IsGrouped tokens := by
  obtain ⟨expression, -, htokens⟩ := tokenize_eq_ok_iff.mp h
  rw [← List.append_cancel_right htokens]
  exact Term.isGrouped_tokens expression.first expression.clauses

namespace DateWord

/-- The runs of digits that hyphens part. -/
def runs : DateWord → List (List Char)
  | year y => [y]
  | month y m => [y, m]
  | day y m d => [y, m, d]

theorem written_eq_intercalate (word : DateWord) : word.written = ['-'].intercalate word.runs := by
  cases word with
  | year y => simp [written, runs]
  | month y m => simp [written, runs]
  | day y m d => simp [written, runs]

theorem splitOn_written {word : DateWord} (h : word.Proper) :
    word.written.splitOn '-' = word.runs := by
  have digits : ∀ {count : Nat} {run : List Char}, IsDigitRun count run → '-' ∉ run := by
    intro count run hr hm
    exact absurd (List.all_eq_true.mp hr.2 '-' hm) (by decide)
  have hruns : ∀ run ∈ word.runs, '-' ∉ run := by
    intro run hm
    cases word with
    | year y =>
      cases List.mem_singleton.mp hm
      exact digits h
    | month y m =>
      simp only [runs, List.mem_cons, List.not_mem_nil, or_false] at hm
      rcases hm with rfl | rfl
      · exact digits h.1
      · exact digits h.2
    | day y m d =>
      simp only [runs, List.mem_cons, List.not_mem_nil, or_false] at hm
      rcases hm with rfl | rfl | rfl
      · exact digits h.1
      · exact digits h.2.1
      · exact digits h.2.2
  have hne : word.runs ≠ [] := by cases word <;> exact List.cons_ne_nil _ _
  rw [written_eq_intercalate]
  exact List.splitOn_intercalate '-' hruns hne

theorem sound_literal {word : DateWord} (h : word.Proper) (position : Nat) :
    (word.literal position).Sound := by
  have hsplit : (word.literal position).text.toList.splitOn '-' = word.runs := by
    rw [text_literal, String.toList_ofList, splitOn_written h]
  refine ⟨plain_literal h, ?_, ?_, ?_⟩
  · cases word <;> simp [literal]
  · rw [hsplit]
    cases word <;> rfl
  · rw [hsplit]
    cases word <;> rfl

end DateWord

theorem Lexeme.sound_token {lexeme : Lexeme} (h : lexeme.Proper) (position : Nat) :
    (lexeme.token position).Sound := by
  cases lexeme with
  | comparator comparison => trivial
  | connective connective => trivial
  | date word => exact DateWord.sound_literal h position
  | duration digits unit => exact Int.natCast_nonneg _
  | tag name =>
    rw [token, Token.Sound, String.toList_ofList]
    exact h
  | notTag name =>
    rw [token, Token.Sound, String.toList_ofList]
    exact h

/-- No date among the tokens of lexemes is taken to begin before all of them. -/
theorem le_position_of_mem {behind : Option Nat} {placed : List Placed} {bound : Nat}
    (hb : ∀ start ∈ behind, bound ≤ start) (hp : ∀ found ∈ placed, bound ≤ found.offset)
    {literal : DateLiteral} (hm : .date literal ∈ tokensFrom behind placed) :
    (bound : Int) ≤ literal.position := by
  induction placed generalizing behind with
  | nil => simp [tokensFrom] at hm
  | cons first placed ih =>
    have hfirst : bound ≤ first.offset := hp first (by simp)
    rcases List.mem_cons.mp hm with he | hm
    · obtain ⟨offset, lexeme⟩ := first
      cases lexeme with
      | date word =>
        rw [Token.date.inj he, DateWord.position_literal]
        cases behind with
        | none => exact Int.ofNat_le.mpr hfirst
        | some start => exact Int.ofNat_le.mpr (hb start rfl)
      | _ => cases he
    · refine ih ?_ (fun found hf => hp found (by simp [hf])) hm
      obtain ⟨offset, lexeme⟩ := first
      intro start hs
      cases lexeme with
      | comparator comparison =>
        cases Option.some.inj hs
        exact Nat.le_succ_of_le hfirst
      | _ => cases hs

/-- Dates do not overlap, since a date is never taken to begin within the lexeme in front of it. -/
theorem tokensFrom_datesApart {behind : Option Nat} {placed : List Placed}
    (hordered : placed.Pairwise fun before after =>
      before.offset + before.lexeme.written.length ≤ after.offset)
    (hproper : ∀ lexeme ∈ placed.map Placed.lexeme, lexeme.Proper)
    (hb : ∀ start ∈ behind, ∀ first ∈ placed.head?, start ≤ first.offset) :
    (tokensFrom behind placed).Pairwise Token.DatesApart := by
  induction placed generalizing behind with
  | nil => exact .nil
  | cons first placed ih =>
    obtain ⟨hlater, hrest⟩ := List.pairwise_cons.mp hordered
    have hmore : ∀ lexeme ∈ placed.map Placed.lexeme, lexeme.Proper :=
      fun lexeme hm => hproper lexeme (by simp [hm])
    obtain ⟨offset, lexeme⟩ := first
    refine .cons ?_ (ih hrest hmore ?_)
    · rintro _ hm x y hx rfl
      cases lexeme with
      | date word =>
        have hword : (Lexeme.date word).Proper := hproper _ (by simp)
        have hlength : 0 < word.written.length :=
          List.length_pos_iff.mpr (Lexeme.written_ne_nil hword)
        have hstart : behind.getD offset ≤ offset := by
          cases behind with
          | none => exact Nat.le_refl _
          | some start => exact hb start rfl _ rfl
        have hnext : ((offset + word.written.length : Nat) : Int) ≤ y.position :=
          le_position_of_mem (by simp [Placed.behind]) hlater hm
        have hx : x = word.literal (behind.getD offset) := (Token.date.inj hx).symm
        rw [hx, DateWord.position_literal, DateWord.text_literal, String.length_ofList]
        omega
      | _ => cases hx
    · intro start hs next hn
      cases lexeme with
      | comparator comparison =>
        cases Option.some.inj hs
        exact hlater next (List.mem_of_mem_head? hn)
      | _ => cases hs

theorem datesAdjoin_iff {placed : List Placed} :
    DatesAdjoin placed ↔ ∀ front place word rest,
      placed = front ++ ⟨place, .date word⟩ :: rest → positionBehind front place = place := by
  constructor
  · rintro h front place word rest rfl
    rcases positionBehind_cases front place with he | ⟨before, start, comparison, rfl, he⟩
    · exact he
    · rw [he]
      exact (h start place comparison word ⟨before, rest, by simp⟩).symm
  · rintro h start place comparison word ⟨before, rest, rfl⟩
    rw [← h (before ++ [⟨start, .comparator comparison⟩]) place word rest (by simp),
      positionBehind_comparator]

/-- The tokens of a text that is not malformed. They end with the only end of input; in front of it
are groups with a connective between each two, and each token there is such as compiling relies on.
Each date begins and ends before the next, and it is written where it is taken to begin or behind
blanks there; so every date is the part of the text that it says it is exactly if no blank stands
between a comparator and a date. -/
theorem tokenizeOrDrop_sound {text : String} {tokens : List Token}
    (h : (tokenizeOrDrop text).outcome = .ok tokens) (hne : tokens ≠ []) :
    ∃ front placed, tokens = front ++ [.endOfInput] ∧ .endOfInput ∉ front ∧
      Token.IsGrouped front ∧ (∀ token ∈ front, token.Sound) ∧
      front.Pairwise Token.DatesApart ∧ Spells 0 text.toList placed ∧
      (∀ literal : DateLiteral, .date literal ∈ front → ∃ position place : Nat,
        literal.position = position ∧
        WrittenBehind text.toList literal.text.toList position place) ∧
      ((∀ literal, .date literal ∈ front → literal.slice text = literal.text.toList) ↔
        DatesAdjoin placed) := by
  obtain ⟨expression, hparse, rfl⟩ : ∃ expression, Expression.parse text = .ok expression ∧
      expression.tokens = tokens := by
    rw [tokenizeOrDrop_outcome] at h
    split at h
    next expression hp => exact ⟨expression, hp, Except.ok.inj h⟩
    next => exact absurd (Except.ok.inj h).symm hne
    next => cases h
  obtain ⟨placed, hs, hx⟩ := Expression.parse_eq_ok_iff.mp hparse
  have htokens := hx.tokens_eq
  have hgrouped : Token.IsGrouped (tokensFrom none placed) := by
    have hfront := List.append_cancel_right htokens
    rw [← hfront]
    exact Term.isGrouped_tokens expression.first expression.clauses
  refine ⟨tokensFrom none placed, placed, htokens, hgrouped.not_end, hgrouped, ?_, ?_, hs, ?_, ?_⟩
  · intro token hm
    obtain ⟨before, after, hsplit⟩ := List.append_of_mem hm
    obtain ⟨front, found, rest, rfl, -, rfl⟩ := exists_lexeme_of_tokensFrom hsplit
    exact Lexeme.sound_token (hs.proper (by simp)) _
  · exact tokensFrom_datesApart hs.ordered (fun _ hm => hs.proper hm) (by simp)
  · intro literal hm
    obtain ⟨front, place, word, rest, rfl, rfl⟩ := date_mem_tokensFrom_iff.mp hm
    refine ⟨_, place, DateWord.position_literal word _, ?_⟩
    rw [DateWord.text_literal, String.toList_ofList]
    exact hs.writtenBehind
  · rw [datesAdjoin_iff]
    constructor
    · rintro hslice front place word rest rfl
      exact hs.slice_eq_text_iff.mp
        (hslice _ (date_mem_tokensFrom_iff.mpr ⟨front, place, word, rest, rfl, rfl⟩))
    · intro hadjoin literal hm
      obtain ⟨front, place, word, rest, rfl, rfl⟩ := date_mem_tokensFrom_iff.mp hm
      exact hs.slice_eq_text_iff.mpr (hadjoin front place word rest rfl)

theorem tokenizeOrDrop_sound_spaced :
    (tokenizeOrDrop "vim OR > 2019-02").outcome = .ok [.tag "vim", .connective .or,
        .comparator .greater, .date ⟨2019, some 2, none, "2019-02", 8⟩, .endOfInput] ∧
      Token.IsGrouped [.tag "vim", .connective .or, .comparator .greater,
        .date ⟨2019, some 2, none, "2019-02", 8⟩] ∧
      DateLiteral.Sound ⟨2019, some 2, none, "2019-02", 8⟩ ∧
      ∃ place : Nat, WrittenBehind "vim OR > 2019-02".toList "2019-02".toList 8 place := by
  have ht : (tokenizeOrDrop "vim OR > 2019-02").outcome = .ok [.tag "vim", .connective .or,
      .comparator .greater, .date ⟨2019, some 2, none, "2019-02", 8⟩, .endOfInput] :=
    eq_ok_of_toOption (by decide +kernel)
  obtain ⟨front, placed, hfront, -, hgrouped, hsound, -, -, hwritten, -⟩ :=
    tokenizeOrDrop_sound ht (List.cons_ne_nil _ _)
  obtain rfl : [.tag "vim", .connective .or, .comparator .greater,
      .date ⟨2019, some 2, none, "2019-02", 8⟩] = front :=
    (List.append_left_inj [Token.endOfInput]).mp hfront
  have hdate := hsound (.date ⟨2019, some 2, none, "2019-02", 8⟩) (by simp)
  obtain ⟨position, place, hposition, hplace⟩ :=
    hwritten ⟨2019, some 2, none, "2019-02", 8⟩ (by simp)
  obtain rfl : 8 = position := Int.ofNat_inj.mp hposition
  exact ⟨ht, hgrouped, hdate, place, hplace⟩

/-- Behind a comparator and a blank a date is not the part of the text that it says it is. -/
theorem spaced_date_sliced :
    ∃ literal : DateLiteral, (tokenizeOrDrop "> 2019").outcome =
        .ok [.comparator .greater, .date literal, .endOfInput] ∧
      literal.slice "> 2019" = " 201".toList ∧
      literal.slice "> 2019" ≠ literal.text.toList := by
  have hslice : DateLiteral.slice ⟨2019, none, none, "2019", 1⟩ "> 2019" = " 201".toList := by
    decide +kernel
  refine ⟨⟨2019, none, none, "2019", 1⟩, eq_ok_of_toOption (by decide +kernel), hslice, ?_⟩
  rw [hslice]
  decide

end SearchFilter

import SearchFilter.Proofs.SameDigits
import SearchFilter.Proofs.SplitDate

namespace SearchFilter

/-- A text with further characters in front of what is at a place. -/
def withInserted (text : String) (place : Nat) (chars : List Char) : String :=
  .ofList (text.toList.take place ++ chars ++ text.toList.drop place)

/-- Where a position is when some characters are inserted in front of what is at a place. -/
def shiftedBehind (place count : Nat) (position : Int) : Int :=
  if position < place then position else position + count

theorem digitsValue_zeros_append {zeros : List Char} (h : ∀ c ∈ zeros, digitValue? c = some 0)
    (digits : List Char) : digitsValue (zeros ++ digits) = digitsValue digits := by
  have hfold : zeros.foldl (fun value c => value * 10 + (digitValue? c).getD 0) 0 = 0 := by
    induction zeros with
    | nil => rfl
    | cons c zeros ih =>
      rw [List.foldl_cons, h c List.mem_cons_self]
      exact ih fun d hm => h d (List.mem_cons_of_mem c hm)
  rw [digitsValue, List.foldl_append, hfold, digitsValue]

/-- What stands in front of a word is read in the same way whatever takes the place of the text that
begins with the word: only a comparator or a blank can stand directly in front of a word. -/
theorem Spells.exists_word {offset place : Nat} {cs : List Char} {before after : List Placed}
    {lexeme : Lexeme} (h : Spells offset cs (before ++ ⟨place, lexeme⟩ :: after))
    (hlead : lexeme.lead = none) :
    ∃ head more, cs = head ++ (lexeme.written ++ more) ∧ place = offset + head.length ∧
      lexeme.Heads (lexeme.written ++ more) more ∧
      Spells (place + lexeme.written.length) more after ∧
      ∀ text later, Spells place text later → Spells offset (head ++ text) (before ++ later) := by
  generalize hp : before ++ ⟨place, lexeme⟩ :: after = placed at h
  induction h generalizing before with
  | nil => simp at hp
  | @blank offset c cs placed hc _ ih =>
    obtain ⟨head, more, rfl, hplace, hheads, hafter, hfront⟩ := ih hp
    refine ⟨c :: head, more, rfl, ?_, hheads, hafter, fun text later hs => ?_⟩
    · rw [hplace, List.length_cons]
      omega
    · exact .blank hc (hfront text later hs)
  | @lexeme offset cs rest first placed hl hrest ih =>
    cases before with
    | nil =>
      obtain ⟨hfirst, rfl⟩ := List.cons.inj hp
      cases hfirst
      have hsplit : cs = lexeme.written ++ rest := hl.split
      exact ⟨[], rest, hsplit, rfl, hsplit ▸ hl, hrest, fun _ _ hs => hs⟩
    | cons found before =>
      obtain ⟨rfl, hbehind⟩ := List.cons.inj hp
      obtain ⟨head, more, rfl, hplace, hheads, hafter, hfront⟩ := ih hbehind
      refine ⟨first.written ++ head, more, by rw [hl.split, List.append_assoc], ?_, hheads, hafter,
        fun text later hs => ?_⟩
      · rw [hplace, List.length_append]
        omega
      · have hwhole : (∀ c, first ≠ .comparator c) → atBoundary (head ++ text) := by
          intro hn
          have hb := hl.whole hn
          cases head with
          | nil =>
            obtain ⟨c, tail, he, hstart⟩ := Lexeme.isWordStart_head hheads hlead
            rw [List.nil_append, he] at hb
            simp [atBoundary, isWordPart_of_isWordStart hstart] at hb
          | cons c head => exact hb
        rw [List.append_assoc]
        exact .lexeme ⟨hl.proper, rfl, hwhole⟩ (hfront text later hs)

theorem tokensFrom_duration (front rest : List Placed) (place : Nat) (digits : List Char)
    (unit : DurationUnit) :
    tokensFrom none (front ++ ⟨place, .duration digits unit⟩ :: rest) =
      tokensFrom none front ++ .duration ⟨digitsValue digits, unit⟩ :: tokensFrom none rest := by
  rw [tokensFrom_append]
  rfl

section

variable {text : String} {before after : List Placed} {place : Nat} {digits zeros : List Char}
  {unit : DurationUnit}

/-- A duration with zeros in front of its amount is a duration still. -/
theorem Lexeme.Heads.duration_zeros {cs rest : List Char}
    (h : (Lexeme.duration digits unit).Heads cs rest)
    (hzeros : ∀ c ∈ zeros, digitValue? c = some 0) :
    (Lexeme.duration (zeros ++ digits) unit).Heads
      ((Lexeme.duration (zeros ++ digits) unit).written ++ rest) rest := by
  obtain ⟨hne, hdigits⟩ := h.proper
  refine ⟨⟨fun hnil => hne (List.append_eq_nil_iff.mp hnil).2, ?_⟩, rfl, fun _ => h.whole nofun⟩
  rw [List.all_append, hdigits, Bool.and_true]
  exact List.all_eq_true.mpr fun c hc => by rw [isDigit, hzeros c hc]; rfl

theorem Spells.withInserted
    (hs : Spells 0 text.toList (before ++ ⟨place, .duration digits unit⟩ :: after))
    (hzeros : ∀ c ∈ zeros, digitValue? c = some 0) :
    Spells 0 (withInserted text place zeros).toList (before ++
      ⟨place, .duration (zeros ++ digits) unit⟩ :: after.map (Placed.moved zeros.length)) := by
  obtain ⟨head, more, htext, hplace, hheads, hafter, hfront⟩ := hs.exists_word rfl
  rw [Nat.zero_add] at hplace
  have hmoved := hafter.moved zeros.length
  have hlength : place + (Lexeme.duration digits unit).written.length + zeros.length =
      place + (Lexeme.duration (zeros ++ digits) unit).written.length := by
    simp only [Lexeme.written, List.length_append, List.length_singleton]
    omega
  rw [hlength] at hmoved
  have hspelled := hfront _ _ (.lexeme (hheads.duration_zeros hzeros) hmoved)
  rw [SearchFilter.withInserted, String.toList_ofList, htext]
  simpa [Lexeme.written, List.take_left' hplace.symm, List.drop_left' hplace.symm] using hspelled

/-- Zeros in front of an amount leave a filter with the same tokens, and those behind it at a
distance. -/
theorem tokenize_withInserted
    (hs : Spells 0 text.toList (before ++ ⟨place, .duration digits unit⟩ :: after))
    (he : IsExpression ((before ++ ⟨place, .duration digits unit⟩ :: after).map Placed.lexeme))
    (hl : ¬HoldsLongAmount ((before ++ ⟨place, .duration digits unit⟩ :: after).map Placed.lexeme))
    (hzeros : ∀ c ∈ zeros, digitValue? c = some 0)
    (hlimit : zeros.length + digits.length ≤ digitLimit) :
    tokenize (withInserted text place zeros) =
      .ok (tokensFrom none before ++ .duration ⟨digitsValue digits, unit⟩ ::
        (tokensFrom none after).map (Token.moved zeros.length) ++ [.endOfInput]) := by
  have hlexemes : (after.map (Placed.moved zeros.length)).map Placed.lexeme =
      after.map Placed.lexeme := by
    rw [List.map_map]
    rfl
  refine tokenize_eq_ok_iff_spells.mpr ⟨_, hs.withInserted hzeros, ?_, ?_, ?_⟩
  · refine he.exchanged ?_
    rw [List.map_append, List.map_append, List.map_cons, List.map_cons, hlexemes]
    have hsame : ∀ lexemes : List Lexeme, List.Forall₂ Lexeme.Exchanges lexemes lexemes :=
      fun lexemes => List.forall₂_same.mpr fun _ _ => .inl rfl
    exact List.rel_append (hsame _) (.cons (.inr ⟨trivial, trivial⟩) (hsame _))
  · intro hlonger
    obtain ⟨run, other, hm, hlong⟩ := hlonger
    rw [List.map_append, List.map_cons, hlexemes] at hm
    rcases List.mem_append.mp hm with hm | hm
    · exact hl ⟨run, other, by simp [hm], hlong⟩
    · rcases List.mem_cons.mp hm with he | hm
      · cases he
        rw [List.length_append] at hlong
        omega
      · exact hl ⟨run, other, by simp [hm], hlong⟩
  · have hbehind := tokensFrom_moved zeros.length none after
    rw [tokensFrom_duration, digitsValue_zeros_append hzeros, ← hbehind]
    rfl

/-- Dates in front of a duration begin before it, and dates behind it do not. -/
theorem map_relocated_shiftedBehind
    (hs : Spells 0 text.toList (before ++ ⟨place, .duration digits unit⟩ :: after)) (count : Nat) :
    List.map (Token.relocated (shiftedBehind place count))
        (tokensFrom none (before ++ ⟨place, .duration digits unit⟩ :: after) ++ [.endOfInput]) =
      tokensFrom none before ++ .duration ⟨digitsValue digits, unit⟩ ::
        (tokensFrom none after).map (Token.moved count) ++ [.endOfInput] := by
  obtain ⟨head, more, -, hplace, -, hafter, hfront⟩ := hs.exists_word rfl
  rw [Nat.zero_add] at hplace
  have hhead : Spells 0 head before := by simpa using hfront [] [] .nil
  have hbefore : ∀ token ∈ tokensFrom none before,
      token.relocated (shiftedBehind place count) = token := by
    intro token hm
    cases token with
    | date literal =>
      obtain ⟨front, start, word, rest, rfl, rfl⟩ := date_mem_tokensFrom_iff.mp hm
      have hproper : (Lexeme.date word).Proper := hhead.proper (by simp)
      have hpos : 0 < word.written.length :=
        List.length_pos_iff.mpr (Lexeme.written_ne_nil hproper)
      obtain ⟨first, gap, last, rfl, -, hposition, -⟩ := hhead.writtenBehind.split
      have hlt : ((word.literal (positionBehind front start)).position : Int) < place := by
        rw [DateWord.position_literal, hplace]
        simp only [List.length_append]
        omega
      simp [Token.relocated, DateLiteral.relocated, shiftedBehind, hlt]
    | _ => rfl
  have hbehind : ∀ token ∈ tokensFrom none after,
      token.relocated (shiftedBehind place count) = token.moved count := by
    intro token hm
    cases token with
    | date literal =>
      have hle : ((place : Nat) : Int) ≤ literal.position := by
        refine le_position_of_mem (by simp) (fun found hf => ?_) hm
        exact Nat.le_trans (Nat.le_add_right _ _) (hafter.le_offset found hf)
      have hnot : ¬literal.position < place := by omega
      simp [Token.relocated, DateLiteral.relocated, Token.moved, shiftedBehind, hnot]
    | _ => rfl
  rw [tokensFrom_duration, List.map_append, List.map_append, List.map_cons,
    List.map_congr_left hbefore, List.map_congr_left hbehind, List.map_id']
  rfl

end

/-- Digits of the same value in the dates and durations of a filter leave all that its tokens say
but the texts of its dates, and all that compiling it comes to but the text of a date in a failure.
Zeros in front of the amount of a duration leave everything but the positions of the dates behind
them. -/
theorem digits_count_by_value {text : String} {tokens : List Token}
    (h : tokenize text = .ok tokens) :
    ∃ placed, Spells 0 text.toList placed ∧ tokens = tokensFrom none placed ++ [.endOfInput] ∧
      (∀ other : String, Redigited (InSpan placed) 0 text.toList other.toList →
        ∃ others, tokenize other = .ok others ∧
          List.Forall₂ (Token.Rewritten text.toList other.toList) tokens others ∧
          ∀ (compiler : Compiler) (now : Option Moment),
            (compiler.compile other now).outcome.mapError Failure.withoutTerm =
              (compiler.compile text now).outcome.mapError Failure.withoutTerm) ∧
      ∀ (place : Nat) (digits zeros : List Char) (unit : DurationUnit),
        ⟨place, .duration digits unit⟩ ∈ placed → (∀ c ∈ zeros, digitValue? c = some 0) →
        zeros.length + digits.length ≤ digitLimit →
        tokenize (withInserted text place zeros) =
            .ok (tokens.map (Token.relocated (shiftedBehind place zeros.length))) ∧
          ∀ (compiler : Compiler) (now : Option Moment),
            (compiler.compile (withInserted text place zeros) now).outcome =
              (compiler.compile text now).outcome.mapError
                (Failure.relocated (shiftedBehind place zeros.length)) := by
  obtain ⟨placed, hs, he, hl, rfl⟩ := tokenize_eq_ok_iff_spells.mp h
  refine ⟨placed, hs, rfl, fun other hr => ?_, fun place digits zeros unit hm hzeros hlimit => ?_⟩
  · obtain ⟨others, ho, hrewritten⟩ := tokenize_redigited hs he hl hr
    have hend : Token.Rewritten text.toList other.toList .endOfInput .endOfInput := .same nofun
    have hends := List.rel_append hrewritten (.cons hend .nil)
    exact ⟨_, ho, hends, compile_redigited h ho hends⟩
  · obtain ⟨before, after, rfl⟩ := List.append_of_mem hm
    have hnew := tokenize_withInserted hs he hl hzeros hlimit
    rw [← map_relocated_shiftedBehind hs] at hnew
    refine ⟨hnew, fun compiler now => ?_⟩
    rw [Compiler.compile_of_tokenize hnew, Compiler.compile_of_tokenize h, compileTokens_relocated]

theorem digits_count_by_value_mixed :
    tokenize "2019-13 OR 7d OR >2020" = .ok [.date ⟨2019, some 13, none, "2019-13", 0⟩,
        .connective .or, .duration ⟨7, .day⟩, .connective .or, .comparator .greater,
        .date ⟨2020, none, none, "2020", 18⟩, .endOfInput] ∧
      (∃ others, tokenize "\uff12019-13 OR \u0667d OR >2020" = .ok others) ∧
      (∀ (compiler : Compiler) (now : Option Moment),
        (compiler.compile "\uff12019-13 OR \u0667d OR >2020" now).outcome.mapError
          Failure.withoutTerm = .error (.impossibleDate "" 0 .monthOutOfRange)) ∧
      tokenize "2019-13 OR 0\u06607d OR >2020" = .ok [.date ⟨2019, some 13, none, "2019-13", 0⟩,
        .connective .or, .duration ⟨7, .day⟩, .connective .or, .comparator .greater,
        .date ⟨2020, none, none, "2020", 20⟩, .endOfInput] := by
  have ht : tokenize "2019-13 OR 7d OR >2020" = .ok [.date ⟨2019, some 13, none, "2019-13", 0⟩,
      .connective .or, .duration ⟨7, .day⟩, .connective .or, .comparator .greater,
      .date ⟨2020, none, none, "2020", 18⟩, .endOfInput] := eq_ok_of_toOption (by decide +kernel)
  have hp : (scanFrom 0 "2019-13 OR 7d OR >2020".toList).placed =
      [⟨0, .date (.month "2019".toList "13".toList)⟩, ⟨8, .connective .or⟩,
        ⟨11, .duration ['7'] .day⟩, ⟨14, .connective .or⟩, ⟨17, .comparator .greater⟩,
        ⟨18, .date (.year "2020".toList)⟩] := by decide +kernel
  obtain ⟨placed, hs, -, hsame, hzeros⟩ := digits_count_by_value ht
  have hplaced : placed = (scanFrom 0 "2019-13 OR 7d OR >2020".toList).placed :=
    hs.unique (spells_of_scanFrom (by decide +kernel))
  rw [hp] at hplaced
  have hdate : InSpan placed 0 :=
    ⟨⟨0, .date (.month "2019".toList "13".toList)⟩, by simp [hplaced], trivial, by decide,
      by decide⟩
  have hduration : InSpan placed 11 :=
    ⟨⟨11, .duration ['7'] .day⟩, by simp [hplaced], trivial, by decide, by decide⟩
  have hbehind : Redigited (InSpan placed) 11 "7d OR >2020".toList "\u0667d OR >2020".toList :=
    .replaced hduration (by decide : digitValue? '7' = some 7) (by decide)
      (.kept_append "d OR >2020".toList .nil)
  have hr : Redigited (InSpan placed) 0 "2019-13 OR 7d OR >2020".toList
      "\uff12019-13 OR \u0667d OR >2020".toList :=
    .replaced hdate (by decide : digitValue? '2' = some 2) (by decide)
      (.kept_append "019-13 OR ".toList hbehind)
  have hzero : ∀ c ∈ ['0', '\u0660'], digitValue? c = some 0 :=
    List.forall_mem_cons.mpr ⟨by decide, List.forall_mem_singleton.mpr (by decide)⟩
  obtain ⟨others, ho, -, hcompile⟩ := hsame _ hr
  refine ⟨ht, ⟨others, ho⟩, fun compiler now => ?_, ?_⟩
  · rw [hcompile, Compiler.compile_of_tokenize ht]
    rfl
  · exact (hzeros 11 ['7'] _ .day (by simp [hplaced]) hzero (by simp [digitLimit])).1

end SearchFilter

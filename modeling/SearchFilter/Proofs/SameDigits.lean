import Mathlib.Data.List.Forall2
import SearchFilter.Proofs.Relocation
import SearchFilter.Proofs.TokenSequence

namespace SearchFilter

/-- A text of which digits are replaced by digits of the same value, only where that is allowed. -/
inductive Redigited (allowed : Nat → Prop) : Nat → List Char → List Char → Prop
  | nil {offset : Nat} : Redigited allowed offset [] []
  | kept {offset : Nat} {c : Char} {cs ds : List Char} :
      Redigited allowed (offset + 1) cs ds → Redigited allowed offset (c :: cs) (c :: ds)
  | replaced {offset : Nat} {c d : Char} {cs ds : List Char} {value : Nat} : allowed offset →
      digitValue? c = some value → digitValue? d = some value →
      Redigited allowed (offset + 1) cs ds → Redigited allowed offset (c :: cs) (d :: ds)

/-- Whether an offset lies in one of some dates and durations. -/
def InSpan (placed : List Placed) (offset : Nat) : Prop :=
  ∃ found ∈ placed, found.lexeme.IsSpan ∧ found.offset ≤ offset ∧
    offset < found.offset + found.lexeme.written.length

/-- Runs of digits with the same values. -/
def SameDigits (digits others : List Char) : Prop :=
  digits.map digitValue? = others.map digitValue?

/-- The same date, but for other digits of the same value. -/
inductive DateWord.Alike : DateWord → DateWord → Prop
  | year {y b : List Char} : SameDigits y b → Alike (.year y) (.year b)
  | month {y m b n : List Char} : SameDigits y b → SameDigits m n → Alike (.month y m) (.month b n)
  | day {y m d b n e : List Char} : SameDigits y b → SameDigits m n → SameDigits d e →
      Alike (.day y m d) (.day b n e)

/-- The same lexeme, but for other digits of the same value in a date or duration. -/
inductive Lexeme.Alike : Lexeme → Lexeme → Prop
  | same {lexeme : Lexeme} : Alike lexeme lexeme
  | date {word other : DateWord} : word.Alike other → Alike (.date word) (.date other)
  | duration {digits others : List Char} {unit : DurationUnit} : SameDigits digits others →
      Alike (.duration digits unit) (.duration others unit)

/-- Alike lexemes at the same offset. -/
structure Placed.Alike (placed other : Placed) : Prop where
  offset : placed.offset = other.offset
  lexeme : placed.lexeme.Alike other.lexeme

namespace SameDigits

variable {digits others : List Char}

theorem length_eq (h : SameDigits digits others) : digits.length = others.length := by
  have hlength := congrArg List.length h
  rwa [List.length_map, List.length_map] at hlength

theorem all_isDigit (h : SameDigits digits others) : digits.all isDigit = others.all isDigit := by
  have hall : ∀ run : List Char, run.all isDigit = (run.map digitValue?).all Option.isSome := by
    intro run
    rw [List.all_map]
    rfl
  rw [hall, hall, h]

theorem digitsValue_eq (h : SameDigits digits others) :
    digitsValue digits = digitsValue others := by
  have hfold : ∀ run : List Char, digitsValue run =
      (run.map digitValue?).foldl (fun value digit => value * 10 + digit.getD 0) 0 := by
    intro run
    rw [digitsValue, List.foldl_map]
  rw [hfold, hfold, h]

theorem isDigitRun {count : Nat} (h : SameDigits digits others) (hd : IsDigitRun count digits) :
    IsDigitRun count others :=
  ⟨h.length_eq.symm.trans hd.1, h.all_isDigit.symm.trans hd.2⟩

end SameDigits

namespace Redigited

variable {allowed : Nat → Prop} {offset : Nat} {cs ds : List Char}

theorem sameDigits (h : Redigited allowed offset cs ds) : SameDigits cs ds := by
  unfold SameDigits
  induction h with
  | nil => rfl
  | kept _ ih => rw [List.map_cons, List.map_cons, ih]
  | replaced _ hc hd _ ih => rw [List.map_cons, List.map_cons, ih, hc, hd]

theorem length_eq (h : Redigited allowed offset cs ds) : ds.length = cs.length := by
  exact h.sameDigits.length_eq.symm

theorem kept_append (front : List Char) {later others : List Char}
    (h : Redigited allowed (offset + front.length) later others) :
    Redigited allowed offset (front ++ later) (front ++ others) := by
  induction front generalizing offset with
  | nil => exact h
  | cons c front ih => exact .kept (ih (by rwa [Nat.add_right_comm]))

/-- What is no digit stays. -/
theorem of_cons {c : Char} (h : Redigited allowed offset (c :: cs) ds) (hc : isDigit c = false) :
    ∃ rest, ds = c :: rest ∧ Redigited allowed (offset + 1) cs rest := by
  cases h with
  | kept hr => exact ⟨_, rfl, hr⟩
  | replaced _ hvalue => simp [isDigit, hvalue] at hc

theorem of_append {front rest : List Char} (h : Redigited allowed offset (front ++ rest) ds) :
    ∃ first later, ds = first ++ later ∧ Redigited allowed offset front first ∧
      Redigited allowed (offset + front.length) rest later := by
  induction front generalizing offset ds with
  | nil => exact ⟨[], ds, rfl, .nil, h⟩
  | cons c front ih =>
    have hlength : offset + (c :: front).length = offset + 1 + front.length := by
      rw [List.length_cons]
      omega
    rw [hlength]
    rw [List.cons_append] at h
    cases h with
    | kept hr =>
      obtain ⟨first, later, rfl, hfirst, hlater⟩ := ih hr
      exact ⟨c :: first, later, rfl, .kept hfirst, hlater⟩
    | @replaced _ _ d _ _ _ ha hc hd hr =>
      obtain ⟨first, later, rfl, hfirst, hlater⟩ := ih hr
      exact ⟨d :: first, later, rfl, .replaced ha hc hd hfirst, hlater⟩

theorem eq_of_not_allowed (h : Redigited allowed offset cs ds)
    (hn : ∀ place, offset ≤ place → place < offset + cs.length → ¬allowed place) : ds = cs := by
  induction h with
  | nil => rfl
  | @kept offset c cs ds _ ih =>
    rw [ih fun place hfrom hto => hn place (by omega) (by rw [List.length_cons]; omega)]
  | @replaced offset c d cs ds value ha => exact absurd ha (hn offset (by omega) (by simp))

theorem atBoundary (h : Redigited allowed offset cs ds) (hb : atBoundary cs) :
    SearchFilter.atBoundary ds := by
  cases h with
  | nil => rfl
  | kept => exact hb
  | replaced _ hc =>
    have hpart := isWordPart_of_isDigit (Option.isSome_iff_exists.mpr ⟨_, hc⟩)
    simp [SearchFilter.atBoundary, hpart] at hb

end Redigited

theorem DateWord.Alike.proper {word other : DateWord} (h : word.Alike other) (hp : word.Proper) :
    other.Proper := by
  cases h with
  | year hy => exact hy.isDigitRun hp
  | month hy hm => exact ⟨hy.isDigitRun hp.1, hm.isDigitRun hp.2⟩
  | day hy hm hd => exact ⟨hy.isDigitRun hp.1, hm.isDigitRun hp.2.1, hd.isDigitRun hp.2.2⟩

theorem DateWord.Alike.refl (word : DateWord) : word.Alike word := by
  cases word with
  | year y => exact .year rfl
  | month y m => exact .month rfl rfl
  | day y m d => exact .day rfl rfl rfl

/-- Alike dates have the same numbers. -/
theorem DateWord.Alike.literal_eq {word other : DateWord} (h : word.Alike other) (position : Nat) :
    other.literal position =
      { word.literal position with text := (other.literal position).text } := by
  cases h with
  | year hy => simp only [literal, hy.digitsValue_eq]
  | month hy hm => simp only [literal, hy.digitsValue_eq, hm.digitsValue_eq]
  | day hy hm hd => simp only [literal, hy.digitsValue_eq, hm.digitsValue_eq, hd.digitsValue_eq]

theorem Redigited.exists_dateWord {allowed : Nat → Prop} {offset : Nat} {word : DateWord}
    {ds : List Char} (h : Redigited allowed offset word.written ds) :
    ∃ other : DateWord, other.written = ds ∧ word.Alike other := by
  have hyphen : isDigit '-' = false := by decide
  cases word with
  | year y => exact ⟨.year ds, rfl, .year h.sameDigits⟩
  | month y m =>
    obtain ⟨b, _, rfl, hy, hrest⟩ := h.of_append
    obtain ⟨n, rfl, hm⟩ := hrest.of_cons hyphen
    exact ⟨.month b n, rfl, .month hy.sameDigits hm.sameDigits⟩
  | day y m d =>
    rw [DateWord.written, List.append_assoc, List.cons_append] at h
    obtain ⟨b, _, rfl, hy, hbehind⟩ := h.of_append
    obtain ⟨_, rfl, hrest⟩ := hbehind.of_cons hyphen
    obtain ⟨n, _, rfl, hm, hlast⟩ := hrest.of_append
    obtain ⟨e, rfl, hd⟩ := hlast.of_cons hyphen
    exact ⟨.day b n e, by simp [DateWord.written], .day hy.sameDigits hm.sameDigits hd.sameDigits⟩

theorem Redigited.exists_lexeme {allowed : Nat → Prop} {offset : Nat} {lexeme : Lexeme}
    {ds : List Char} (h : Redigited allowed offset lexeme.written ds)
    (hn : ¬lexeme.IsSpan → ∀ place, offset ≤ place → place < offset + lexeme.written.length →
      ¬allowed place) :
    ∃ other : Lexeme, other.written = ds ∧ lexeme.Alike other := by
  by_cases hspan : lexeme.IsSpan
  · cases lexeme with
    | date word =>
      obtain ⟨other, rfl, halike⟩ := exists_dateWord h
      exact ⟨.date other, rfl, .date halike⟩
    | duration digits unit =>
      obtain ⟨others, _, rfl, hdigits, hrest⟩ := h.of_append
      obtain ⟨_, rfl, hnil⟩ := hrest.of_cons (isDigit_suffix unit)
      cases hnil
      exact ⟨.duration others unit, rfl, .duration hdigits.sameDigits⟩
    | _ => exact absurd hspan id
  · exact ⟨lexeme, (h.eq_of_not_allowed (hn hspan)).symm, .same⟩

namespace Lexeme.Alike

variable {lexeme other : Lexeme}

theorem proper (h : lexeme.Alike other) (hp : lexeme.Proper) : other.Proper := by
  cases h with
  | same => exact hp
  | date hw => exact hw.proper hp
  | duration hd =>
    refine ⟨fun hnil => hp.1 ?_, hd.all_isDigit.symm.trans hp.2⟩
    have hlength := hd.length_eq
    rw [hnil] at hlength
    exact List.length_eq_zero_iff.mp hlength

/-- Alike lexemes that are not the same are dates or durations both. -/
theorem eq_or_isSpan (h : lexeme.Alike other) :
    lexeme = other ∨ lexeme.IsSpan ∧ other.IsSpan := by
  cases h with
  | same => exact .inl rfl
  | date => exact .inr ⟨trivial, trivial⟩
  | duration => exact .inr ⟨trivial, trivial⟩

theorem length_written (h : lexeme.Alike other) : lexeme.written.length = other.written.length := by
  cases h with
  | same => rfl
  | duration hd => rw [written, written, List.length_append, List.length_append, hd.length_eq]
  | date hw =>
    cases hw with
    | year hy => exact hy.length_eq
    | month hy hm => simp [written, DateWord.written, hy.length_eq, hm.length_eq]
    | day hy hm hd => simp [written, DateWord.written, hy.length_eq, hm.length_eq, hd.length_eq]

/-- Alike lexemes are dates, or they have the same token. -/
theorem token_cases (h : lexeme.Alike other) :
    (∃ word date, lexeme = .date word ∧ other = .date date ∧ word.Alike date) ∨
      ∀ position, lexeme.token position = other.token position ∧
        ∀ literal, lexeme.token position ≠ .date literal := by
  cases h with
  | date hw => exact .inl ⟨_, _, rfl, rfl, hw⟩
  | duration hd =>
    refine .inr fun position => ⟨by rw [token, token, hd.digitsValue_eq], fun literal he => ?_⟩
    cases he
  | same =>
    cases lexeme with
    | date word => exact .inl ⟨word, word, rfl, rfl, .refl word⟩
    | _ =>
      refine .inr fun position => ⟨rfl, fun literal he => ?_⟩
      cases he

end Lexeme.Alike

/-- A text of which digits are replaced in its dates and durations has alike lexemes. -/
theorem Spells.redigited {offset : Nat} {cs ds : List Char} {placed : List Placed}
    {allowed : Nat → Prop} (h : Spells offset cs placed) (hr : Redigited allowed offset cs ds)
    (hallowed : ∀ place, offset ≤ place → allowed place → InSpan placed place) :
    ∃ others, Spells offset ds others ∧ List.Forall₂ Placed.Alike placed others := by
  induction h generalizing ds with
  | nil =>
    cases hr
    exact ⟨[], .nil, .nil⟩
  | @blank offset c rest placed hc _ ih =>
    have hdigit : isDigit c = false := by
      cases hd : isDigit c with
      | false => rfl
      | true => simpa [isWordPart_of_isDigit hd] using isWordPart_of_isBlank hc
    obtain ⟨later, rfl, hlater⟩ := hr.of_cons hdigit
    obtain ⟨others, hs, halike⟩ := ih hlater fun place hp => hallowed place (by omega)
    exact ⟨others, .blank hc hs, halike⟩
  | @lexeme offset cs rest lexeme placed hl hrest ih =>
    rw [hl.split] at hr
    obtain ⟨first, later, rfl, hfirst, hlater⟩ := hr.of_append
    -- Only the first lexeme has anything in front of where it ends.
    have hbehind : ∀ place, offset + lexeme.written.length ≤ place → allowed place →
        InSpan placed place := by
      intro place hp ha
      obtain ⟨found, hm, hspan, hfrom, hto⟩ := hallowed place (by omega) ha
      rcases List.mem_cons.mp hm with rfl | hm
      · exact absurd hto (Nat.not_lt.mpr hp)
      · exact ⟨found, hm, hspan, hfrom, hto⟩
    have hwithin : ¬lexeme.IsSpan → ∀ place, offset ≤ place →
        place < offset + lexeme.written.length → ¬allowed place := by
      intro hspan place hp hto ha
      obtain ⟨found, hm, hfound, hfrom, -⟩ := hallowed place hp ha
      rcases List.mem_cons.mp hm with rfl | hm
      · exact hspan hfound
      · have hle := hrest.le_offset found hm
        omega
    obtain ⟨other, rfl, hother⟩ := hfirst.exists_lexeme hwithin
    obtain ⟨others, hs, halike⟩ := ih hlater hbehind
    have hheads : other.Heads (other.written ++ later) later := by
      refine ⟨hother.proper hl.proper, rfl, fun hn => hlater.atBoundary (hl.whole fun c he => ?_)⟩
      rcases hother.eq_or_isSpan with rfl | ⟨hspan, -⟩
      · exact hn c he
      · rw [he] at hspan
        exact hspan
    rw [hother.length_written] at hs
    exact ⟨⟨offset, other⟩ :: others, .lexeme hheads hs, .cons ⟨rfl, hother⟩ halike⟩

/-- A lexeme in the place of which another one may stand in an expression. -/
def Lexeme.Exchanges (lexeme other : Lexeme) : Prop := lexeme = other ∨ lexeme.IsSpan ∧ other.IsSpan

theorem exists_of_forall₂_append {α β : Type} {R : α → β → Prop} {front rest : List α}
    {others : List β} (h : List.Forall₂ R (front ++ rest) others) :
    ∃ first later, others = first ++ later ∧ List.Forall₂ R front first ∧
      List.Forall₂ R rest later := by
  induction front generalizing others with
  | nil => exact ⟨[], others, rfl, .nil, h⟩
  | cons a front ih =>
    cases h with
    | cons hab hmore =>
      obtain ⟨first, later, rfl, hfront, hrest⟩ := ih hmore
      exact ⟨_ :: first, later, rfl, .cons hab hfront, hrest⟩

theorem IsTerm.exchanged {term others : List Lexeme} (h : IsTerm term)
    (he : List.Forall₂ Lexeme.Exchanges term others) : IsTerm others := by
  have span : ∀ {lexeme other : Lexeme}, lexeme.IsSpan → lexeme.Exchanges other → other.IsSpan := by
    rintro lexeme other hs (rfl | ⟨-, ho⟩)
    · exact hs
    · exact ho
  have solid : ∀ {lexeme other : Lexeme}, ¬lexeme.IsSpan → lexeme.Exchanges other →
      lexeme = other := fun hn hx => hx.resolve_right fun hs => hn hs.1
  cases h with
  | tag name =>
    obtain _ | ⟨hx, ⟨⟩⟩ := he
    obtain rfl := solid id hx
    exact .tag name
  | notTag name =>
    obtain _ | ⟨hx, ⟨⟩⟩ := he
    obtain rfl := solid id hx
    exact .notTag name
  | span hs =>
    obtain _ | ⟨hx, ⟨⟩⟩ := he
    exact .span (span hs hx)
  | bounded comparison hs =>
    obtain _ | ⟨hx, _ | ⟨hy, ⟨⟩⟩⟩ := he
    obtain rfl := solid id hx
    exact .bounded comparison (span hs hy)

theorem IsExpression.exchanged {lexemes others : List Lexeme} (h : IsExpression lexemes)
    (he : List.Forall₂ Lexeme.Exchanges lexemes others) : IsExpression others := by
  induction h generalizing others with
  | term ht => exact .term (ht.exchanged he)
  | joined connective ht _ ih =>
    obtain ⟨first, _, rfl, hfirst, hlater⟩ := exists_of_forall₂_append he
    obtain _ | ⟨hx, hrest⟩ := hlater
    obtain rfl := hx.resolve_right fun hs => hs.1
    exact .joined connective (ht.exchanged hfirst) (ih hrest)

/-- The same token, but with the text of a date as it is in a second text, at the place at which it
is in the first one. -/
inductive Token.Rewritten (cs ds : List Char) : Token → Token → Prop
  | same {token : Token} : (∀ literal, token ≠ .date literal) → Rewritten cs ds token token
  | date {literal : DateLiteral} {position place : Nat} :
      literal.position = position → WrittenBehind cs literal.text.toList position place →
      Rewritten cs ds (.date literal)
        (.date { literal with text := .ofList ((ds.drop place).take literal.text.length) })

/-- Alike lexemes have the same tokens, but for the texts of dates. -/
theorem tokensFrom_rewritten {cs ds : List Char} {before others placed later : List Placed}
    (hs : Spells 0 cs (before ++ placed)) (ho : Spells 0 ds (others ++ later))
    (hbehind : before.foldl (fun _ found => found.behind) none =
      others.foldl (fun _ found => found.behind) none)
    (h : List.Forall₂ Placed.Alike placed later) :
    List.Forall₂ (Token.Rewritten cs ds)
      (tokensFrom (before.foldl (fun _ found => found.behind) none) placed)
      (tokensFrom (before.foldl (fun _ found => found.behind) none) later) := by
  induction h generalizing before others with
  | nil => exact .nil
  | @cons first next placed later halike _ ih =>
    obtain ⟨place, lexeme⟩ := first
    obtain ⟨_, other⟩ := next
    obtain ⟨rfl, hlexeme⟩ := halike
    have hfirst : Placed.behind ⟨place, lexeme⟩ = Placed.behind ⟨place, other⟩ := by
      cases hlexeme <;> rfl
    have hnext : Spells 0 cs ((before ++ [⟨place, lexeme⟩]) ++ placed) := by simpa using hs
    have hother : Spells 0 ds ((others ++ [⟨place, other⟩]) ++ later) := by simpa using ho
    have hlater := ih hnext hother (by simpa using hfirst)
    simp only [List.foldl_append, List.foldl_cons, List.foldl_nil] at hlater
    rw [tokensFrom, tokensFrom, ← hfirst]
    refine .cons ?_ hlater
    rcases hlexeme.token_cases with ⟨word, date, rfl, rfl, hword⟩ | htoken
    · have hold := hs.writtenBehind
      have hnew := ho.writtenBehind
      rw [positionBehind, ← hbehind, ← positionBehind] at hnew
      have hlength : (word.literal (positionBehind before place)).text.length =
          date.written.length := by
        rw [DateWord.text_literal, String.length_ofList]
        exact (Lexeme.Alike.date hword).length_written
      change Token.Rewritten cs ds (.date (word.literal (positionBehind before place)))
        (.date (date.literal (positionBehind before place)))
      rw [← String.toList_ofList (l := word.written), ← DateWord.text_literal] at hold
      rw [hword.literal_eq, DateWord.text_literal, ← hnew.slice_place, ← hlength]
      exact .date (word.position_literal _) hold
    · obtain ⟨heq, hdate⟩ := htoken
        ((before.foldl (fun _ found => found.behind) none).getD place)
      rw [← heq]
      exact .same hdate

def DateLiteral.withoutText (literal : DateLiteral) : DateLiteral := { literal with text := "" }

/-- A failure that does not name the date that it is about. -/
def Failure.withoutTerm : Failure → Failure
  | .impossibleDate _ position fault => .impossibleDate "" position fault
  | failure => failure

theorem restated_withoutText : Restated DateLiteral.withoutText Failure.withoutTerm where
  year _ := rfl
  month _ := rfl
  day _ := rfl
  impossible _ _ := rfl
  other failure h := by
    cases failure with
    | impossibleDate term position fault => exact absurd rfl (h term position fault)
    | _ => rfl

theorem map_withoutText_of_rewritten {cs ds : List Char} {tokens others : List Token}
    (h : List.Forall₂ (Token.Rewritten cs ds) tokens others) :
    others.map (Token.mapDate DateLiteral.withoutText) =
      tokens.map (Token.mapDate DateLiteral.withoutText) := by
  induction h with
  | nil => rfl
  | cons hr _ ih =>
    rw [List.map_cons, List.map_cons, ih]
    cases hr <;> rfl

theorem holdsLongAmount_of_alike {lexemes others : List Lexeme}
    (h : List.Forall₂ Lexeme.Alike lexemes others) (hl : HoldsLongAmount others) :
    HoldsLongAmount lexemes := by
  obtain ⟨digits, unit, hm, hlong⟩ := hl
  obtain ⟨front, rest, rfl⟩ := List.append_of_mem hm
  obtain ⟨first, _, rfl, -, hlater⟩ := exists_of_forall₂_append h.flip
  obtain _ | ⟨halike, _⟩ := hlater
  cases halike with
  | same => exact ⟨digits, unit, by simp, hlong⟩
  | @duration fewer _ _ hd => exact ⟨fewer, unit, by simp, by rwa [hd.length_eq]⟩

/-- A filter of which digits in dates and durations are replaced by digits of the same value is a
filter still. -/
theorem tokenize_redigited {text other : String} {placed : List Placed}
    (hs : Spells 0 text.toList placed) (he : IsExpression (placed.map Placed.lexeme))
    (hl : ¬HoldsLongAmount (placed.map Placed.lexeme))
    (h : Redigited (InSpan placed) 0 text.toList other.toList) :
    ∃ others, tokenize other = .ok (others ++ [.endOfInput]) ∧
      List.Forall₂ (Token.Rewritten text.toList other.toList) (tokensFrom none placed) others := by
  obtain ⟨later, ho, halike⟩ := hs.redigited h fun _ _ ha => ha
  have hlexemes : List.Forall₂ Lexeme.Alike (placed.map Placed.lexeme) (later.map Placed.lexeme) :=
    List.rel_map (fun _ _ ha => ha.lexeme) halike
  have hexpression := he.exchanged (hlexemes.imp fun _ _ ha => ha.eq_or_isSpan)
  have hshort : ¬HoldsLongAmount (later.map Placed.lexeme) :=
    mt (holdsLongAmount_of_alike hlexemes) hl
  have hold : Spells 0 text.toList ([] ++ placed) := hs
  have hnew : Spells 0 other.toList ([] ++ later) := ho
  exact ⟨_, tokenize_eq_ok_iff_spells.mpr ⟨later, ho, hexpression, hshort, rfl⟩,
    tokensFrom_rewritten hold hnew rfl halike⟩

/-- Compiling comes to the same, but for the text of a date in a failure. -/
theorem compile_redigited {text other : String} {tokens others : List Token}
    (ht : tokenize text = .ok tokens) (ho : tokenize other = .ok others)
    (h : List.Forall₂ (Token.Rewritten text.toList other.toList) tokens others)
    (compiler : Compiler) (now : Option Moment) :
    (compiler.compile other now).outcome.mapError Failure.withoutTerm =
      (compiler.compile text now).outcome.mapError Failure.withoutTerm := by
  rw [Compiler.compile_of_tokenize ho, Compiler.compile_of_tokenize ht,
    ← restated_withoutText.compileTokens_map, ← restated_withoutText.compileTokens_map,
    map_withoutText_of_rewritten h]

end SearchFilter

import SearchFilter.Proofs.Joining
import SearchFilter.Proofs.Relocation
import SearchFilter.Proofs.TokenSequence
import SearchFilter.Proofs.WaitingComparator

namespace SearchFilter

namespace DateLiteral

/-- A text in which both bounds stand for a date that a literal says is there, each of them as the
date behind a comparator. -/
def splitIn (literal : DateLiteral) (text : String) : String :=
  .ofList (text.toList.take literal.position.toNat) ++ ">" ++ literal.text ++ " AND <" ++
    literal.text ++ .ofList (text.toList.drop (literal.position.toNat + literal.text.length))

/-- How many characters more are in the text for both bounds than in the date alone. -/
def splitExtent (literal : DateLiteral) : Nat := literal.text.length + 7

/-- How many of them stand in front of what was at a position. In front of the date itself it is the
comparator of the first bound. -/
def insertedBefore (literal : DateLiteral) (position : Int) : Int :=
  if position < literal.position then 0
  else if position = literal.position then 1
  else literal.splitExtent

/-- The tokens of both bounds. -/
def splitTokens (literal : DateLiteral) : List Token :=
  [.comparator .greater, .date (literal.moved 1), .connective .and, .comparator .less,
    .date (literal.moved literal.splitExtent)]

end DateLiteral

/-- A term with a date in it that no comparator precedes is that date. -/
theorem IsTerm.eq_date {front rest : List Lexeme} {word : DateWord}
    (h : IsTerm (front ++ .date word :: rest))
    (hfront : ∀ comparison, front.getLast? ≠ some (.comparator comparison)) :
    front = [] ∧ rest = [] := by
  generalize hl : front ++ .date word :: rest = term at h
  cases h with
  | tag name => simp [List.append_eq_cons_iff] at hl
  | notTag name => simp [List.append_eq_cons_iff] at hl
  | span hs =>
    rcases List.append_eq_singleton_iff.mp hl with ⟨rfl, he⟩ | ⟨-, he⟩
    · exact ⟨rfl, (List.cons.inj he).2⟩
    · cases he
  | bounded comparison hs =>
    cases front with
    | nil => cases hl
    | cons first front =>
      obtain ⟨rfl, htail⟩ := List.cons.inj hl
      rcases List.append_eq_singleton_iff.mp htail with ⟨rfl, -⟩ | ⟨-, he⟩
      · exact absurd rfl (hfront comparison)
      · cases he

/-- The lexemes of an expression stay those of one if both bounds replace a date in it. -/
theorem IsExpression.split_date {front rest : List Lexeme} {word : DateWord}
    (h : IsExpression (front ++ .date word :: rest))
    (hfront : ∀ comparison, front.getLast? ≠ some (.comparator comparison)) :
    IsExpression (front ++ .comparator .greater :: .date word :: .connective .and ::
      .comparator .less :: .date word :: rest) := by
  have bound : ∀ comparison, IsTerm [.comparator comparison, .date word] :=
    fun comparison => .bounded comparison trivial
  generalize hl : front ++ .date word :: rest = lexemes at h
  induction h generalizing front with
  | term ht =>
    subst hl
    obtain ⟨rfl, rfl⟩ := ht.eq_date hfront
    exact .joined .and (bound .greater) (.term (bound .less))
  | joined connective ht hlater ih =>
    rcases List.append_eq_append_iff.mp hl with ⟨more, rfl, hmore⟩ | ⟨more, rfl, hmore⟩
    · cases more with
      | nil => cases hmore
      | cons next tail =>
        obtain ⟨rfl, rfl⟩ := List.cons.inj hmore
        obtain ⟨rfl, rfl⟩ := ht.eq_date hfront
        exact .joined .and (bound .greater) (.joined connective (bound .less) hlater)
    · cases more with
      | nil => cases hmore
      | cons next tail =>
        obtain ⟨rfl, rfl⟩ := List.cons.inj hmore
        have htail : ∀ comparison, tail.getLast? ≠ some (.comparator comparison) := by
          intro comparison hlast
          exact hfront comparison (by simp [List.getLast?_append, List.getLast?_cons, hlast])
        rw [List.append_assoc, List.cons_append]
        exact .joined connective ht (ih htail rfl)

namespace Token

/-- No comparator waits in front of a date that none precedes. -/
theorem IsGrouped.waitingBehind_eq_none {front rest : List Token} {literal : DateLiteral}
    (h : IsGrouped (front ++ .date literal :: rest))
    (hfront : ∀ comparison, front.getLast? ≠ some (.comparator comparison)) :
    waitingBehind (front.map .token) = none := by
  refine Option.eq_none_iff_forall_ne_some.mpr fun comparison hwaits => ?_
  obtain ⟨before, after, hsplit, hafter⟩ := waitingBehind_eq_some_iff.mp hwaits
  obtain ⟨before, tail, rfl, rfl, htail⟩ := List.map_eq_append_iff.mp hsplit
  obtain ⟨token, after, rfl, htoken, rfl⟩ := List.map_eq_cons_iff.mp htail
  cases Item.token.inj htoken
  cases after with
  | nil => exact hfront comparison (by simp)
  | cons next after =>
    rw [List.append_assoc] at h
    have hspan : next.IsSpan := h.isSpan
    obtain ⟨htimed, -⟩ := hafter (.token next) (by simp)
    cases next <;> first | exact hspan | cases htimed

end Token

/-- Both bounds, one behind the other, add to a filter what the date alone adds, and leave no
comparator waiting either. -/
theorem piecesOf_splitTokens (now : Moment) (literal : DateLiteral) (rest : List Token) :
    piecesOf now none ((literal.splitTokens ++ rest).map .token) =
      piecesOf now none ((.date (literal.moved 1) :: rest).map .token) := by
  have hrange : ∀ distance : Nat, (literal.moved distance).range =
      literal.range.mapError (Failure.relocated (· + distance)) := fun _ => restated_relocated.range
  simp only [DateLiteral.splitTokens, List.cons_append, List.nil_append, List.map_cons, piecesOf,
    Token.pieces, Token.pendingAfter, hrange]
  cases literal.range with
  | error failure => rfl
  | ok range =>
    simp only [Except.mapError, bind, Except.bind, pure, Except.pure]
    cases datePiece .greater range.startEpoch with
    | error failure => rfl
    | ok after =>
      cases datePiece .less range.endEpoch with
      | error failure => rfl
      | ok before => cases piecesOf now none (rest.map .token) <;> rfl

theorem Lexeme.token_moved {lexeme : Lexeme} {position distance : Nat} :
    lexeme.token (position + distance) = (lexeme.token position).moved distance := by
  cases lexeme with
  | date word => rw [token, DateWord.literal_moved]; rfl
  | _ => rfl

theorem tokensFrom_moved (distance : Nat) (behind : Option Nat) (placed : List Placed) :
    tokensFrom (behind.map (· + distance)) (placed.map (Placed.moved distance)) =
      (tokensFrom behind placed).map (Token.moved distance) := by
  induction placed generalizing behind with
  | nil => rfl
  | cons first placed ih =>
    have hposition : (behind.map (· + distance)).getD (first.offset + distance) =
        behind.getD first.offset + distance := by cases behind <;> rfl
    have hbehind : (first.moved distance).behind = first.behind.map (· + distance) := by
      obtain ⟨offset, lexeme⟩ := first
      cases lexeme with
      | comparator comparison => exact congrArg some (Nat.add_right_comm _ _ _)
      | _ => rfl
    have htoken : (first.moved distance).lexeme.token
        ((behind.map (· + distance)).getD (first.moved distance).offset) =
          (first.lexeme.token (behind.getD first.offset)).moved distance :=
      (congrArg first.lexeme.token hposition).trans Lexeme.token_moved
    rw [List.map_cons, tokensFrom, hbehind, ih, htoken, tokensFrom, List.map_cons]

/-- Among tokens whose dates do not overlap, the change moves those behind a date by all that is
inserted, and those in front of it not at all. -/
theorem map_relocated_insertedBefore {front rest : List Token} {literal : DateLiteral}
    (h : (front ++ .date literal :: rest).Pairwise Token.DatesApart) :
    (front ++ .date literal :: rest).map
        (Token.relocated fun position => position + literal.insertedBefore position) =
      front ++ .date (literal.moved 1) :: rest.map (Token.moved literal.splitExtent) := by
  obtain ⟨-, hrest, hfront⟩ := List.pairwise_append.mp h
  have before : ∀ token ∈ front, token.relocated
      (fun position => position + literal.insertedBefore position) = token := by
    intro token hm
    cases token with
    | date other =>
      have hlt := (hfront _ hm _ List.mem_cons_self other literal rfl rfl).1
      simp [Token.relocated, DateLiteral.relocated, DateLiteral.insertedBefore, hlt]
    | _ => rfl
  have after : ∀ token ∈ rest, token.relocated
      (fun position => position + literal.insertedBefore position) =
        token.moved literal.splitExtent := by
    intro token hm
    cases token with
    | date other =>
      have hlt := ((List.pairwise_cons.mp hrest).1 _ hm literal other rfl rfl).1
      have hnot : ¬other.position < literal.position := by omega
      have hne : other.position ≠ literal.position := by omega
      simp [Token.relocated, DateLiteral.relocated, DateLiteral.insertedBefore, Token.moved, hnot,
        hne]
    | _ => rfl
  rw [List.map_append, List.map_cons, List.map_congr_left before, List.map_congr_left after,
    List.map_id']
  simp [Token.relocated, DateLiteral.relocated, DateLiteral.insertedBefore, DateLiteral.moved]

/-- The lexemes of both bounds for a date at a place. -/
def splitPlaced (place : Nat) (word : DateWord) : List Placed :=
  [⟨place, .comparator .greater⟩, ⟨place + 1, .date word⟩,
    ⟨place + 1 + word.written.length + 1, .connective .and⟩,
    ⟨place + 1 + word.written.length + 5, .comparator .less⟩,
    ⟨place + 1 + word.written.length + 6, .date word⟩]

/-- A text with both bounds in the place of a date has their lexemes there, and those behind them at
a distance. -/
theorem Spells.split_date {head more : List Char} {front rest : List Placed} {word : DateWord}
    (hfront : Spells 0 head front) (hword : (Lexeme.date word).Proper) (hmore : atBoundary more)
    (hrest : Spells (head.length + word.written.length) more rest) :
    Spells 0
      (head ++ '>' :: (word.written ++ ' ' :: 'A' :: 'N' :: 'D' :: ' ' :: '<' ::
        (word.written ++ more)))
      (front ++ (splitPlaced head.length word ++
        rest.map (Placed.moved (word.written.length + 7)))) := by
  have date : ∀ tail, atBoundary tail → (Lexeme.date word).Heads (word.written ++ tail) tail :=
    fun tail hb => ⟨hword, rfl, fun _ => hb⟩
  have sign : ∀ comparison tail,
      (Lexeme.comparator comparison).Heads (comparison.symbol :: tail) tail :=
    fun comparison tail => ⟨trivial, rfl, fun hn => absurd rfl (hn comparison)⟩
  have blank : ∀ tail, atBoundary (' ' :: tail) := fun _ => rfl
  have hmoved := hrest.moved (word.written.length + 7)
  have hend : head.length + word.written.length + (word.written.length + 7) =
      head.length + 1 + word.written.length + 6 + word.written.length := by omega
  rw [hend] at hmoved
  refine hfront.append_of_atBoundary rfl ?_
  rw [Nat.zero_add]
  exact .lexeme (sign .greater _) (.lexeme (date _ (blank _)) (.blank rfl
    (.lexeme (Lexeme.heads_connective (blank _)) (.blank rfl
      (.lexeme (sign .less _) (.lexeme (date _ hmore) hmoved))))))

/-- A date that no comparator precedes is a lexeme of its text that none precedes, and is taken to
begin where it is written. -/
theorem exists_date_of_tokenize {text : String} {front rest : List Token} {literal : DateLiteral}
    (h : tokenize text = .ok (front ++ .date literal :: rest))
    (hfront : ∀ comparison, front.getLast? ≠ some (.comparator comparison)) :
    ∃ before place word after,
      Spells 0 text.toList (before ++ ⟨place, .date word⟩ :: after) ∧
      IsExpression ((before ++ ⟨place, .date word⟩ :: after).map Placed.lexeme) ∧
      ¬HoldsLongAmount ((before ++ ⟨place, .date word⟩ :: after).map Placed.lexeme) ∧
      (∀ comparison, (before.map Placed.lexeme).getLast? ≠ some (.comparator comparison)) ∧
      front = tokensFrom none before ∧ literal = word.literal place ∧
      rest = tokensFrom none after ++ [.endOfInput] := by
  obtain ⟨placed, hs, he, hl, htokens⟩ := tokenize_eq_ok_iff_spells.mp h
  obtain ⟨later, rfl, hsplit⟩ : ∃ later, rest = later ++ [.endOfInput] ∧
      tokensFrom none placed = front ++ .date literal :: later := by
    rcases List.eq_nil_or_concat rest with rfl | ⟨later, last, rfl⟩
    · cases (List.append_inj' htokens rfl).2
    · rw [List.concat_eq_append, ← List.cons_append, ← List.append_assoc] at htokens
      obtain ⟨hsplit, hlast⟩ := List.append_inj' htokens rfl
      exact ⟨later, by rw [List.concat_eq_append, hlast], hsplit.symm⟩
  obtain ⟨before, ⟨place, lexeme⟩, after, rfl, rfl, ht⟩ := exists_lexeme_of_tokensFrom hsplit
  have hsolid : ∀ comparison,
      (before.map Placed.lexeme).getLast? ≠ some (.comparator comparison) := by
    intro comparison hlast
    obtain ⟨_, hlexemes⟩ := List.getLast?_eq_some_iff.mp hlast
    obtain ⟨first, last, rfl, -, hone⟩ := List.map_eq_append_iff.mp hlexemes
    obtain ⟨⟨start, _⟩, rfl, rfl⟩ := List.map_eq_singleton_iff.mp hone
    refine hfront comparison ?_
    rw [tokensFrom_append]
    simp [tokensFrom, Lexeme.token]
  rw [behind_eq_none hsolid] at ht
  cases lexeme with
  | date word =>
    have hposition : positionBehind before place = place := by
      rw [positionBehind, behind_eq_none hsolid]
      rfl
    rw [tokensFrom_date, hposition] at hsplit
    have hlater := (List.cons.inj (List.append_cancel_left hsplit)).2
    exact ⟨before, place, word, after, hs, he, hl, hsolid, rfl, Token.date.inj ht, by rw [hlater]⟩
  | _ => cases ht

/-- A text stays a filter if both bounds replace a date that no comparator precedes. -/
theorem tokenize_splitIn {text : String} {before after : List Placed} {place : Nat}
    {word : DateWord} (hs : Spells 0 text.toList (before ++ ⟨place, .date word⟩ :: after))
    (he : IsExpression ((before ++ ⟨place, .date word⟩ :: after).map Placed.lexeme))
    (hl : ¬HoldsLongAmount ((before ++ ⟨place, .date word⟩ :: after).map Placed.lexeme))
    (hsolid : ∀ comparison,
      (before.map Placed.lexeme).getLast? ≠ some (.comparator comparison)) :
    tokenize ((word.literal place).splitIn text) =
      .ok (tokensFrom none before ++ ((word.literal place).splitTokens ++
        (tokensFrom none after ++ [Token.endOfInput]).map
          (Token.moved (word.literal place).splitExtent))) := by
  obtain ⟨head, tail, more, htext, hhead, hplace, hdate, hafter⟩ := hs.exists_heads
  have hproper : (Lexeme.date word).Proper := hdate.proper
  obtain rfl : place = head.length := hplace.trans (Nat.zero_add _)
  have htail : tail = word.written ++ more := hdate.split
  have hsplit := hhead.split_date hproper (hdate.whole (by simp)) hafter
  have hextent : (word.literal head.length).splitExtent = word.written.length + 7 := by
    rw [DateLiteral.splitExtent, DateWord.text_literal, String.length_ofList]
  have hnew : ((word.literal head.length).splitIn text).toList =
      head ++ '>' :: (word.written ++ ' ' :: 'A' :: 'N' :: 'D' :: ' ' :: '<' ::
        (word.written ++ more)) := by
    rw [DateLiteral.splitIn, DateWord.text_literal, DateWord.position_literal, htext, htail]
    simp
  refine tokenize_eq_ok_iff_spells.mpr ⟨_, hnew ▸ hsplit, ?_, ?_, ?_⟩
  · rw [List.map_append, List.map_cons] at he
    have hexpression := he.split_date hsolid
    simpa [splitPlaced, Placed.moved, Function.comp_def] using hexpression
  · rintro ⟨digits, unit, hm, hlong⟩
    refine hl ⟨digits, unit, ?_, hlong⟩
    simpa [splitPlaced, Placed.moved, Function.comp_def] using hm
  · have hafter := tokensFrom_moved (word.written.length + 7) none after
    rw [tokensFrom_append, behind_eq_none hsolid, List.map_append, hextent, ← hafter]
    have hfirst : (word.literal head.length).moved 1 = word.literal (head.length + 1) :=
      DateWord.literal_moved.symm
    have hsecond : (word.literal head.length).moved (word.written.length + 7) =
        word.literal (head.length + 1 + word.written.length + 5 + 1) := by
      rw [← DateWord.literal_moved]
      congr 1
      omega
    rw [DateLiteral.splitTokens, hextent, hfirst, hsecond]
    simp [splitPlaced, tokensFrom, Placed.behind, Lexeme.token, Token.moved, Token.relocated]

/-- Where no comparator waits both bounds compile to what the date alone does. -/
theorem compileTokens_splitTokens {front : List Token}
    (h : waitingBehind (front.map .token) = none) (now : Moment) (literal : DateLiteral)
    (rest : List Token) :
    compileTokens now (front ++ (literal.splitTokens ++ rest)) =
      compileTokens now (front ++ .date (literal.moved 1) :: rest) := by
  have hrun : ∀ tokens : List Token,
      compileTokens now tokens = compileBehind now [] (tokens.map .token) := fun _ => rfl
  have hshared : ∀ later : List Token,
      (front ++ later).map Item.token = front.map .token ++ later.map .token :=
    fun _ => List.map_append
  rw [hrun, hrun, hshared, hshared]
  refine compileBehind_congr ?_
  rw [List.nil_append, compileBehind, compileBehind, h, piecesOf_splitTokens]

/-- A date that no comparator precedes is the conjunction of its two bounds, wherever it stands in a
filter: with both of them in its place the text is a filter still, with the same tokens around them,
and compiling comes to the same, but for the position that a failure reports, which is moved by as
many characters as are inserted in front of it. -/
theorem Compiler.compile_splitIn {text : String} {front rest : List Token} {literal : DateLiteral}
    (h : tokenize text = .ok (front ++ .date literal :: rest))
    (hfront : ∀ comparison, front.getLast? ≠ some (.comparator comparison)) :
    literal.slice text = literal.text.toList ∧
    tokenize (literal.splitIn text) = .ok (front ++ (literal.splitTokens ++
      rest.map (Token.moved literal.splitExtent))) ∧
    ∀ (compiler : Compiler) (now : Option Moment),
      (compiler.compile (literal.splitIn text) now).outcome =
        (compiler.compile text now).outcome.mapError
          (Failure.relocated fun position => position + literal.insertedBefore position) := by
  obtain ⟨before, place, word, after, hs, he, hl, hsolid, rfl, rfl, rfl⟩ :=
    exists_date_of_tokenize h hfront
  have hsplit := tokenize_splitIn hs he hl hsolid
  have hposition : positionBehind before place = place := by
    rw [positionBehind, behind_eq_none hsolid]
    rfl
  refine ⟨?_, hsplit, fun compiler now => ?_⟩
  · rw [← hposition]
    exact hs.slice_eq_text_iff.mpr hposition
  · have htokens := tokensFrom_date before after place word
    rw [hposition] at htokens
    have hall : tokensFrom none (before ++ ⟨place, .date word⟩ :: after) ++ [.endOfInput] =
        tokensFrom none before ++ .date (word.literal place) ::
          (tokensFrom none after ++ [.endOfInput]) := by
      rw [htokens, List.append_assoc, List.cons_append]
    have hgrouped := isGrouped_of_tokenize (hall ▸ h)
    have hdates : (tokensFrom none (before ++ ⟨place, .date word⟩ :: after)).Pairwise
        Token.DatesApart :=
      tokensFrom_datesApart hs.ordered (fun _ hm => hs.proper hm) (by simp)
    have hapart : List.Pairwise Token.DatesApart
        (tokensFrom none (before ++ ⟨place, .date word⟩ :: after) ++ [.endOfInput]) := by
      refine List.pairwise_append.mpr ⟨hdates, List.pairwise_singleton _ _, ?_⟩
      rintro _ - _ hm _ _ - rfl
      cases List.mem_singleton.mp hm
    rw [htokens] at hgrouped
    rw [hall] at hapart
    rw [compile_of_tokenize hsplit, compile_of_tokenize h,
      compileTokens_splitTokens (hgrouped.waitingBehind_eq_none hfront), ← compileTokens_relocated,
      map_relocated_insertedBefore hapart]

theorem compile_splitIn_second :
    tokenize "vim OR 2019-13 OR >2020" = .ok ([.tag "vim", .connective .or] ++
        .date ⟨2019, some 13, none, "2019-13", 7⟩ :: [.connective .or, .comparator .greater,
          .date ⟨2020, none, none, "2020", 19⟩, .endOfInput]) ∧
      (∀ comparison, [Token.tag "vim", .connective .or].getLast? ≠ some (.comparator comparison)) ∧
      DateLiteral.splitIn ⟨2019, some 13, none, "2019-13", 7⟩ "vim OR 2019-13 OR >2020" =
        "vim OR >2019-13 AND <2019-13 OR >2020" ∧
      ((⟨.startOfDay ⟨2020, 1, 1, by decide, by decide⟩⟩ : Compiler).compile
        "vim OR >2019-13 AND <2019-13 OR >2020" none).outcome =
          .error (.impossibleDate "2019-13" 8 .monthOutOfRange) := by
  have ht : tokenize "vim OR 2019-13 OR >2020" = .ok ([.tag "vim", .connective .or] ++
      .date ⟨2019, some 13, none, "2019-13", 7⟩ :: [.connective .or, .comparator .greater,
        .date ⟨2020, none, none, "2020", 19⟩, .endOfInput]) := eq_ok_of_toOption (by decide +kernel)
  have hfront : ∀ comparison,
      [Token.tag "vim", .connective .or].getLast? ≠ some (.comparator comparison) := by simp
  have hsplit : DateLiteral.splitIn ⟨2019, some 13, none, "2019-13", 7⟩ "vim OR 2019-13 OR >2020" =
      "vim OR >2019-13 AND <2019-13 OR >2020" := by decide +kernel
  obtain ⟨-, -, hcompile⟩ := Compiler.compile_splitIn ht hfront
  have hfails : ((⟨.startOfDay ⟨2020, 1, 1, by decide, by decide⟩⟩ : Compiler).compile
      "vim OR 2019-13 OR >2020" none).outcome =
        .error (.impossibleDate "2019-13" 7 .monthOutOfRange) := by
    rw [Compiler.compile_of_tokenize ht]
    rfl
  refine ⟨ht, hfront, hsplit, ?_⟩
  rw [← hsplit, hcompile, hfails]
  rfl

end SearchFilter

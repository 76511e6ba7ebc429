import Mathlib.Data.List.Induction
import SearchFilter.Proofs.Language
import SearchFilter.Proofs.ScanCut

namespace SearchFilter

/-- Where a date is taken to begin that is written at a place behind some lexemes. -/
def positionBehind (front : List Placed) (place : Nat) : Nat :=
  (front.foldl (fun _ found => found.behind) none).getD place

/-- The part of a text that a literal says it is. -/
def DateLiteral.slice (literal : DateLiteral) (text : String) : List Char :=
  (text.toList.drop literal.position.toNat).take literal.text.length

/-- A word that is written at a place, with nothing but blanks between a position and that place. -/
structure WrittenBehind (cs word : List Char) (position place : Nat) : Prop where
  split : ∃ before gap after, cs = before ++ (gap ++ (word ++ after)) ∧ gap.all isBlank ∧
    before.length = position ∧ before.length + gap.length = place

theorem tokensFrom_append (behind : Option Nat) (front rest : List Placed) :
    tokensFrom behind (front ++ rest) =
      tokensFrom behind front ++
        tokensFrom (front.foldl (fun _ found => found.behind) behind) rest := by
  induction front generalizing behind with
  | nil => rfl
  | cons first front ih =>
    rw [List.cons_append, tokensFrom, ih, tokensFrom, List.foldl_cons, List.cons_append]

theorem tokensFrom_date (front rest : List Placed) (place : Nat) (word : DateWord) :
    tokensFrom none (front ++ ⟨place, .date word⟩ :: rest) =
      tokensFrom none front ++
        .date (word.literal (positionBehind front place)) :: tokensFrom none rest := by
  rw [tokensFrom_append]
  rfl

/-- Each token is that of one lexeme, and those in front of it are those of the lexemes in front. -/
theorem exists_lexeme_of_tokensFrom {behind : Option Nat} {placed : List Placed}
    {before after : List Token} {token : Token}
    (h : tokensFrom behind placed = before ++ token :: after) :
    ∃ front found rest, placed = front ++ found :: rest ∧ tokensFrom behind front = before ∧
      token = found.lexeme.token
        ((front.foldl (fun _ found => found.behind) behind).getD found.offset) := by
  induction placed generalizing behind before with
  | nil => simp [tokensFrom] at h
  | cons first placed ih =>
    cases before with
    | nil => exact ⟨[], first, placed, rfl, rfl, (List.cons.inj h).1.symm⟩
    | cons other before =>
      obtain ⟨rfl, hrest⟩ := List.cons.inj h
      obtain ⟨front, found, rest, rfl, rfl, ht⟩ := ih hrest
      exact ⟨first :: front, found, rest, rfl, rfl, ht⟩

theorem date_mem_tokensFrom_iff {placed : List Placed} {literal : DateLiteral} :
    .date literal ∈ tokensFrom none placed ↔ ∃ front place word rest,
      placed = front ++ ⟨place, .date word⟩ :: rest ∧
      literal = word.literal (positionBehind front place) := by
  constructor
  · intro h
    obtain ⟨before, after, hsplit⟩ := List.append_of_mem h
    obtain ⟨front, ⟨place, lexeme⟩, rest, rfl, -, ht⟩ := exists_lexeme_of_tokensFrom hsplit
    cases lexeme with
    | date word => exact ⟨front, place, word, rest, rfl, Token.date.inj ht⟩
    | _ => cases ht
  · rintro ⟨front, place, word, rest, rfl, rfl⟩
    rw [tokensFrom_date]
    simp

/-- Behind lexemes of which the last is no comparator a date is taken to begin where it is. -/
theorem behind_eq_none {front : List Placed}
    (h : ∀ comparison, (front.map Placed.lexeme).getLast? ≠ some (.comparator comparison)) :
    front.foldl (fun _ found => found.behind) none = none := by
  rcases List.eq_nil_or_concat front with rfl | ⟨before, ⟨start, lexeme⟩, rfl⟩
  · rfl
  · rw [List.concat_eq_append, List.foldl_append]
    cases lexeme with
    | comparator comparison => exact absurd (by simp) (h comparison)
    | _ => rfl

/-- Only a comparator directly in front of a date can move it. -/
theorem positionBehind_cases (front : List Placed) (place : Nat) :
    positionBehind front place = place ∨ ∃ before start comparison,
      front = before ++ [⟨start, .comparator comparison⟩] ∧
      positionBehind front place = start + 1 := by
  rcases List.eq_nil_or_concat front with rfl | ⟨before, ⟨start, lexeme⟩, rfl⟩
  · exact .inl rfl
  · rw [List.concat_eq_append, positionBehind, List.foldl_append]
    cases lexeme with
    | comparator comparison => exact .inr ⟨before, start, comparison, rfl, rfl⟩
    | _ => exact .inl rfl

theorem positionBehind_comparator (before : List Placed) (start place : Nat)
    (comparison : Comparison) :
    positionBehind (before ++ [⟨start, .comparator comparison⟩]) place = start + 1 := by
  rw [positionBehind, List.foldl_append]
  rfl

namespace Spells

variable {cs : List Char} {front rest : List Placed} {place : Nat} {word : DateWord}

/-- A date is taken to begin where it is written, or in front of the blanks before that place. -/
theorem writtenBehind (h : Spells 0 cs (front ++ ⟨place, .date word⟩ :: rest)) :
    WrittenBehind cs word.written (positionBehind front place) place := by
  rcases positionBehind_cases front place with he | ⟨before, start, comparison, rfl, he⟩
  · obtain ⟨head, tail, more, rfl, -, hplace, hdate, -⟩ := h.exists_heads
    have hhead : head.length = place := (hplace.trans (Nat.zero_add _)).symm
    have htail : tail = word.written ++ more := hdate.split
    rw [he, htail]
    exact ⟨head, [], more, rfl, rfl, hhead, hhead⟩
  · rw [List.append_assoc, List.singleton_append] at h
    obtain ⟨head, tail, more, rfl, -, hstart, hsign, hmore⟩ := h.exists_heads
    have hdates : Spells (start + 1) more ([] ++ ⟨place, .date word⟩ :: rest) := hmore
    obtain ⟨gap, last, after, rfl, hgap, hplace, hdate, -⟩ := hdates.exists_heads
    have hlast : last = word.written ++ after := hdate.split
    have htail : tail = [comparison.symbol] ++ (gap ++ last) := hsign.split
    have hlength : (head ++ [comparison.symbol]).length = start + 1 := by
      rw [List.length_append, List.length_singleton]
      exact congrArg (· + 1) (hstart.trans (Nat.zero_add _)).symm
    rw [he, htail, hlast, ← List.append_assoc head]
    refine ⟨_, gap, after, rfl, hgap.all_isBlank, hlength, ?_⟩
    rw [hlength]
    exact hplace.symm

end Spells

namespace WrittenBehind

variable {cs word : List Char} {position place : Nat}

theorem slice_place (h : WrittenBehind cs word position place) :
    (cs.drop place).take word.length = word := by
  obtain ⟨before, gap, after, rfl, -, -, rfl⟩ := h.split
  rw [← List.append_assoc, ← List.length_append, List.drop_left, List.take_left]

/-- A word is found from a position only if no blank stands in front of it there. -/
theorem slice_position_iff (h : WrittenBehind cs word position place) (hne : word ≠ [])
    (hw : ∀ c ∈ word, isBlank c = false) :
    (cs.drop position).take word.length = word ↔ position = place := by
  constructor
  · intro hslice
    obtain ⟨before, gap, after, rfl, hgap, rfl, rfl⟩ := h.split
    rw [List.drop_left] at hslice
    cases gap with
    | nil => rfl
    | cons c gap =>
      obtain ⟨d, rest, rfl⟩ := List.exists_cons_of_ne_nil hne
      simp only [List.all_cons, Bool.and_eq_true] at hgap
      have hc : c = d := (List.cons.inj hslice).1
      have hsolid := hw d (by simp)
      rw [← hc, hgap.1] at hsolid
      cases hsolid
  · rintro rfl
    exact h.slice_place

end WrittenBehind

namespace DateWord

theorem text_literal (word : DateWord) (position : Nat) :
    (word.literal position).text = .ofList word.written := by
  cases word <;> rfl

theorem slice_literal (word : DateWord) (position : Nat) (text : String) :
    (word.literal position).slice text =
      (text.toList.drop position).take word.written.length := by
  rw [DateLiteral.slice, text_literal, position_literal, Int.toNat_natCast, String.length_ofList]

end DateWord

namespace Spells

variable {text : String} {front rest : List Placed} {place : Nat} {word : DateWord}

theorem slice_position_iff (h : Spells 0 text.toList (front ++ ⟨place, .date word⟩ :: rest)) :
    (text.toList.drop (positionBehind front place)).take word.written.length = word.written ↔
      positionBehind front place = place := by
  have hproper : (Lexeme.date word).Proper := h.proper (by simp)
  exact h.writtenBehind.slice_position_iff (Lexeme.written_ne_nil hproper)
    fun _ hc => Lexeme.not_isBlank_of_mem_written hproper hc

/-- A text holds a date where the date is taken to begin exactly if it is written there. -/
theorem slice_eq_text_iff (h : Spells 0 text.toList (front ++ ⟨place, .date word⟩ :: rest)) :
    (word.literal (positionBehind front place)).slice text =
        (word.literal (positionBehind front place)).text.toList ↔
      positionBehind front place = place := by
  rw [DateWord.slice_literal, DateWord.text_literal, String.toList_ofList]
  exact h.slice_position_iff

end Spells

end SearchFilter

import SearchFilter.LexemeReading

namespace SearchFilter

/-- A character that words begin with, and characters of words behind it. -/
def isWord : List Char → Bool
  | [] => false
  | c :: rest => isWordStart c && rest.all isWordPart

def IsDigitRun (count : Nat) (cs : List Char) : Prop := cs.length = count ∧ cs.all isDigit

/-- The runs of digits in a word of date shape have four, two and two digits. -/
def DateWord.Proper : DateWord → Prop
  | .year y => IsDigitRun 4 y
  | .month y m => IsDigitRun 4 y ∧ IsDigitRun 2 m
  | .day y m d => IsDigitRun 4 y ∧ IsDigitRun 2 m ∧ IsDigitRun 2 d

def IsDateWord (cs : List Char) : Prop := ∃ word : DateWord, word.Proper ∧ word.written = cs

def IsDurationWord (cs : List Char) : Prop :=
  ∃ digits, ∃ unit : DurationUnit, digits ≠ [] ∧ digits.all isDigit ∧ digits ++ [unit.suffix] = cs

def IsConnectiveWord (cs : List Char) : Prop := ∃ connective : Connective, connective.word = cs

/-- The words that nothing else claims. -/
def IsTagWord (cs : List Char) : Prop :=
  isWord cs ∧ ¬IsDateWord cs ∧ ¬IsDurationWord cs ∧ ¬IsConnectiveWord cs

namespace Lexeme

/-- A lexeme that some text can hold. -/
def Proper : Lexeme → Prop
  | .comparator _ => True
  | .connective _ => True
  | .date word => word.Proper
  | .duration digits _ => digits ≠ [] ∧ digits.all isDigit
  | .tag name => IsTagWord name
  | .notTag name => isWord name

/-- What a lexeme has in front of its word; a comparator has no word. -/
def lead : Lexeme → Option Char
  | .comparator c => some c.symbol
  | .notTag _ => some '!'
  | _ => none

/-- A lexeme stands at the head of a text with the given rest; the word at its end is not cut
short. -/
structure Heads (lexeme : Lexeme) (cs rest : List Char) : Prop where
  proper : lexeme.Proper
  split : cs = lexeme.written ++ rest
  whole : (∀ c, lexeme ≠ .comparator c) → atBoundary rest

end Lexeme

theorem isWordPart_of_isDigit {c : Char} (h : isDigit c) : isWordPart c :=
  isWordPart_of_isWordStart (isWordStart_of_isDigit h)

theorem isWordStart_suffix (unit : DurationUnit) : isWordStart unit.suffix := by
  cases unit <;> decide

theorem isDigit_suffix (unit : DurationUnit) : isDigit unit.suffix = false := by
  cases unit <;> decide

theorem suffix_inj {unit other : DurationUnit} (h : unit.suffix = other.suffix) : unit = other := by
  cases unit <;> cases other <;> first | rfl | simp [DurationUnit.suffix] at h

theorem Connective.word_inj {connective other : Connective} (h : connective.word = other.word) :
    connective = other := by
  cases connective <;> cases other <;> first | rfl | simp [word] at h

theorem isWord_append {cs more : List Char} (h : isWord cs) (hm : more.all isWordPart) :
    isWord (cs ++ more) := by
  cases cs with
  | nil => simp [isWord] at h
  | cons c rest =>
    simp only [isWord, Bool.and_eq_true] at h
    simp [isWord, h.1, h.2, hm]

theorem isWord_of_digits {digits : List Char} (hne : digits ≠ []) (hd : digits.all isDigit) :
    isWord digits := by
  cases digits with
  | nil => exact absurd rfl hne
  | cons c rest =>
    have ha := List.all_eq_true.mp hd
    simp only [isWord, Bool.and_eq_true, List.all_eq_true]
    exact ⟨isWordStart_of_isDigit (ha c (by simp)),
      fun d hm => isWordPart_of_isDigit (ha d (by simp [hm]))⟩

theorem all_isWordPart_of_isWord {cs : List Char} (h : isWord cs) : cs.all isWordPart := by
  cases cs with
  | nil => simp [isWord] at h
  | cons c rest =>
    simp only [isWord, Bool.and_eq_true] at h
    simp [isWordPart_of_isWordStart h.1, h.2]

/-- A maximal run is the longest one that the text begins with. -/
theorem takeWhile_append_of_boundary {run rest : List Char} (hr : run.all isWordPart)
    (hb : atBoundary rest) : (run ++ rest).takeWhile isWordPart = run := by
  rw [List.takeWhile_append_of_pos (List.all_eq_true.mp hr)]
  cases rest with
  | nil => simp
  | cons c tail =>
    have hc : isWordPart c = false := by simpa [atBoundary] using hb
    simp [hc]

/-- A text has only one maximal run at its head. -/
theorem run_unique {run other rest tail : List Char} (hr : run.all isWordPart)
    (ho : other.all isWordPart) (hb : atBoundary rest) (ht : atBoundary tail)
    (h : run ++ rest = other ++ tail) : run = other ∧ rest = tail := by
  have he : run = other := by
    rw [← takeWhile_append_of_boundary hr hb, h, takeWhile_append_of_boundary ho ht]
  subst he
  exact ⟨rfl, List.append_cancel_left h⟩

theorem takeRun?_append {first part : Char → Bool} {c : Char} {tail rest : List Char}
    (hf : first c) (hp : ∀ d ∈ tail, part d) (hr : ∀ d ∈ rest.head?, part d = false) :
    takeRun? first part (c :: tail ++ rest) = some (c :: tail, rest) := by
  have htake : rest.takeWhile part = [] := by
    cases rest with
    | nil => rfl
    | cons d more => simp [hr d (by simp)]
  have hdrop : rest.dropWhile part = rest := by
    cases rest with
    | nil => rfl
    | cons d more => simp [hr d (by simp)]
  rw [List.cons_append, takeRun?, if_pos hf, List.takeWhile_append_of_pos hp,
    List.dropWhile_append_of_pos hp, htake, hdrop, List.append_nil]

theorem atBoundary_dropWhile (cs : List Char) : atBoundary (cs.dropWhile isWordPart) := by
  induction cs with
  | nil => rfl
  | cons c rest ih =>
    by_cases h : isWordPart c
    · simpa [h] using ih
    · simp [h, atBoundary]

/-- Taking a word off a text takes it to its end. -/
theorem takeRun?_word_iff {cs name rest : List Char} :
    takeRun? isWordStart isWordPart cs = some (name, rest) ↔
      isWord name ∧ cs = name ++ rest ∧ atBoundary rest := by
  constructor
  · intro h
    obtain ⟨c, tail, rfl, hc, rfl, rfl⟩ := takeRun?_eq_some_iff.mp h
    refine ⟨?_, by simp [List.takeWhile_append_dropWhile], atBoundary_dropWhile tail⟩
    simp [isWord, hc, List.all_takeWhile]
  · intro hx
    obtain ⟨hn, rfl, hb⟩ := hx
    cases name with
    | nil => simp [isWord] at hn
    | cons c tail =>
      simp only [isWord, Bool.and_eq_true] at hn
      apply takeRun?_append hn.1 (List.all_eq_true.mp hn.2)
      intro d hd
      cases rest with
      | nil => simp at hd
      | cons e more =>
        cases Option.some.inj hd
        simpa [atBoundary] using hb

end SearchFilter

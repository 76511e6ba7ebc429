import SearchFilter.Proofs.WordKind

namespace SearchFilter

namespace Lexeme

theorem endWord_eq_some_iff {lexeme found : Lexeme} {cs rest : List Char} :
    endWord lexeme cs = some (found, rest) ↔ found = lexeme ∧ rest = cs ∧ atBoundary cs := by
  constructor
  · exact of_endWord
  · intro h
    obtain ⟨rfl, rfl, hb⟩ := h
    simp [endWord, hb]

theorem day?_eq_some_iff {cs rest : List Char} {lexeme : Lexeme} :
    day? cs = some (lexeme, rest) ↔
      ∃ y m d, lexeme = .date (.day y m d) ∧ lexeme.Heads cs rest := by
  simp only [day?, Option.bind_eq_bind, Option.bind_eq_some_iff, Prod.exists,
    takeDigits?_eq_some_iff, takeChar?_eq_some_iff, endWord_eq_some_iff]
  constructor
  · intro h
    obtain ⟨y, _, ⟨rfl, hy⟩, _, rfl, m, _, ⟨rfl, hm⟩, _, rfl, d, _, ⟨rfl, hd⟩, rfl, rfl, hb⟩ := h
    exact ⟨y, m, d, rfl, ⟨hy, hm, hd⟩, by simp [written, DateWord.written], fun _ => hb⟩
  · intro h
    obtain ⟨y, m, d, rfl, ⟨hy, hm, hd⟩, rfl, hb⟩ := h
    exact ⟨y, _, ⟨by simp [written, DateWord.written], hy⟩, _, rfl, m, _, ⟨rfl, hm⟩, _, rfl,
      d, rest, ⟨rfl, hd⟩, rfl, rfl, hb (by simp)⟩

theorem month?_eq_some_iff {cs rest : List Char} {lexeme : Lexeme} :
    month? cs = some (lexeme, rest) ↔
      ∃ y m, lexeme = .date (.month y m) ∧ lexeme.Heads cs rest := by
  simp only [month?, Option.bind_eq_bind, Option.bind_eq_some_iff, Prod.exists,
    takeDigits?_eq_some_iff, takeChar?_eq_some_iff, endWord_eq_some_iff]
  constructor
  · intro h
    obtain ⟨y, _, ⟨rfl, hy⟩, _, rfl, m, _, ⟨rfl, hm⟩, rfl, rfl, hb⟩ := h
    exact ⟨y, m, rfl, ⟨hy, hm⟩, by simp [written, DateWord.written], fun _ => hb⟩
  · intro h
    obtain ⟨y, m, rfl, ⟨hy, hm⟩, rfl, hb⟩ := h
    exact ⟨y, _, ⟨by simp [written, DateWord.written], hy⟩, _, rfl, m, rest, ⟨rfl, hm⟩,
      rfl, rfl, hb (by simp)⟩

theorem year?_eq_some_iff {cs rest : List Char} {lexeme : Lexeme} :
    year? cs = some (lexeme, rest) ↔ ∃ y, lexeme = .date (.year y) ∧ lexeme.Heads cs rest := by
  simp only [year?, Option.bind_eq_bind, Option.bind_eq_some_iff, Prod.exists,
    takeDigits?_eq_some_iff, endWord_eq_some_iff]
  constructor
  · intro h
    obtain ⟨y, _, ⟨rfl, hy⟩, rfl, rfl, hb⟩ := h
    exact ⟨y, rfl, hy, rfl, fun _ => hb⟩
  · intro h
    obtain ⟨y, rfl, hy, rfl, hb⟩ := h
    exact ⟨y, rest, ⟨rfl, hy⟩, rfl, rfl, hb (by simp)⟩

theorem duration?_eq_some_iff {cs rest : List Char} {lexeme : Lexeme} :
    duration? cs = some (lexeme, rest) ↔
      ∃ digits unit, lexeme = .duration digits unit ∧ lexeme.Heads cs rest := by
  simp only [duration?, Option.bind_eq_bind, Option.bind_eq_some_iff, Prod.exists,
    takeUnit?_eq_some_iff, endWord_eq_some_iff]
  constructor
  · intro h
    obtain ⟨digits, _, hr, unit, _, rfl, rfl, rfl, hb⟩ := h
    obtain ⟨rfl, hne⟩ := append_of_takeRun? hr
    obtain ⟨c, tail, _, hc, rfl, _⟩ := takeRun?_eq_some_iff.mp hr
    refine ⟨_, unit, rfl, ⟨hne, ?_⟩, by simp [written], fun _ => hb⟩
    simp [hc, List.all_takeWhile]
  · intro h
    obtain ⟨digits, unit, rfl, ⟨hne, hd⟩, rfl, hb⟩ := h
    cases digits with
    | nil => exact absurd rfl hne
    | cons c tail =>
      have ha := List.all_eq_true.mp hd
      refine ⟨c :: tail, unit.suffix :: rest, ?_, unit, rest, rfl, rfl, rfl, hb (by simp)⟩
      have hs : ∀ d ∈ (unit.suffix :: rest).head?, isDigit d = false := by
        intro d hm
        cases Option.some.inj hm
        exact isDigit_suffix unit
      have ht : ∀ d ∈ tail, isDigit d := fun d hm => ha d (by simp [hm])
      simpa [written] using takeRun?_append (ha c (by simp)) ht hs

theorem connective?_eq_some_iff {cs rest : List Char} {lexeme : Lexeme} :
    connective? cs = some (lexeme, rest) ↔
      ∃ connective, lexeme = .connective connective ∧ lexeme.Heads cs rest := by
  constructor
  · intro h
    unfold connective? at h
    split at h
    next =>
      obtain ⟨rfl, rfl, hb⟩ := of_endWord h
      exact ⟨.and, rfl, trivial, rfl, fun _ => hb⟩
    next =>
      obtain ⟨rfl, rfl, hb⟩ := of_endWord h
      exact ⟨.or, rfl, trivial, rfl, fun _ => hb⟩
    next => simp at h
  · intro hx
    obtain ⟨connective, rfl, _, rfl, hb⟩ := hx
    have hr := hb (by simp)
    cases connective with
    | and => simp [connective?, written, Connective.word, endWord, hr]
    | or => simp [connective?, written, Connective.word, endWord, hr]

theorem tag?_eq_some_iff {cs rest : List Char} {lexeme : Lexeme} :
    tag? cs = some (lexeme, rest) ↔ connective? cs = none ∧
      ∃ name, lexeme = .tag name ∧ isWord name ∧ cs = name ++ rest ∧ atBoundary rest := by
  unfold tag?
  constructor
  · intro h
    split at h
    next => simp at h
    next hc =>
      obtain ⟨⟨name, tail⟩, hr, he⟩ := Option.map_eq_some_iff.mp h
      obtain ⟨rfl, rfl⟩ := Prod.mk.inj he
      exact ⟨by simpa using hc, name, rfl, takeRun?_word_iff.mp hr⟩
  · intro hx
    obtain ⟨hc, name, rfl, hw⟩ := hx
    simp [hc, takeRun?_word_iff.mpr hw]

theorem notTag?_eq_some_iff {cs rest : List Char} {lexeme : Lexeme} :
    notTag? cs = some (lexeme, rest) ↔ ∃ name, lexeme = .notTag name ∧ lexeme.Heads cs rest := by
  simp only [notTag?, Option.bind_eq_bind, Option.bind_eq_some_iff, Prod.exists,
    takeChar?_eq_some_iff, takeRun?_word_iff]
  constructor
  · intro h
    obtain ⟨_, rfl, name, _, ⟨hn, rfl, hb⟩, he⟩ := h
    obtain ⟨rfl, rfl⟩ := Prod.mk.inj (Option.some.inj he)
    exact ⟨name, rfl, hn, rfl, fun _ => hb⟩
  · intro h
    obtain ⟨name, rfl, hn, rfl, hb⟩ := h
    exact ⟨name ++ rest, rfl, name, rest, ⟨hn, rfl, hb (by simp)⟩, rfl⟩

theorem comparator?_eq_some_iff {cs rest : List Char} {lexeme : Lexeme} :
    comparator? cs = some (lexeme, rest) ↔
      ∃ comparison, lexeme = .comparator comparison ∧ lexeme.Heads cs rest := by
  constructor
  · intro h
    unfold comparator? at h
    split at h
    next => cases h; exact ⟨.greater, rfl, trivial, rfl, fun hn => absurd rfl (hn _)⟩
    next => cases h; exact ⟨.less, rfl, trivial, rfl, fun hn => absurd rfl (hn _)⟩
    next => simp at h
  · intro hx
    obtain ⟨comparison, rfl, _, rfl, _⟩ := hx
    cases comparison <;> rfl

end Lexeme

end SearchFilter

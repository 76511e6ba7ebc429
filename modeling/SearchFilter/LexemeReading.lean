import SearchFilter.LeadingRun
import SearchFilter.Lexeme

namespace SearchFilter

namespace Lexeme

/-- A lexeme that needs the boundary of a word after it. -/
def endWord (lexeme : Lexeme) (rest : List Char) : Option (Lexeme × List Char) :=
  if atBoundary rest then some (lexeme, rest) else none

def day? (cs : List Char) : Option (Lexeme × List Char) := do
  let (y, cs) ← takeDigits? 4 cs
  let cs ← takeChar? '-' cs
  let (m, cs) ← takeDigits? 2 cs
  let cs ← takeChar? '-' cs
  let (d, cs) ← takeDigits? 2 cs
  endWord (.date (.day y m d)) cs

def month? (cs : List Char) : Option (Lexeme × List Char) := do
  let (y, cs) ← takeDigits? 4 cs
  let cs ← takeChar? '-' cs
  let (m, cs) ← takeDigits? 2 cs
  endWord (.date (.month y m)) cs

def year? (cs : List Char) : Option (Lexeme × List Char) := do
  let (y, cs) ← takeDigits? 4 cs
  endWord (.date (.year y)) cs

def duration? (cs : List Char) : Option (Lexeme × List Char) := do
  let (digits, cs) ← takeRun? isDigit isDigit cs
  let (unit, cs) ← takeUnit? cs
  endWord (.duration digits unit) cs

def connective? : List Char → Option (Lexeme × List Char)
  | 'A' :: 'N' :: 'D' :: rest => endWord (.connective .and) rest
  | 'O' :: 'R' :: rest => endWord (.connective .or) rest
  | _ => none

def tag? (cs : List Char) : Option (Lexeme × List Char) :=
  if (connective? cs).isSome then none
  else (takeRun? isWordStart isWordPart cs).map fun (name, rest) => (.tag name, rest)

def notTag? (cs : List Char) : Option (Lexeme × List Char) := do
  let cs ← takeChar? '!' cs
  let (name, cs) ← takeRun? isWordStart isWordPart cs
  return (.notTag name, cs)

def comparator? : List Char → Option (Lexeme × List Char)
  | '>' :: rest => some (.comparator .greater, rest)
  | '<' :: rest => some (.comparator .less, rest)
  | _ => none

/-- The readings of a word; one that several kinds could begin with belongs to the first of them
that takes it to its end. -/
def wordReaders : List (List Char → Option (Lexeme × List Char)) :=
  [day?, month?, year?, duration?, connective?, tag?]

/-- The lexeme at the start of a text, and what follows it. -/
def read? (cs : List Char) : Option (Lexeme × List Char) :=
  (wordReaders ++ [notTag?, comparator?]).findSome? (· cs)

theorem of_endWord {lexeme found : Lexeme} {cs rest : List Char}
    (h : endWord lexeme cs = some (found, rest)) :
    found = lexeme ∧ rest = cs ∧ atBoundary cs := by
  unfold endWord at h
  split at h
  next => simp_all
  next => simp at h

theorem append_of_day? {cs rest : List Char} {lexeme : Lexeme}
    (h : day? cs = some (lexeme, rest)) : cs = lexeme.written ++ rest ∧ lexeme.written ≠ [] := by
  simp only [day?, Option.bind_eq_bind, Option.bind_eq_some_iff, Prod.exists,
    takeDigits?_eq_some_iff, takeChar?_eq_some_iff] at h
  obtain ⟨y, _, ⟨rfl, _⟩, _, rfl, m, _, ⟨rfl, _⟩, _, rfl, d, _, ⟨rfl, _⟩, he⟩ := h
  obtain ⟨rfl, rfl, _⟩ := of_endWord he
  simp [written, DateWord.written]

theorem append_of_month? {cs rest : List Char} {lexeme : Lexeme}
    (h : month? cs = some (lexeme, rest)) : cs = lexeme.written ++ rest ∧ lexeme.written ≠ [] := by
  simp only [month?, Option.bind_eq_bind, Option.bind_eq_some_iff, Prod.exists,
    takeDigits?_eq_some_iff, takeChar?_eq_some_iff] at h
  obtain ⟨y, _, ⟨rfl, _⟩, _, rfl, m, _, ⟨rfl, _⟩, he⟩ := h
  obtain ⟨rfl, rfl, _⟩ := of_endWord he
  simp [written, DateWord.written]

theorem append_of_year? {cs rest : List Char} {lexeme : Lexeme}
    (h : year? cs = some (lexeme, rest)) : cs = lexeme.written ++ rest ∧ lexeme.written ≠ [] := by
  simp only [year?, Option.bind_eq_bind, Option.bind_eq_some_iff, Prod.exists,
    takeDigits?_eq_some_iff] at h
  obtain ⟨y, _, ⟨rfl, hy, _⟩, he⟩ := h
  obtain ⟨rfl, rfl, _⟩ := of_endWord he
  exact ⟨rfl, List.ne_nil_of_length_eq_add_one hy⟩

theorem append_of_duration? {cs rest : List Char} {lexeme : Lexeme}
    (h : duration? cs = some (lexeme, rest)) :
    cs = lexeme.written ++ rest ∧ lexeme.written ≠ [] := by
  simp only [duration?, Option.bind_eq_bind, Option.bind_eq_some_iff, Prod.exists,
    takeUnit?_eq_some_iff] at h
  obtain ⟨digits, _, hd, unit, _, rfl, he⟩ := h
  obtain ⟨rfl, _⟩ := append_of_takeRun? hd
  obtain ⟨rfl, rfl, _⟩ := of_endWord he
  simp [written]

theorem append_of_connective? {cs rest : List Char} {lexeme : Lexeme}
    (h : connective? cs = some (lexeme, rest)) :
    cs = lexeme.written ++ rest ∧ lexeme.written ≠ [] := by
  unfold connective? at h
  split at h
  next => obtain ⟨rfl, rfl, _⟩ := of_endWord h; simp [written, Connective.word]
  next => obtain ⟨rfl, rfl, _⟩ := of_endWord h; simp [written, Connective.word]
  next => simp at h

theorem append_of_tag? {cs rest : List Char} {lexeme : Lexeme}
    (h : tag? cs = some (lexeme, rest)) : cs = lexeme.written ++ rest ∧ lexeme.written ≠ [] := by
  unfold tag? at h
  split at h
  next => simp at h
  next =>
    obtain ⟨⟨name, tail⟩, hr, he⟩ := Option.map_eq_some_iff.mp h
    obtain ⟨rfl, rfl⟩ := Prod.mk.inj he
    exact append_of_takeRun? hr

theorem append_of_notTag? {cs rest : List Char} {lexeme : Lexeme}
    (h : notTag? cs = some (lexeme, rest)) : cs = lexeme.written ++ rest ∧ lexeme.written ≠ [] := by
  simp only [notTag?, Option.bind_eq_bind, Option.bind_eq_some_iff, Prod.exists,
    takeChar?_eq_some_iff] at h
  obtain ⟨_, rfl, name, _, hr, he⟩ := h
  obtain ⟨rfl, _⟩ := append_of_takeRun? hr
  obtain ⟨rfl, rfl⟩ := Prod.mk.inj (Option.some.inj he)
  simp [written]

theorem append_of_comparator? {cs rest : List Char} {lexeme : Lexeme}
    (h : comparator? cs = some (lexeme, rest)) :
    cs = lexeme.written ++ rest ∧ lexeme.written ≠ [] := by
  unfold comparator? at h
  split at h
  next => cases h; simp [written, Comparison.symbol]
  next => cases h; simp [written, Comparison.symbol]
  next => simp at h

/-- A lexeme and what follows it are the text that it was read from. -/
theorem append_of_read? {cs rest : List Char} {lexeme : Lexeme}
    (h : read? cs = some (lexeme, rest)) : cs = lexeme.written ++ rest ∧ lexeme.written ≠ [] := by
  obtain ⟨reader, hm, hr⟩ := List.exists_of_findSome?_eq_some h
  simp only [wordReaders, List.cons_append, List.nil_append, List.mem_cons, List.not_mem_nil,
    or_false] at hm
  rcases hm with rfl | rfl | rfl | rfl | rfl | rfl | rfl | rfl
  · exact append_of_day? hr
  · exact append_of_month? hr
  · exact append_of_year? hr
  · exact append_of_duration? hr
  · exact append_of_connective? hr
  · exact append_of_tag? hr
  · exact append_of_notTag? hr
  · exact append_of_comparator? hr

end Lexeme

end SearchFilter

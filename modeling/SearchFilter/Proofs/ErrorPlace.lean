import Mathlib.Data.List.TakeWhile
import SearchFilter.Proofs.ScanCut

namespace SearchFilter

/-- The offset of the last line break in front of a place, where a text has one before its first
character if it has no other. -/
inductive LastBreak (cs : List Char) (place : Nat) : Int → Prop
  | none : '\n' ∉ cs.take place → LastBreak cs place (-1)
  | found {before after : List Char} : cs.take place = before ++ '\n' :: after → '\n' ∉ after →
      LastBreak cs place before.length

/-- Blanks, and at most one comparator among them. -/
def IsBare (cs : List Char) : Prop :=
  cs.filter (fun c => !isBlank c) = [] ∨
    ∃ comparison : Comparison, cs.filter (fun c => !isBlank c) = [comparison.symbol]

/-- A text that begins, behind any blanks, with a whole term. -/
def OpensWithTerm (text : String) : Prop :=
  ∃ placed, Opens 0 text.toList placed ∧ IsTerm (placed.map Placed.lexeme)

/-- Some characters that begin with a connective and a whole term. -/
def OpensWithClause (offset : Nat) (cs : List Char) : Prop :=
  ∃ placed connective term, Opens offset cs placed ∧ IsTerm term ∧
    placed.map Placed.lexeme = .connective connective :: term

/-- A text is malformed at a place where an expression ends that is not followed by another
clause. -/
structure EndsAt (text : String) (place : Nat) (expected : Expectation) : Prop where
  reason : expected.reason = "Expected end of text"
  inside : place < text.length
  accepted : ∃ tokens, tokenize (.ofList (text.toList.take place)) = .ok tokens
  ended : ¬OpensWithClause place (text.toList.drop place)

/-- A text is malformed at a place where there is no term, behind a comparator if it has one
there. In front of everything else any term could stand. -/
structure LacksTermAt (text : String) (place : Nat) (expected : Expectation) : Prop where
  reason : expected.reason =
    if place = 0 then "Expected \x7b\x7b[comparator] \x7bdate | duration\x7d\x7d | tag | not_tag\x7d"
    else "Expected \x7bdate | duration\x7d"
  reason_ne : expected.reason ≠ "Expected end of text"
  bare : IsBare (text.toList.take place)
  longest : ∀ other ≤ text.length, IsBare (text.toList.take other) → other ≤ place

theorem columnAt_append {front rest : List Char} (h : '\n' ∉ front) :
    columnAt (front ++ rest) front.length = front.length + 1 := by
  have hline : front.reverse.takeWhile (· ≠ '\n') = front.reverse := by
    apply List.takeWhile_eq_self_iff.mpr
    intro c hm
    have hne : c ≠ '\n' := fun he => h (he ▸ List.mem_reverse.mp hm)
    simp [hne]
  rw [columnAt, List.take_left, hline, List.length_reverse]

namespace LastBreak

variable {cs : List Char} {place : Nat}

theorem bounds {lineBreak : Int} (h : LastBreak cs place lineBreak) (hp : place ≤ cs.length) :
    -1 ≤ lineBreak ∧ lineBreak < place := by
  cases h with
  | none => omega
  | found hsplit =>
    have hlength := congrArg List.length hsplit
    rw [List.length_take, List.length_append, List.length_cons] at hlength
    omega

/-- The column of a place is its distance from the last line break. -/
theorem exists_columnAt (hp : place ≤ cs.length) :
    ∃ lineBreak, LastBreak cs place lineBreak ∧ (columnAt cs place : Int) = place - lineBreak := by
  have hlength : (cs.take place).length = place := List.length_take_of_le hp
  by_cases hm : '\n' ∈ cs.take place
  · -- the first break from behind is the last one
    obtain ⟨line, before, hreverse, hline⟩ :=
      List.eq_append_cons_of_mem (List.mem_reverse.mpr hm)
    have hsplit : cs.take place = before.reverse ++ '\n' :: line.reverse := by
      rw [← List.reverse_reverse (cs.take place), hreverse]
      simp
    have hcolumn : columnAt cs place = line.length + 1 := by
      have hpos : ∀ c ∈ line, (decide (c ≠ '\n')) = true := by
        intro c hc
        exact decide_eq_true fun he => hline (he ▸ hc)
      rw [columnAt, hreverse, List.takeWhile_append_of_pos hpos]
      simp
    refine ⟨_, .found hsplit (by simpa using hline), ?_⟩
    rw [hsplit, List.length_append, List.length_cons, List.length_reverse,
      List.length_reverse] at hlength
    rw [hcolumn, List.length_reverse]
    omega
  · have hcolumn : columnAt (cs.take place ++ cs.drop place) (cs.take place).length =
        (cs.take place).length + 1 := columnAt_append hm
    rw [List.take_append_drop, hlength] at hcolumn
    refine ⟨_, .none hm, ?_⟩
    rw [hcolumn]
    omega

end LastBreak

/-- Behind the clauses that are read no connective has a term behind it. -/
theorem readClauses_stops {placed rest : List Placed} {offset : Nat} {connective : Connective}
    (h : (readClauses placed).2 = ⟨offset, .connective connective⟩ :: rest) :
    Term.read? rest = none := by
  fun_induction readClauses placed with
  | case1 place joint later hr =>
    cases h
    exact hr
  | case2 place joint later term behind hr clauses remaining he ih =>
    rw [he] at ih
    exact ih h
  | case3 placed hn => exact absurd h (hn offset connective rest)

namespace Expression

theorem read?_stops {placed remaining rest : List Placed} {outcome : Except Failure Expression}
    (h : read? placed = some (outcome, remaining)) {offset : Nat} {connective : Connective}
    (hr : remaining = ⟨offset, .connective connective⟩ :: rest) : Term.read? rest = none := by
  simp only [read?, Option.bind_eq_bind, Option.bind_eq_some_iff] at h
  obtain ⟨⟨term, later⟩, -, he⟩ := h
  obtain ⟨-, rfl⟩ := Prod.mk.inj (Option.some.inj he)
  exact readClauses_stops hr

theorem read?_eq_none_iff {placed : List Placed} :
    read? placed = none ↔ Term.read? placed = none := by
  rw [read?]
  cases Term.read? placed with
  | none => simp
  | some found => simp

/-- A text is malformed behind the longest expression that it begins with, or else where its first
term is missing. -/
theorem parse_malformed {text source : String} {column : Nat} {expected : Expectation}
    (h : parse text = .error (.malformed source column expected)) :
    source = text ∧
      ((∃ expression remaining,
          read? (scanFrom 0 text.toList).placed = some (.ok expression, remaining) ∧
          (scanFrom 0 text.toList).offsetOf remaining < text.length ∧
          column = columnAt text.toList ((scanFrom 0 text.toList).offsetOf remaining) ∧
          expected = .endOfText) ∨
        (Term.read? (scanFrom 0 text.toList).placed = none ∧
          column = columnAt text.toList (scanFrom 0 text.toList).missingTerm ∧
          expected =
            if (scanFrom 0 text.toList).missingTerm = 0 then .term else .dateOrDuration)) := by
  rw [parse] at h
  cases hr : read? (scanFrom 0 text.toList).placed with
  | none =>
    rw [hr] at h
    obtain ⟨rfl, rfl, rfl⟩ := Failure.malformed.inj (Except.error.inj h)
    exact ⟨rfl, .inr ⟨read?_eq_none_iff.mp hr, rfl, rfl⟩⟩
  | some found =>
    obtain ⟨outcome, remaining⟩ := found
    rw [hr] at h
    obtain ⟨front, -, -, hlimit⟩ := limitedBy_of_read? hr
    by_cases hl : HoldsLongAmount (front.map Placed.lexeme)
    · obtain ⟨digits, -, rfl⟩ := hlimit.refused hl
      cases h
    · obtain ⟨expression, rfl⟩ := hlimit.given hl
      change (if (scanFrom 0 text.toList).offsetOf remaining < text.length then _ else _) = _ at h
      split at h
      next hstop =>
        obtain ⟨rfl, rfl, rfl⟩ := Failure.malformed.inj (Except.error.inj h)
        exact ⟨rfl, .inl ⟨expression, remaining, rfl, hstop, rfl, rfl⟩⟩
      next => cases h

end Expression

theorem opensWithTerm_iff {text : String} :
    OpensWithTerm text ↔ Term.read? (scanFrom 0 text.toList).placed ≠ none := by
  constructor
  · rintro ⟨placed, ho, ht⟩ hnone
    obtain ⟨rest, hp⟩ := opens_iff.mp ho
    obtain ⟨term, hs⟩ := Term.spelled_of_isTerm ht
    have hread : Term.read? (scanFrom 0 text.toList).placed = some (term, rest) :=
      Term.read?_eq_some_iff.mpr ⟨placed, hp.symm, hs⟩
    cases hread.symm.trans hnone
  · intro h
    obtain ⟨⟨term, rest⟩, hread⟩ := Option.ne_none_iff_exists'.mp h
    obtain ⟨front, hp, hs⟩ := Term.read?_eq_some_iff.mp hread
    exact ⟨front, opens_iff.mpr ⟨rest, hp.symm⟩, hs.isTerm⟩

theorem not_opensWithClause {offset : Nat} {cs : List Char}
    (h : ∀ place connective rest,
      (scanFrom offset cs).placed = ⟨place, .connective connective⟩ :: rest →
      Term.read? rest = none) : ¬OpensWithClause offset cs := by
  rintro ⟨placed, connective, term, ho, ht, hl⟩
  obtain ⟨later, hp⟩ := opens_iff.mp ho
  obtain ⟨⟨place, lexeme⟩, front, rfl, rfl, rfl⟩ := List.map_eq_cons_iff.mp hl
  obtain ⟨outcome, hs⟩ := Term.spelled_of_isTerm ht
  have hread : Term.read? (front ++ later) = some (outcome, later) :=
    Term.read?_eq_some_iff.mpr ⟨front, rfl, hs⟩
  have hnone := h place connective (front ++ later) hp.symm
  cases hread.symm.trans hnone

namespace Cut

variable {text : String} {front : List Placed} {head tail : List Char}

theorem take_eq (h : Cut 0 text.toList front head tail) : text.toList.take head.length = head := by
  rw [h.split, List.take_left]

theorem drop_eq (h : Cut 0 text.toList front head tail) : text.toList.drop head.length = tail := by
  rw [h.split, List.drop_left]

theorem length_eq (h : Cut 0 text.toList front head tail) :
    text.length = head.length + tail.length := by
  rw [← String.length_toList, h.split, List.length_append]

/-- The text ends where it is cut, or goes on with something else than a blank. -/
theorem end_or_solid (h : Cut 0 text.toList front head tail) :
    head.length = text.length ∨ ∃ c, text.toList[head.length]? = some c ∧ isBlank c = false := by
  have hlength := h.length_eq
  cases ht : tail with
  | nil =>
    rw [ht, List.length_nil] at hlength
    exact .inl hlength.symm
  | cons c rest =>
    refine .inr ⟨c, ?_, h.solid c (by rw [ht]; rfl)⟩
    rw [h.split, ht, List.getElem?_append_right (Nat.le_refl _), Nat.sub_self]
    rfl

/-- A text is cut behind the longest of its beginnings that hold no more than a comparator, unless
it goes on with a comparator that is the first. -/
theorem longest_bare (h : Cut 0 text.toList front head tail)
    (hsign : ∀ comparison : Comparison, ∀ rest, tail = comparison.symbol :: rest →
      head.filter (fun c => !isBlank c) ≠ []) {other : Nat}
    (hb : IsBare (text.toList.take other)) (hle : other ≤ text.length) : other ≤ head.length := by
  refine Nat.le_of_not_lt fun hlt => ?_
  obtain ⟨c, rest, rfl⟩ : ∃ c rest, tail = c :: rest := by
    refine List.exists_cons_of_length_pos ?_
    have hlength := h.length_eq
    omega
  obtain ⟨extra, rfl⟩ : ∃ extra, other = head.length + (extra + 1) :=
    ⟨other - head.length - 1, by omega⟩
  have hc : isBlank c = false := h.solid c rfl
  have hfilter : (text.toList.take (head.length + (extra + 1))).filter (fun c => !isBlank c) =
      head.filter (fun c => !isBlank c) ++ c :: (rest.take extra).filter (fun c => !isBlank c) := by
    rw [h.split, List.take_length_add_append, List.take_succ_cons, List.filter_append,
      List.filter_cons_of_pos (by simp [hc])]
  rw [IsBare, hfilter] at hb
  rcases hb with hnone | ⟨comparison, hone⟩
  · simp at hnone
  · rcases List.append_eq_singleton_iff.mp hone with ⟨hhead, hcons⟩ | ⟨-, hnil⟩
    · obtain ⟨rfl, -⟩ := List.cons.inj hcons
      exact hsign comparison rest rfl hhead
    · cases hnil

/-- Where the longest expression at the head of a text ends. -/
theorem endsAt {remaining : List Placed} {expression : Expression}
    (h : Cut 0 text.toList front head tail)
    (hr : Expression.read? (scanFrom 0 text.toList).placed = some (.ok expression, remaining))
    (hp : (scanFrom 0 text.toList).placed = front ++ remaining) (hx : expression.Spelled front)
    (hlt : head.length < text.length) : EndsAt text head.length .endOfText := by
  obtain ⟨hremaining, -⟩ := h.offsetOf hp
  rw [Nat.zero_add] at hremaining
  refine ⟨rfl, hlt, ?_, ?_⟩
  · have hparse : Expression.parse (.ofList head) = .ok expression :=
      Expression.parse_eq_ok_iff.mpr ⟨front, by rw [String.toList_ofList]; exact h.spelled, hx⟩
    rw [h.take_eq]
    exact ⟨_, tokenize_eq_ok_iff.mpr ⟨expression, hparse, rfl⟩⟩
  · rw [h.drop_eq]
    refine not_opensWithClause fun place connective rest he => ?_
    exact Expression.read?_stops hr (hremaining.trans he)

/-- A text without a term at its head is malformed behind its blanks and its comparator. -/
theorem lacksTermAt (h : Cut 0 text.toList front head tail) {expected : Expectation}
    (he : expected = if head.length = 0 then .term else .dateOrDuration)
    (hf : (∃ place comparison, front = [⟨place, .comparator comparison⟩]) ∨
      front = [] ∧ ∀ place comparison rest,
        (scanFrom 0 text.toList).placed ≠ ⟨place, .comparator comparison⟩ :: rest) :
    LacksTermAt text head.length expected := by
  have hreason : expected.reason = if head.length = 0
      then "Expected \x7b\x7b[comparator] \x7bdate | duration\x7d\x7d | tag | not_tag\x7d"
      else "Expected \x7bdate | duration\x7d" := by
    rw [he, apply_ite Expectation.reason]
    rfl
  have hother : expected.reason ≠ "Expected end of text" := by
    rw [hreason]
    split <;> decide
  have hwritten := h.spelled.filter_eq
  rcases hf with ⟨place, comparison, rfl⟩ | ⟨rfl, hnone⟩
  · have hsign : head.filter (fun c => !isBlank c) = [comparison.symbol] := hwritten
    refine ⟨hreason, hother, ?_, fun other hle hb => h.longest_bare ?_ hb hle⟩
    · rw [h.take_eq]
      exact .inr ⟨comparison, hsign⟩
    · intro _ _ _
      rw [hsign]
      exact List.cons_ne_nil _ _
  · have hblank : head.filter (fun c => !isBlank c) = [] := hwritten
    refine ⟨hreason, hother, ?_, fun other hle hb => h.longest_bare ?_ hb hle⟩
    · rw [h.take_eq]
      exact .inl hblank
    · rintro comparison rest rfl
      have hheads : (Lexeme.comparator comparison).Heads (comparison.symbol :: rest) rest :=
        ⟨trivial, rfl, fun hn => absurd rfl (hn comparison)⟩
      have hplaced := h.placed
      rw [scanFrom_lexeme hheads] at hplaced
      exact absurd hplaced (hnone _ comparison _)

end Cut

/-- A text without a term departs from one behind its comparator if it begins with one, and else
where it begins. -/
theorem Scan.missingTerm_cases (scan : Scan) :
    (∃ place comparison rest, scan.placed = [⟨place, .comparator comparison⟩] ++ rest ∧
      scan.missingTerm = scan.offsetOf rest) ∨
    ((∀ place comparison rest, scan.placed ≠ ⟨place, .comparator comparison⟩ :: rest) ∧
      scan.missingTerm = scan.offsetOf scan.placed) := by
  rw [missingTerm]
  split
  next place comparison rest hp => exact .inl ⟨place, comparison, rest, hp, rfl⟩
  next hn => exact .inr ⟨hn, rfl⟩

/-- A malformed text is cut where an expression stopped to be complete. -/
theorem exists_cut_of_malformed {text source : String} {column : Nat} {expected : Expectation}
    (h : tokenize text = .error (.malformed source column expected)) :
    source = text ∧ ∃ front head tail, Cut 0 text.toList front head tail ∧
      column = columnAt text.toList head.length ∧
      ((OpensWithTerm text ∧ EndsAt text head.length expected) ∨
        (¬OpensWithTerm text ∧ LacksTermAt text head.length expected)) := by
  have hlength : ∀ head : List Char, 0 + head.length = head.length := fun _ => Nat.zero_add _
  obtain ⟨rfl, hcases⟩ := Expression.parse_malformed (map_eq_error_iff.mp h)
  refine ⟨rfl, ?_⟩
  rcases hcases with ⟨expression, remaining, hr, hlt, rfl, rfl⟩ | ⟨hnone, rfl, he⟩
  · obtain ⟨front, hp, hx⟩ := Expression.spelled_of_read? hr
    obtain ⟨head, tail, cut⟩ := (opens_iff.mpr ⟨remaining, hp.symm⟩).exists_cut
    obtain ⟨-, hstop⟩ := cut.offsetOf hp
    rw [hstop, hlength] at hlt ⊢
    have hterm : OpensWithTerm source := by
      refine opensWithTerm_iff.mpr fun hnone => ?_
      rw [Expression.read?_eq_none_iff.mpr hnone] at hr
      cases hr
    exact ⟨front, head, tail, cut, rfl, .inl ⟨hterm, cut.endsAt hr hp hx hlt⟩⟩
  · have hterm : ¬OpensWithTerm source := fun ho => opensWithTerm_iff.mp ho hnone
    rcases (scanFrom 0 source.toList).missingTerm_cases with
      ⟨place, comparison, rest, hp, hm⟩ | ⟨hother, hm⟩
    · obtain ⟨head, tail, cut⟩ := (opens_iff.mpr ⟨rest, hp.symm⟩).exists_cut
      obtain ⟨-, hstop⟩ := cut.offsetOf hp
      rw [hm, hstop, hlength]
      rw [hm, hstop, hlength] at he
      exact ⟨_, head, tail, cut, rfl, .inr ⟨hterm, cut.lacksTermAt he (.inl ⟨place, _, rfl⟩)⟩⟩
    · have hopens : Opens 0 source.toList [] := .nil
      obtain ⟨head, tail, cut⟩ := hopens.exists_cut
      obtain ⟨-, hstop⟩ := cut.offsetOf (List.nil_append _).symm
      rw [hm, hstop, hlength]
      rw [hm, hstop, hlength] at he
      exact ⟨_, head, tail, cut, rfl, .inr ⟨hterm, cut.lacksTermAt he (.inr ⟨rfl, hother⟩)⟩⟩

/-- A malformed text is so at a place where no blank stands, and its column is the distance from the
last line break to that place. If the text begins with a term, it is a filter up to there and goes
on with something that is no clause. And if not, nothing but blanks and a comparator stands in front
of that place, and as much of them as there is. -/
theorem tokenize_malformed_place {text source : String} {column : Nat} {expected : Expectation}
    (h : tokenize text = .error (.malformed source column expected)) :
    source = text ∧ ∃ place ≤ text.length,
      (∃ lineBreak, LastBreak text.toList place lineBreak ∧ (column : Int) = place - lineBreak) ∧
      1 ≤ column ∧ column ≤ text.length + 1 ∧
      (place = text.length ∨ ∃ c, text.toList[place]? = some c ∧ isBlank c = false) ∧
      (OpensWithTerm text → EndsAt text place expected) ∧
      (¬OpensWithTerm text → LacksTermAt text place expected) := by
  obtain ⟨rfl, front, head, tail, cut, rfl, hcases⟩ := exists_cut_of_malformed h
  have hplace : head.length ≤ source.length := by
    rw [cut.length_eq]
    exact Nat.le_add_right _ _
  have hinside : head.length ≤ source.toList.length := by rwa [String.length_toList]
  obtain ⟨lineBreak, hbreak, hcolumn⟩ := LastBreak.exists_columnAt hinside
  obtain ⟨hlow, hhigh⟩ := hbreak.bounds hinside
  refine ⟨rfl, head.length, hplace, ⟨lineBreak, hbreak, hcolumn⟩, by omega, by omega,
    cut.end_or_solid, ?_⟩
  rcases hcases with ⟨hterm, hends⟩ | ⟨hterm, hlacks⟩
  · exact ⟨fun _ => hends, fun hn => absurd hterm hn⟩
  · exact ⟨fun ho => absurd ho hterm, fun _ => hlacks⟩

/-- A connective that nothing but a comparator follows is where its text stops being a filter. -/
theorem tokenize_malformed_place_second_line :
    tokenize "vim\n OR >" = .error (.malformed "vim\n OR >" 2 .endOfText) ∧
      ∃ place ≤ "vim\n OR >".length,
        (∃ lineBreak, LastBreak "vim\n OR >".toList place lineBreak ∧
          ((2 : Nat) : Int) = place - lineBreak) ∧
        EndsAt "vim\n OR >" place .endOfText := by
  have hscan : scanFrom 0 "vim\n OR >".toList =
      ⟨[⟨0, .tag "vim".toList⟩, ⟨5, .connective .or⟩, ⟨8, .comparator .greater⟩], 9⟩ := by
    decide +kernel
  have hread : Expression.read? (scanFrom 0 "vim\n OR >".toList).placed =
      some (.ok ⟨.tag "vim", []⟩, [⟨5, .connective .or⟩, ⟨8, .comparator .greater⟩]) := by
    rw [hscan]
    simp [Expression.read?, Term.read?, readClauses, pure, Except.pure, bind, Except.bind]
  have hparse : tokenize "vim\n OR >" = .error (.malformed "vim\n OR >" 2 .endOfText) := by
    rw [tokenize, Expression.parse, hread, hscan]
    rfl
  have hterm : OpensWithTerm "vim\n OR >" := by
    rw [opensWithTerm_iff, hscan]
    simp [Term.read?]
  obtain ⟨-, place, hle, hcolumn, -, -, -, hends, -⟩ := tokenize_malformed_place hparse
  exact ⟨hparse, place, hle, hcolumn, hends hterm⟩

end SearchFilter

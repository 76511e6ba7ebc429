import SearchFilter.Proofs.Grammar

namespace SearchFilter

/-- A text that begins at an offset and opens with some lexemes, each of them at its own offset,
with any blanks in front of and between them. What follows them does not matter. -/
inductive Opens : Nat → List Char → List Placed → Prop
  | nil {offset : Nat} {cs : List Char} : Opens offset cs []
  | blank {offset : Nat} {c : Char} {rest : List Char} {placed : List Placed} :
      isBlank c → Opens (offset + 1) rest placed → Opens offset (c :: rest) placed
  | lexeme {offset : Nat} {cs rest : List Char} {lexeme : Lexeme} {placed : List Placed} :
      lexeme.Heads cs rest → Opens (offset + lexeme.written.length) rest placed →
      Opens offset cs (⟨offset, lexeme⟩ :: placed)

/-- Some lexemes hold a duration with more digits than a number may have. -/
def HoldsLongAmount (lexemes : List Lexeme) : Prop :=
  ∃ digits unit, .duration digits unit ∈ lexemes ∧ digitLimit < digits.length

/-- A text opens with an expression that holds a duration with more digits than a number may
have. -/
def OpensWithLongAmount (text : String) : Prop :=
  ∃ placed, Opens 0 text.toList placed ∧ IsExpression (placed.map Placed.lexeme) ∧
    HoldsLongAmount (placed.map Placed.lexeme)

/-- A text whose lexemes, with any blanks around them, are those of an expression. -/
def InLanguage (text : String) : Prop :=
  ∃ placed, Spells 0 text.toList placed ∧ IsExpression (placed.map Placed.lexeme)

/-- An outcome that is refused for a long amount among its lexemes and for nothing else. -/
structure LimitedBy {α : Type} (outcome : Except Failure α) (lexemes : List Lexeme) : Prop where
  refused : HoldsLongAmount lexemes →
    ∃ digits, digitLimit < digits ∧ outcome = .error (.amountTooLong digits)
  given : ¬HoldsLongAmount lexemes → ∃ value, outcome = .ok value

theorem opens_scanFrom (offset : Nat) (cs : List Char) :
    Opens offset cs (scanFrom offset cs).placed := by
  fun_induction scanFrom offset cs with
  | case1 offset => exact .nil
  | case2 offset c rest hc ih => exact .blank hc ih
  | case3 offset c rest _ _ => exact .nil
  | case4 offset c rest _ lexeme tail hr later ih =>
    exact .lexeme (Lexeme.read?_eq_some_iff.mp hr) ih

theorem Opens.of_append {offset : Nat} {cs : List Char} {front back : List Placed}
    (h : Opens offset cs (front ++ back)) : Opens offset cs front := by
  generalize hp : front ++ back = placed at h
  induction h generalizing front with
  | nil => exact (List.append_eq_nil_iff.mp hp).1 ▸ .nil
  | blank hc _ ih => exact .blank hc (ih hp)
  | lexeme hl _ ih =>
    cases front with
    | nil => exact .nil
    | cons first front =>
      obtain ⟨rfl, ht⟩ := List.cons.inj hp
      exact .lexeme hl (ih ht)

theorem Spells.opens {offset : Nat} {cs : List Char} {placed : List Placed}
    (h : Spells offset cs placed) : Opens offset cs placed := by
  induction h with
  | nil => exact .nil
  | blank hc _ ih => exact .blank hc ih
  | lexeme hl _ ih => exact .lexeme hl ih

/-- Every lexeme that a text opens with stands at the head of an end of the text. -/
theorem Opens.exists_heads {offset : Nat} {cs : List Char} {placed : List Placed}
    (h : Opens offset cs placed) {lexeme : Lexeme} (hm : lexeme ∈ placed.map Placed.lexeme) :
    ∃ tail rest, tail <:+ cs ∧ lexeme.Heads tail rest := by
  induction h with
  | nil => simp at hm
  | blank _ _ ih =>
    obtain ⟨tail, rest, hs, hl⟩ := ih hm
    exact ⟨tail, rest, hs.trans (List.suffix_cons _ _), hl⟩
  | lexeme hh _ ih =>
    rcases List.mem_cons.mp hm with rfl | hm
    · exact ⟨_, _, List.suffix_rfl, hh⟩
    · obtain ⟨tail, rest, hs, hl⟩ := ih hm
      exact ⟨tail, rest, hs.trans (hh.split ▸ List.suffix_append _ _), hl⟩

/-- A text opens with the lexemes that its scan begins with. -/
theorem opens_iff {offset : Nat} {cs : List Char} {placed : List Placed} :
    Opens offset cs placed ↔ placed <+: (scanFrom offset cs).placed := by
  constructor
  · intro h
    induction h with
    | nil => exact List.nil_prefix
    | blank hc _ ih => rwa [scanFrom_blank hc]
    | lexeme hl _ ih =>
      rw [scanFrom_lexeme hl]
      exact List.cons_prefix_cons.mpr ⟨rfl, ih⟩
  · intro h
    obtain ⟨rest, hp⟩ := h
    have ho := opens_scanFrom offset cs
    rw [← hp] at ho
    exact ho.of_append

theorem holdsLongAmount_append {front back : List Lexeme} :
    HoldsLongAmount (front ++ back) ↔ HoldsLongAmount front ∨ HoldsLongAmount back := by
  simp only [HoldsLongAmount, List.mem_append, or_and_right, exists_or]

namespace LimitedBy

variable {α β : Type} {outcome : Except Failure α} {front back lexemes : List Lexeme}

theorem congr (h : LimitedBy outcome front) (hl : HoldsLongAmount lexemes ↔ HoldsLongAmount front) :
    LimitedBy outcome lexemes :=
  ⟨fun hx => h.refused (hl.mp hx), fun hx => h.given (mt hl.mpr hx)⟩

theorem ok (value : α) (h : ¬HoldsLongAmount lexemes) :
    LimitedBy (.ok value : Except Failure α) lexemes :=
  ⟨fun hx => absurd hx h, fun _ => ⟨value, rfl⟩⟩

/-- Of two outcomes, one behind the other, the first that is refused decides. -/
theorem bind {next : α → Except Failure β} (h : LimitedBy outcome front)
    (hn : ∀ value, LimitedBy (next value) back) : LimitedBy (outcome >>= next) (front ++ back) := by
  by_cases hf : HoldsLongAmount front
  · obtain ⟨digits, hd, rfl⟩ := h.refused hf
    exact ⟨fun _ => ⟨digits, hd, rfl⟩,
      fun hx => absurd (holdsLongAmount_append.mpr (.inl hf)) hx⟩
  · obtain ⟨value, rfl⟩ := h.given hf
    refine (hn value).congr ?_
    rw [holdsLongAmount_append, or_iff_right hf]

theorem map (f : α → β) (h : LimitedBy outcome lexemes) : LimitedBy (outcome.map f) lexemes := by
  have hok : ∀ value, LimitedBy (Except.ok (f value)) [] :=
    fun value => ok (f value) (by simp [HoldsLongAmount])
  have hb := h.bind hok
  rw [List.append_nil] at hb
  cases outcome with
  | error failure => exact hb
  | ok value => exact hb

end LimitedBy

theorem Lexeme.limitedBy_span? {lexeme : Lexeme} {position : Nat} {span : Except Failure Span}
    (h : lexeme.span? position = some span) : LimitedBy span [lexeme] := by
  cases lexeme with
  | date word =>
    cases h
    exact .ok _ (by simp [HoldsLongAmount])
  | duration digits unit =>
    rw [span?] at h
    split at h
    next hl =>
      cases h
      exact ⟨fun _ => ⟨_, hl, rfl⟩, fun hx => absurd ⟨digits, unit, by simp, hl⟩ hx⟩
    next hl =>
      cases h
      refine .ok _ ?_
      rintro ⟨digits, unit, hm, hx⟩
      cases List.mem_singleton.mp hm
      exact hl hx
  | _ => cases h

theorem Term.Spelled.limitedBy {term : Except Failure Term} {placed : List Placed}
    (h : Term.Spelled term placed) : LimitedBy term (placed.map Placed.lexeme) := by
  cases h with
  | tag => exact .ok _ (by simp [HoldsLongAmount])
  | notTag => exact .ok _ (by simp [HoldsLongAmount])
  | span hs => exact (Lexeme.limitedBy_span? hs).map _
  | bounded hs =>
    refine ((Lexeme.limitedBy_span? hs).map _).congr ?_
    simp [HoldsLongAmount]

theorem ClausesSpelled.limitedBy {clauses : List (Connective × Except Failure Term)}
    {placed : List Placed} (h : ClausesSpelled clauses placed) :
    LimitedBy (clauses.mapM fun (connective, term) => term.map (connective, ·))
      (placed.map Placed.lexeme) := by
  induction h with
  | nil => exact .ok [] (by simp [HoldsLongAmount])
  | cons ht _ ih =>
    rw [List.mapM_cons]
    refine ((ht.limitedBy.map _).bind fun _ => ih.map _).congr ?_
    simp [HoldsLongAmount]

namespace Expression

/-- Only an amount with too many digits keeps the lexemes of an expression from being one. -/
theorem spelled_of_isExpression {placed : List Placed}
    (h : IsExpression (placed.map Placed.lexeme))
    (hlimit : ∀ digits unit, .duration digits unit ∈ placed.map Placed.lexeme →
      digits.length ≤ digitLimit) : ∃ expression : Expression, expression.Spelled placed := by
  obtain ⟨term, clauses, first, rest, rfl, hf, hc⟩ := exists_spelled_of_isExpression h
  have hshort : ¬HoldsLongAmount ((first ++ rest).map Placed.lexeme) := by
    rintro ⟨digits, unit, hm, hl⟩
    exact absurd (hlimit digits unit hm) (by omega)
  rw [List.map_append, holdsLongAmount_append, not_or] at hshort
  obtain ⟨term, rfl⟩ := hf.limitedBy.given hshort.1
  obtain ⟨links, hl⟩ := hc.limitedBy.given hshort.2
  rw [clauses_mapM_eq_ok_iff] at hl
  exact ⟨⟨term, links⟩, first, rest, rfl, hf, hl ▸ hc⟩

/-- What is read is an expression, and it is refused for a long amount in it. -/
theorem limitedBy_of_read? {placed remaining : List Placed} {outcome : Except Failure Expression}
    (h : read? placed = some (outcome, remaining)) :
    ∃ front, placed = front ++ remaining ∧ IsExpression (front.map Placed.lexeme) ∧
      LimitedBy outcome (front.map Placed.lexeme) := by
  simp only [read?, Option.bind_eq_bind, Option.bind_eq_some_iff] at h
  obtain ⟨⟨term, rest⟩, ht, he⟩ := h
  obtain ⟨first, rfl, hf⟩ := Term.read?_eq_some_iff.mp ht
  obtain ⟨later, hl, hc⟩ := spelled_of_readClauses rest
  obtain ⟨rfl, rfl⟩ := Prod.mk.inj (Option.some.inj he)
  refine ⟨first ++ later, by rw [List.append_assoc, ← hl], ?_, ?_⟩
  · rw [List.map_append]
    exact isExpression_of_clauses hc hf.isTerm
  · rw [List.map_append]
    exact hf.limitedBy.bind fun _ => hc.limitedBy.map _

/-- Reading does not stop inside an expression at the head. -/
theorem read?_of_isExpression {front : List Placed} (rest : List Placed)
    (h : IsExpression (front.map Placed.lexeme)) :
    ∃ outcome remaining, read? (front ++ rest) = some (outcome, remaining) ∧
      remaining <:+ rest := by
  obtain ⟨term, clauses, first, later, rfl, hf, hc⟩ := exists_spelled_of_isExpression h
  have ht : Term.read? (first ++ later ++ rest) = some (term, later ++ rest) :=
    Term.read?_eq_some_iff.mpr ⟨first, List.append_assoc _ _ _, hf⟩
  obtain ⟨taken, hl, -⟩ := spelled_of_readClauses rest
  simp only [read?, ht, Option.bind_eq_bind, Option.bind_some, readClauses_append hc rest]
  exact ⟨_, _, rfl, taken, hl.symm⟩

theorem parse_of_opensWithLongAmount {text : String} (h : OpensWithLongAmount text) :
    ∃ digits, digitLimit < digits ∧ parse text = .error (.amountTooLong digits) := by
  obtain ⟨placed, ho, he, hl⟩ := h
  obtain ⟨rest, hp⟩ := opens_iff.mp ho
  obtain ⟨outcome, remaining, hr, hrest⟩ := read?_of_isExpression rest he
  rw [hp] at hr
  obtain ⟨front, hf, -, hlimit⟩ := limitedBy_of_read? hr
  -- reading goes on to the end of that expression at least, so what it reads has the amount too
  have hle : placed.length ≤ front.length := by
    have hlength := congrArg List.length (hp.trans hf)
    have hremaining := hrest.length_le
    simp only [List.length_append] at hlength
    omega
  obtain ⟨more, rfl⟩ := List.prefix_of_prefix_length_le (hp ▸ List.prefix_append _ _)
    (hf ▸ List.prefix_append _ _) hle
  rw [List.map_append] at hlimit
  obtain ⟨digits, hd, rfl⟩ := hlimit.refused (holdsLongAmount_append.mpr (.inl hl))
  refine ⟨digits, hd, ?_⟩
  rw [parse, hr]
  rfl

/-- A text that opens with no long amount is a filter or is malformed. -/
theorem parse_of_not_opensWithLongAmount {text : String} (h : ¬OpensWithLongAmount text) :
    (∃ expression, parse text = .ok expression) ∨
      ∃ column expected, parse text = .error (.malformed text column expected) := by
  rw [parse]
  cases hr : read? (scanFrom 0 text.toList).placed with
  | none => exact .inr ⟨_, _, rfl⟩
  | some found =>
    obtain ⟨outcome, remaining⟩ := found
    obtain ⟨front, hp, he, hlimit⟩ := limitedBy_of_read? hr
    have hopens : Opens 0 text.toList front := opens_iff.mpr ⟨remaining, hp.symm⟩
    obtain ⟨expression, rfl⟩ := hlimit.given fun hl => h ⟨front, hopens, he, hl⟩
    by_cases hstop : (scanFrom 0 text.toList).offsetOf remaining < text.length
    · exact .inr ⟨_, _, if_pos hstop⟩
    · exact .inl ⟨expression, if_neg hstop⟩

theorem parse_cases (text : String) :
    (∃ expression, parse text = .ok expression) ∨
      (∃ column expected, parse text = .error (.malformed text column expected)) ∨
      ∃ digits, parse text = .error (.amountTooLong digits) := by
  by_cases hl : OpensWithLongAmount text
  · obtain ⟨digits, -, hp⟩ := parse_of_opensWithLongAmount hl
    exact .inr (.inr ⟨digits, hp⟩)
  · rcases parse_of_not_opensWithLongAmount hl with hp | hp
    · exact .inl hp
    · exact .inr (.inl hp)

theorem parse_of_inLanguage {text : String} (h : InLanguage text)
    (hn : ¬OpensWithLongAmount text) : ∃ expression, parse text = .ok expression := by
  obtain ⟨placed, hs, he⟩ := h
  have hscan : (scanFrom 0 text.toList).placed = placed :=
    congrArg Scan.placed (scanFrom_of_spells hs)
  have hopens : Opens 0 text.toList placed := opens_iff.mpr ⟨[], by rw [hscan, List.append_nil]⟩
  have hlimit : ∀ digits unit, .duration digits unit ∈ placed.map Placed.lexeme →
      digits.length ≤ digitLimit := by
    intro digits unit hm
    refine Nat.le_of_not_lt fun hl => ?_
    exact hn ⟨placed, hopens, he, digits, unit, hm, hl⟩
  obtain ⟨expression, hx⟩ := spelled_of_isExpression he hlimit
  exact ⟨expression, parse_eq_ok_iff.mpr ⟨placed, hs, hx⟩⟩

theorem inLanguage_of_parse {text : String} {expression : Expression}
    (h : parse text = .ok expression) : InLanguage text := by
  obtain ⟨placed, hs, hx⟩ := parse_eq_ok_iff.mp h
  exact ⟨placed, hs, hx.isExpression⟩

/-- A text is malformed if it is outside of the language, unless reading it comes to an amount that
is refused before. -/
theorem parse_eq_malformed_iff {text : String} :
    (∃ column expected, parse text = .error (.malformed text column expected)) ↔
      ¬InLanguage text ∧ ¬OpensWithLongAmount text := by
  constructor
  · intro h
    obtain ⟨column, expected, hp⟩ := h
    have hn : ¬OpensWithLongAmount text := by
      intro ho
      obtain ⟨digits, -, he⟩ := parse_of_opensWithLongAmount ho
      cases hp.symm.trans he
    refine ⟨fun hl => ?_, hn⟩
    obtain ⟨expression, he⟩ := parse_of_inLanguage hl hn
    cases hp.symm.trans he
  · rintro ⟨hl, hn⟩
    refine (parse_of_not_opensWithLongAmount hn).resolve_left ?_
    rintro ⟨expression, hp⟩
    exact hl (inLanguage_of_parse hp)

end Expression

end SearchFilter

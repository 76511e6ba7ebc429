import Mathlib.Algebra.Group.Nat.Defs
import SearchFilter.Proofs.Emission
import SearchFilter.Proofs.LongAmount

namespace SearchFilter

/-- A year of four digits and a month and a day of two, none of which need be in the calendar. -/
structure DateLiteral.Plain (literal : DateLiteral) : Prop where
  year : 0 ≤ literal.year ∧ literal.year ≤ 9999
  month : ∀ month ∈ literal.month, 0 ≤ month ∧ month ≤ 99
  day : ∀ day ∈ literal.day, 0 ≤ day ∧ day ≤ 99

/-- A term that some text can hold: a tag is a word that nothing else claims, a negated tag any
word, and the numbers are such as digits can write. -/
def Term.Proper : Term → Prop
  | .tag name => IsTagWord name.toList
  | .notTag name => isWord name.toList
  | .timed _ (.date literal) => literal.Plain
  | .timed _ (.duration length) => 0 ≤ length.amount

/-- No run of digits in a text is longer than a limit. -/
def DigitRunsWithin (limit : Nat) (text : String) : Prop :=
  ∀ run, run <:+: text.toList → run.all isDigit → run.length ≤ limit

theorem digitRunsWithin_of_length {limit : Nat} {text : String} (h : text.length ≤ limit) :
    DigitRunsWithin limit text := by
  intro run hi _
  have hl := hi.length_le
  rw [String.length_toList] at hl
  omega

theorem digitsValue_lt (digits : List Char) : digitsValue digits < 10 ^ digits.length := by
  have from_value : ∀ start bound, start < bound →
      digits.foldl (fun value c => value * 10 + (digitValue? c).getD 0) start <
        bound * 10 ^ digits.length := by
    induction digits with
    | nil => simp
    | cons c rest ih =>
      intro start bound h
      have hc : (digitValue? c).getD 0 < 10 := by
        cases hv : digitValue? c with
        | none => decide
        | some value => exact digitValue?_lt_ten hv
      have hb := ih (start * 10 + (digitValue? c).getD 0) (bound * 10) (by omega)
      rw [List.foldl_cons, List.length_cons, Nat.pow_succ', ← Nat.mul_assoc]
      exact hb
  have hv := from_value 0 1 (by decide)
  rwa [Nat.one_mul] at hv

theorem DateWord.plain_literal {word : DateWord} {position : Nat} (h : word.Proper) :
    (word.literal position).Plain := by
  have value_lt : ∀ {count : Nat} {cs : List Char}, IsDigitRun count cs →
      0 ≤ (digitsValue cs : Int) ∧ (digitsValue cs : Int) < 10 ^ count := by
    rintro count cs ⟨rfl, -⟩
    exact ⟨Int.natCast_nonneg _, by exact_mod_cast digitsValue_lt cs⟩
  cases word with
  | year y =>
    have hy := value_lt h
    exact ⟨by simp only [literal]; omega, by simp [literal], by simp [literal]⟩
  | month y m =>
    have hy := value_lt h.1
    have hm := value_lt h.2
    refine ⟨by simp only [literal]; omega, ?_, by simp [literal]⟩
    simp only [literal, Option.mem_some_iff, forall_eq']
    omega
  | day y m d =>
    have hy := value_lt h.1
    have hm := value_lt h.2.1
    have hd := value_lt h.2.2
    refine ⟨by simp only [literal]; omega, ?_, ?_⟩
    · simp only [literal, Option.mem_some_iff, forall_eq']
      omega
    · simp only [literal, Option.mem_some_iff, forall_eq']
      omega

theorem Chain.operands_ofLinks {α : Type} (operand : α) (links : List (Connective × α)) :
    (Chain.ofLinks operand links).operands = operand :: links.map Prod.snd := by
  induction links generalizing operand with
  | nil => rfl
  | cons link links ih =>
    obtain ⟨connective, next⟩ := link
    rw [ofLinks, operands, ih, List.map_cons]

theorem ClausesSpelled.exists_infix {clauses : List (Connective × Term)} {placed : List Placed}
    (h : ClausesSpelled (clauses.map fun (connective, term) => (connective, .ok term)) placed)
    {term : Term} (hm : term ∈ clauses.map Prod.snd) :
    ∃ front, front <:+: placed ∧ Term.Spelled (.ok term) front := by
  induction clauses generalizing placed with
  | nil => simp at hm
  | cons clause clauses ih =>
    obtain ⟨connective, other⟩ := clause
    cases h with
    | @cons offset _ _ _ front rest ht hc =>
      rcases List.mem_cons.mp hm with rfl | hm
      · exact ⟨front, ⟨[⟨offset, .connective connective⟩], rest, rfl⟩, ht⟩
      · obtain ⟨later, hi, hs⟩ := ih hc hm
        refine ⟨later, hi.trans ?_, hs⟩
        exact ⟨⟨offset, .connective connective⟩ :: front, [], by simp⟩

/-- Every term of an expression has lexemes of its own among those of the expression. -/
theorem Expression.Spelled.exists_infix {expression : Expression} {placed : List Placed}
    (h : expression.Spelled placed) {term : Term} (hm : term ∈ expression.chain.operands) :
    ∃ front, front <:+: placed ∧ Term.Spelled (.ok term) front := by
  obtain ⟨first, rest, rfl, hf, hc⟩ := h
  rw [chain, Chain.operands_ofLinks] at hm
  rcases List.mem_cons.mp hm with rfl | hm
  · exact ⟨first, ⟨[], rest, rfl⟩, hf⟩
  · obtain ⟨front, hi, hs⟩ := hc.exists_infix hm
    exact ⟨front, hi.trans ⟨first, [], by simp⟩, hs⟩

theorem Term.Spelled.tag_mem {name : String} {placed : List Placed}
    (h : Term.Spelled (.ok (.tag name)) placed) :
    .tag name.toList ∈ placed.map Placed.lexeme := by
  generalize ho : (Except.ok (.tag name) : Except Failure Term) = outcome at h
  cases h with
  | tag => cases ho; simp
  | notTag => cases ho
  | span => obtain ⟨_, _, he⟩ := map_eq_ok_iff.mp ho.symm; cases he
  | bounded => obtain ⟨_, _, he⟩ := map_eq_ok_iff.mp ho.symm; cases he

theorem Term.Spelled.notTag_mem {name : String} {placed : List Placed}
    (h : Term.Spelled (.ok (.notTag name)) placed) :
    .notTag name.toList ∈ placed.map Placed.lexeme := by
  generalize ho : (Except.ok (.notTag name) : Except Failure Term) = outcome at h
  cases h with
  | tag => cases ho
  | notTag => cases ho; simp
  | span => obtain ⟨_, _, he⟩ := map_eq_ok_iff.mp ho.symm; cases he
  | bounded => obtain ⟨_, _, he⟩ := map_eq_ok_iff.mp ho.symm; cases he

/-- A date or duration in a term is that of one of its lexemes. -/
theorem Term.Spelled.exists_span {bound : Option Comparison} {span : Span} {placed : List Placed}
    (h : Term.Spelled (.ok (.timed bound span)) placed) :
    ∃ lexeme ∈ placed.map Placed.lexeme, ∃ position, lexeme.span? position = some (.ok span) := by
  generalize ho : (Except.ok (.timed bound span) : Except Failure Term) = outcome at h
  cases h with
  | tag => cases ho
  | notTag => cases ho
  | span hs =>
    obtain ⟨_, rfl, he⟩ := map_eq_ok_iff.mp ho.symm
    cases he
    exact ⟨_, by simp, _, hs⟩
  | bounded hs =>
    obtain ⟨_, rfl, he⟩ := map_eq_ok_iff.mp ho.symm
    cases he
    exact ⟨_, by simp, _, hs⟩

theorem Lexeme.eq_of_span?_duration {lexeme : Lexeme} {position : Nat} {length : Duration}
    (h : lexeme.span? position = some (.ok (.duration length))) :
    ∃ digits, lexeme = .duration digits length.unit ∧ length.amount = digitsValue digits := by
  cases lexeme with
  | duration digits unit =>
    rw [span?] at h
    split at h
    next => simp at h
    next => cases h; exact ⟨digits, rfl, rfl⟩
  | _ => simp [span?] at h

theorem Lexeme.eq_of_span?_date {lexeme : Lexeme} {position : Nat} {literal : DateLiteral}
    (h : lexeme.span? position = some (.ok (.date literal))) :
    ∃ word, lexeme = .date word ∧ literal = word.literal position := by
  cases lexeme with
  | date word => cases h; exact ⟨word, rfl, rfl⟩
  | duration digits unit =>
    rw [span?] at h
    split at h <;> simp at h
  | _ => simp [span?] at h

theorem Term.Spelled.proper {term : Term} {placed : List Placed}
    (h : Term.Spelled (.ok term) placed)
    (hp : ∀ lexeme ∈ placed.map Placed.lexeme, lexeme.Proper) : term.Proper := by
  cases term with
  | tag name => exact hp _ h.tag_mem
  | notTag name => exact hp _ h.notTag_mem
  | timed bound span =>
    obtain ⟨lexeme, hm, position, hs⟩ := h.exists_span
    have hl := hp lexeme hm
    cases span with
    | date literal =>
      obtain ⟨word, rfl, rfl⟩ := Lexeme.eq_of_span?_date hs
      exact DateWord.plain_literal hl
    | duration length =>
      obtain ⟨digits, rfl, ha⟩ := Lexeme.eq_of_span?_duration hs
      rw [Proper, ha]
      exact Int.natCast_nonneg _

theorem Expression.proper_of_parse {text : String} {expression : Expression}
    (h : Expression.parse text = .ok expression) :
    ∀ term ∈ expression.chain.operands, term.Proper := by
  obtain ⟨placed, hs, hx⟩ := Expression.parse_eq_ok_iff.mp h
  intro term hm
  obtain ⟨front, hi, ht⟩ := hx.exists_infix hm
  exact ht.proper fun lexeme hl => hs.proper ((hi.map Placed.lexeme).mem hl)

theorem Lexeme.Heads.written_infix {lexeme : Lexeme} {cs tail rest : List Char}
    (h : lexeme.Heads tail rest) (hs : tail <:+ cs) : lexeme.written <:+: cs :=
  (h.split ▸ List.prefix_append _ _ : lexeme.written <+: tail).isInfix.trans hs.isInfix

/-- No amount that a text opens with has more digits than the longest run of them in the text. -/
theorem Opens.length_le {offset limit : Nat} {text : String} {placed : List Placed}
    (h : Opens offset text.toList placed) (hd : DigitRunsWithin limit text) {digits : List Char}
    {unit : DurationUnit} (hm : .duration digits unit ∈ placed.map Placed.lexeme) :
    digits.length ≤ limit := by
  obtain ⟨tail, rest, hs, hl⟩ := h.exists_heads hm
  have hw : digits ++ [unit.suffix] <:+: text.toList := hl.written_infix hs
  exact hd digits ((List.prefix_append _ _).isInfix.trans hw) hl.proper.2

theorem not_opensWithLongAmount {limit : Nat} {text : String} (hd : DigitRunsWithin limit text)
    (hl : limit ≤ digitLimit) : ¬OpensWithLongAmount text := by
  rintro ⟨placed, ho, -, digits, unit, hm, hlong⟩
  have hlength := ho.length_le hd hm
  omega

/-- No amount in a filter has more digits than the longest run of them in its text. -/
theorem Expression.amount_lt_of_parse {text : String} {expression : Expression} {limit : Nat}
    (h : Expression.parse text = .ok expression) (hd : DigitRunsWithin limit text)
    {bound : Option Comparison} {length : Duration}
    (hm : .timed bound (.duration length) ∈ expression.chain.operands) :
    length.amount.toNat < 10 ^ limit := by
  obtain ⟨placed, hs, hx⟩ := Expression.parse_eq_ok_iff.mp h
  obtain ⟨front, hi, ht⟩ := hx.exists_infix hm
  obtain ⟨lexeme, hl, position, hspan⟩ := ht.exists_span
  obtain ⟨digits, rfl, ha⟩ := Lexeme.eq_of_span?_duration hspan
  have hlen := hs.opens.length_le hd ((hi.map Placed.lexeme).mem hl)
  have hv := Nat.lt_of_lt_of_le (digitsValue_lt digits) (Nat.pow_le_pow_right (by decide) hlen)
  rwa [ha, Int.toNat_natCast]

end SearchFilter

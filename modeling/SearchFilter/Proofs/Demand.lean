import SearchFilter.DateRange
import SearchFilter.Constraint
import SearchFilter.Expression
import SearchFilter.Proofs.Chain

namespace SearchFilter

/-- An operand and further ones, each behind its connective. -/
def Chain.ofLinks {α : Type} (operand : α) : List (Connective × α) → Chain α
  | [] => .single operand
  | (connective, next) :: links => .link operand connective (ofLinks next links)

/-- The terms of an expression with its connectives between them. -/
def Expression.chain (expression : Expression) : Chain Term :=
  .ofLinks expression.first expression.clauses

/-- The end of a range that a bound with a comparator is put at. -/
def DateRange.edge (range : DateRange) : Comparison → Int
  | .greater => range.startEpoch
  | .less => range.endEpoch

/-- What a term demands of a document. A date is bounded by an end of its range, or by both ends if
no comparator says which; a duration alone means later than it. -/
def Term.constraints (now : Moment) : Term → Except Failure (Chain Constraint)
  | .tag name => .ok (.single (.tagged name))
  | .notTag name => .ok (.single (.untagged name))
  | .timed bound (.duration length) =>
    .ok (.single (.dated (bound.getD .greater) (length.epochBefore now)))
  | .timed (some comparison) (.date literal) =>
    literal.range.map fun range => .single (.dated comparison (range.edge comparison))
  | .timed none (.date literal) =>
    literal.range.map fun range =>
      .link (.dated .greater range.startEpoch) .and (.single (.dated .less range.endEpoch))

/-- The terms that demand something, with their demands. -/
inductive Term.Demands (now : Moment) : Term → Chain Constraint → Prop
  | tag {name : String} : Demands now (.tag name) (.single (.tagged name))
  | notTag {name : String} : Demands now (.notTag name) (.single (.untagged name))
  | duration {bound : Option Comparison} {length : Duration} :
      Demands now (.timed bound (.duration length))
        (.single (.dated (bound.getD .greater) (length.epochBefore now)))
  | bounded {comparison : Comparison} {literal : DateLiteral} {range : DateRange} :
      literal.range = .ok range → Demands now (.timed (some comparison) (.date literal))
        (.single (.dated comparison (range.edge comparison)))
  | whole {literal : DateLiteral} {range : DateRange} :
      literal.range = .ok range → Demands now (.timed none (.date literal))
        (.link (.dated .greater range.startEpoch) .and (.single (.dated .less range.endEpoch)))

/-- The demands of all terms in order, or the first failure among them. -/
def Expression.constraints (now : Moment) (expression : Expression) :
    Except Failure (Chain Constraint) :=
  (expression.chain.traverse (Term.constraints now)).map Chain.flatten

/-- A constraint whose number is not too long to be written. -/
def Constraint.writable : Constraint → Except Failure Constraint
  | .dated comparison second =>
    if exceedsDigitLimit second then .error .resultTooLong else .ok (.dated comparison second)
  | constraint => .ok constraint

def Term.written (now : Moment) (term : Term) : Except Failure (Chain Constraint) := do
  (← term.constraints now).traverse Constraint.writable

def Expression.written (now : Moment) (expression : Expression) :
    Except Failure (Chain Constraint) :=
  (expression.chain.traverse (Term.written now)).map Chain.flatten

/-- A number that is not too long to be written. -/
def Constraint.Short : Constraint → Prop
  | .dated _ second => exceedsDigitLimit second = false
  | _ => True

theorem Constraint.writable_eq_ok_iff {constraint result : Constraint} :
    constraint.writable = .ok result ↔ constraint = result ∧ result.Short := by
  cases constraint with
  | dated comparison second =>
    rw [writable]
    split
    next hl =>
      simp only [reduceCtorEq, false_iff, not_and]
      rintro rfl
      simp [Short, hl]
    next hl =>
      simp only [Except.ok.injEq, iff_self_and]
      rintro rfl
      simpa [Short] using hl
  | _ =>
    simp only [writable, Except.ok.injEq, iff_self_and]
    rintro rfl
    trivial

theorem Constraint.writable_error {constraint : Constraint} {failure : Failure}
    (h : constraint.writable = .error failure) : failure = .resultTooLong := by
  cases constraint with
  | dated comparison second =>
    rw [writable] at h
    split at h
    next => cases h; rfl
    next => cases h
  | _ => cases h

theorem Term.constraints_eq_ok_iff {now : Moment} {term : Term} {demands : Chain Constraint} :
    term.constraints now = .ok demands ↔ term.Demands now demands := by
  constructor
  · intro h
    unfold constraints at h
    split at h
    · cases h; exact .tag
    · cases h; exact .notTag
    · cases h; exact .duration
    · obtain ⟨range, hr, rfl⟩ := map_eq_ok_iff.mp h
      exact .bounded hr
    · obtain ⟨range, hr, rfl⟩ := map_eq_ok_iff.mp h
      exact .whole hr
  · intro h
    cases h with
    | bounded hr => rw [constraints, hr]; rfl
    | whole hr => rw [constraints, hr]; rfl
    | _ => rfl

/-- A term that can be written is written as what it demands. -/
theorem Term.written_eq_ok_iff {now : Moment} {term : Term} {chain : Chain Constraint} :
    term.written now = .ok chain ↔
      term.constraints now = .ok chain ∧ ∀ constraint ∈ chain.operands, constraint.Short := by
  rw [written, bind_eq_ok_iff]
  constructor
  · intro h
    obtain ⟨demands, hd, ht⟩ := h
    have hr := Chain.traverse_eq_ok_iff.mp ht
    have he := (hr.mono fun _ _ hw => (Constraint.writable_eq_ok_iff.mp hw).1).eq
    refine ⟨by rw [hd, he], fun constraint hc => ?_⟩
    obtain ⟨_, _, hw⟩ := hr.exists_mem hc
    exact (Constraint.writable_eq_ok_iff.mp hw).2
  · intro h
    obtain ⟨hd, hs⟩ := h
    exact ⟨chain, hd, Chain.traverse_eq_ok_iff.mpr (Chain.related_self fun constraint hc =>
      Constraint.writable_eq_ok_iff.mpr ⟨rfl, hs constraint hc⟩)⟩

theorem Expression.constraints_of_written {now : Moment} {expression : Expression}
    {filter : Chain Constraint} (h : expression.written now = .ok filter) :
    expression.constraints now = .ok filter ∧
      ∀ constraint ∈ filter.operands, constraint.Short := by
  obtain ⟨inners, ht, rfl⟩ := map_eq_ok_iff.mp h
  have hr := Chain.traverse_eq_ok_iff.mp ht
  have hc := Chain.traverse_eq_ok_iff.mpr
    (hr.mono fun _ _ hw => (Term.written_eq_ok_iff.mp hw).1)
  refine ⟨by rw [constraints, hc]; rfl, fun constraint hm => ?_⟩
  obtain ⟨inner, hi, hm⟩ := Chain.mem_operands_flatten_iff.mp hm
  obtain ⟨term, _, hw⟩ := hr.exists_mem hi
  exact (Term.written_eq_ok_iff.mp hw).2 constraint hm

end SearchFilter

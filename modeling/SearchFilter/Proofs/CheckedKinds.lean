import Mathlib.Data.List.Forall2
import SearchFilter.Proofs.RequestRoundTrip
import SearchFilter.Proofs.Rounding

namespace SearchFilter

/-- An issue of a part, as an issue of the whole. -/
def Issue.under (step : Step) (issue : Issue) : Issue :=
  { issue with location := step :: issue.location }

namespace Checked

variable {α β : Type}

/-- All that is wrong with a value. -/
def issues : Checked α → List Issue
  | valid _ => []
  | invalid found => found

/-- What a check amounts to: it lets the values through that fit, it has the given issues, and it
refuses nothing without an issue. -/
structure Amounts (checked : Checked α) (fits : α → Prop) (issues : List Issue) : Prop where
  valid_iff : ∀ value, checked = .valid value ↔ fits value
  issues_eq : checked.issues = issues
  ne_invalid_nil : checked ≠ .invalid []

namespace Amounts

variable {checked : Checked α} {fits : α → Prop} {found : List Issue}

theorem eq_invalid_iff (h : checked.Amounts fits found) {issues : List Issue} :
    checked = .invalid issues ↔ issues = found ∧ issues ≠ [] := by
  obtain ⟨-, rfl, hne⟩ := h
  cases checked with
  | valid value =>
    constructor
    · intro he
      cases he
    · intro he
      exact absurd he.1 he.2
  | invalid others =>
    constructor
    · intro he
      cases he
      exact ⟨rfl, fun hnil => hne (congrArg Checked.invalid hnil)⟩
    · intro he
      exact congrArg Checked.invalid he.1.symm

theorem exists_valid_iff (h : checked.Amounts fits found) :
    (∃ value, checked = .valid value) ↔ found = [] := by
  obtain ⟨-, rfl, hne⟩ := h
  cases checked with
  | valid value => exact ⟨fun _ => rfl, fun _ => ⟨value, rfl⟩⟩
  | invalid others =>
    constructor
    · intro he
      obtain ⟨_, he⟩ := he
      cases he
    · intro he
      exact absurd (congrArg Checked.invalid he) hne

theorem valid (value : α) : (Checked.valid value).Amounts (value = ·) [] :=
  ⟨fun _ => ⟨Checked.valid.inj, congrArg Checked.valid⟩, rfl, nofun⟩

theorem refuse (complaint : Complaint) :
    (Checked.refuse complaint : Checked α).Amounts (fun _ => False) [⟨complaint, []⟩] :=
  ⟨fun _ => ⟨nofun, False.elim⟩, rfl, nofun⟩

theorem map (h : checked.Amounts fits found) (f : α → β) :
    (f <$> checked).Amounts (fun result => ∃ value, fits value ∧ f value = result) found := by
  refine ⟨fun result => ?_, ?_, ?_⟩
  · rw [map_eq_valid_iff]
    simp only [h.valid_iff]
  · rw [← h.issues_eq]
    cases checked <;> rfl
  · intro he
    cases checked with
    | valid value => cases he
    | invalid others => exact h.ne_invalid_nil (congrArg Checked.invalid (invalid.inj he))

/-- The issues of two parts stand one behind the other. -/
theorem seq {function : Checked (α → β)} {suits : (α → β) → Prop} {others : List Issue}
    (hf : function.Amounts suits others) (h : checked.Amounts fits found) :
    (function <*> checked).Amounts
      (fun result => ∃ f value, suits f ∧ fits value ∧ f value = result) (others ++ found) := by
  refine ⟨fun result => ?_, ?_, ?_⟩
  · rw [seq_eq_valid_iff]
    simp only [hf.valid_iff, h.valid_iff]
  · rw [← hf.issues_eq, ← h.issues_eq]
    cases function <;> cases checked <;> simp [Seq.seq, issues]
  · intro he
    cases function with
    | valid f =>
      cases checked with
      | valid value => cases he
      | invalid more => exact h.ne_invalid_nil (congrArg Checked.invalid (invalid.inj he))
    | invalid more =>
      cases checked with
      | valid value => exact hf.ne_invalid_nil (congrArg Checked.invalid (invalid.inj he))
      | invalid rest =>
        have hnil := (List.append_eq_nil_iff.mp (invalid.inj he)).1
        exact hf.ne_invalid_nil (congrArg Checked.invalid hnil)

theorem within (h : checked.Amounts fits found) (step : Step) :
    (checked.within step).Amounts fits (found.map (Issue.under step)) := by
  refine ⟨fun result => ?_, ?_, ?_⟩
  · rw [within_eq_valid_iff, h.valid_iff]
  · rw [← h.issues_eq]
    cases checked <;> rfl
  · intro he
    cases checked with
    | valid value => cases he
    | invalid others =>
      have hnil := List.map_eq_nil_iff.mp (invalid.inj he)
      exact h.ne_invalid_nil (congrArg Checked.invalid hnil)

/-- Checks that amount to the same are the same. -/
theorem unique (h : checked.Amounts fits found) {other : Checked α}
    (ho : other.Amounts fits found) : checked = other := by
  cases hc : checked with
  | valid value => exact ((ho.valid_iff value).mpr ((h.valid_iff value).mp hc)).symm
  | invalid issues => exact (ho.eq_invalid_iff.mpr (h.eq_invalid_iff.mp hc)).symm

theorem congr (h : checked.Amounts fits found) {suits : α → Prop} {others : List Issue}
    (hfits : ∀ value, fits value ↔ suits value) (hfound : found = others) :
    checked.Amounts suits others :=
  ⟨fun value => (h.valid_iff value).trans (hfits value), h.issues_eq.trans hfound,
    h.ne_invalid_nil⟩

end Amounts

end Checked

/-- The kinds of values that are converted as wholes. -/
inductive Scalar where
  | text
  | int
  | bool
  | object

def Scalar.check : Scalar → Json → Checked Json
  | text, value => .string <$> Json.checkText value
  | int, value => .int <$> Json.checkInt value
  | bool, value => .bool <$> Json.checkBool value
  | object, value => .object <$> Json.checkObject value

/-- What a field is for. -/
inductive Kind where
  | scalar (scalar : Scalar)
  | list (item : Kind)
  | nullable (kind : Kind)

namespace Kind

/-- The values of a kind, with what they are converted to. -/
def Converts : Kind → Json → Json → Prop
  | scalar kind, value, result => kind.check value = .valid result
  | list item, value, result => ∃ items results, value = .array items ∧
      result = .array results ∧ List.Forall₂ item.Converts items results
  | nullable kind, value, result =>
    value = .null ∧ result = .null ∨ value ≠ .null ∧ kind.Converts value result

/-- All that keeps a value from being one of a kind, that of its items in their order. -/
def issues : Kind → Json → List Issue
  | scalar kind, value => (kind.check value).issues
  | list item, .array items =>
    items.zipIdx.flatMap fun (value, index) => (item.issues value).map (Issue.under (.index index))
  | list _, _ => [⟨.notList, []⟩]
  | nullable _, .null => []
  | nullable kind, value => kind.issues value

/-- A check that converts the values of a kind, for results that are written as JSON values. -/
structure Describes {α : Type} (kind : Kind) (check : Json → Checked α) (write : α → Json) :
    Prop where
  amounts : ∀ value, (check value).Amounts (fun result => kind.Converts value (write result))
    (kind.issues value)
  written : ∀ {value result}, kind.Converts value result → ∃ source, write source = result
  injective : Function.Injective write

end Kind

namespace Json

theorem intOfDecimal_cases (mantissa exponent : Int) :
    (∃ n, intOfDecimal mantissa exponent = .valid n) ∨
      ∃ complaint, intOfDecimal mantissa exponent = .refuse complaint := by
  unfold intOfDecimal
  split
  next => exact .inr ⟨_, rfl⟩
  next => exact .inr ⟨_, rfl⟩
  next =>
    split
    next => exact .inl ⟨_, rfl⟩
    next => exact .inr ⟨_, rfl⟩

/-- A decimal with a whole number of 53 bits is converted as that number is. -/
theorem check_of_whole_decimal {mantissa exponent n : Int}
    (h : mantissa * (10 ^ exponent.toNat : Nat) = n * (10 ^ (-exponent).toNat : Nat))
    (hn : n.natAbs < 2 ^ 53) :
    (decimal mantissa exponent).checkInt = (int n).checkInt ∧
      (decimal mantissa exponent).checkBool = (int n).checkBool := by
  have hword : -wordLimit < n ∧ n < wordLimit := by
    rw [wordLimit]
    omega
  have hint : intOfDecimal mantissa exponent = .valid n := by
    rw [intOfDecimal, BinaryDecimal.ofDecimal_of_whole h hn]
    exact if_pos hword
  constructor
  · exact hint
  · simp only [checkBool, hint]
    rw [if_pos ⟨Int.le_of_lt hword.1, hword.2⟩]

theorem checkInt_cases (value : Json) :
    (∃ n, value.checkInt = .valid n) ∨ ∃ complaint, value.checkInt = .refuse complaint := by
  cases value with
  | string text =>
    rw [checkInt, intOfText]
    split
    next => exact .inr ⟨_, rfl⟩
    next =>
      split
      next => exact .inl ⟨_, rfl⟩
      next => exact .inr ⟨_, rfl⟩
  | int n => exact .inl ⟨_, rfl⟩
  | bool b => exact .inl ⟨_, rfl⟩
  | decimal mantissa exponent => exact intOfDecimal_cases mantissa exponent
  | _ => exact .inr ⟨_, rfl⟩

theorem boolOfInt_cases (n : Int) :
    (∃ b, boolOfInt n = .valid b) ∨ ∃ complaint, boolOfInt n = .refuse complaint := by
  unfold boolOfInt
  split
  next => exact .inl ⟨_, rfl⟩
  next => exact .inl ⟨_, rfl⟩
  next => exact .inr ⟨_, rfl⟩

theorem checkBool_cases (value : Json) :
    (∃ b, value.checkBool = .valid b) ∨ ∃ complaint, value.checkBool = .refuse complaint := by
  cases value with
  | bool b => exact .inl ⟨_, rfl⟩
  | int n =>
    rw [checkBool]
    split
    next => exact boolOfInt_cases n
    next => exact .inr ⟨_, rfl⟩
  | decimal mantissa exponent =>
    rw [checkBool]
    split
    next n _ => exact boolOfInt_cases n
    next => exact .inr ⟨_, rfl⟩
  | string text =>
    rw [checkBool]
    split
    next => exact .inl ⟨_, rfl⟩
    next =>
      split
      next => exact .inl ⟨_, rfl⟩
      next => exact .inr ⟨_, rfl⟩
  | _ => exact .inr ⟨_, rfl⟩

end Json

/-- A value that is converted as a whole is refused with one issue. -/
theorem Scalar.check_cases (scalar : Scalar) (value : Json) :
    (∃ result, scalar.check value = .valid result) ∨
      ∃ complaint, scalar.check value = .refuse complaint := by
  cases scalar with
  | text =>
    cases value with
    | string text => exact .inl ⟨_, rfl⟩
    | _ => exact .inr ⟨_, rfl⟩
  | int =>
    rcases value.checkInt_cases with ⟨n, h⟩ | ⟨complaint, h⟩
    · exact .inl ⟨.int n, by rw [check, h]; rfl⟩
    · exact .inr ⟨complaint, by rw [check, h]; rfl⟩
  | bool =>
    rcases value.checkBool_cases with ⟨b, h⟩ | ⟨complaint, h⟩
    · exact .inl ⟨.bool b, by rw [check, h]; rfl⟩
    · exact .inr ⟨complaint, by rw [check, h]; rfl⟩
  | object =>
    cases value with
    | object members => exact .inl ⟨_, rfl⟩
    | _ => exact .inr ⟨_, rfl⟩

namespace Kind

variable {α : Type} {check : Json → Checked α} {write : α → Json}

theorem describes_scalar {scalar : Scalar} (hwrite : Function.Injective write)
    (hcheck : ∀ value, scalar.check value = write <$> check value) :
    (Kind.scalar scalar).Describes check write := by
  refine ⟨fun value => ⟨fun result => ?_, ?_, ?_⟩, ?_, hwrite⟩
  · rw [Converts, hcheck, Checked.map_eq_valid_iff]
    constructor
    · intro h
      exact ⟨result, h, rfl⟩
    · intro h
      obtain ⟨same, hs, he⟩ := h
      rwa [hwrite he] at hs
  · rw [issues, hcheck]
    cases check value <;> rfl
  · intro h
    have hnil : scalar.check value = .invalid [] := by
      rw [hcheck, h]
      rfl
    rcases scalar.check_cases value with ⟨_, he⟩ | ⟨_, he⟩
    · rw [he] at hnil
      cases hnil
    · rw [he] at hnil
      cases hnil
  · intro value result h
    obtain ⟨source, -, he⟩ := Checked.map_eq_valid_iff.mp ((hcheck value).symm.trans h)
    exact ⟨source, he⟩

namespace Describes

variable {kind : Kind}

/-- The same check, with its results as JSON values. -/
theorem asJson (h : kind.Describes check write) :
    kind.Describes (fun value => write <$> check value) id := by
  refine ⟨fun value => ?_, fun {_ result} _ => ⟨result, rfl⟩, Function.injective_id⟩
  refine ((h.amounts value).map write).congr (fun result => ?_) rfl
  constructor
  · intro hr
    obtain ⟨_, hr, rfl⟩ := hr
    exact hr
  · intro hr
    obtain ⟨source, rfl⟩ := h.written hr
    exact ⟨source, hr, rfl⟩

theorem each (h : kind.Describes check write) (position : Nat) (items : List Json) :
    (Checked.each check position items).Amounts
      (fun results => List.Forall₂ kind.Converts items (results.map write))
      ((items.zipIdx position).flatMap fun (value, index) =>
        (kind.issues value).map (Issue.under (.index index))) := by
  induction items generalizing position with
  | nil =>
    refine (Checked.Amounts.valid []).congr (fun results => ?_) rfl
    cases results with
    | nil => exact ⟨fun _ => .nil, fun _ => rfl⟩
    | cons first rest => exact ⟨nofun, nofun⟩
  | cons item items ih =>
    rw [List.zipIdx_cons, List.flatMap_cons]
    refine ((((h.amounts item).within (.index position)).map List.cons).seq
      (ih (position + 1))).congr (fun results => ?_) rfl
    constructor
    · rintro ⟨_, rest, ⟨first, hfirst, rfl⟩, hrest, rfl⟩
      exact .cons hfirst hrest
    · intro hresults
      cases results with
      | nil => cases hresults
      | cons first rest =>
        obtain ⟨hfirst, hrest⟩ := List.forall₂_cons.mp hresults
        exact ⟨_, rest, ⟨first, hfirst, rfl⟩, hrest, rfl⟩

theorem list (h : kind.Describes check write) :
    (Kind.list kind).Describes (Json.checkList check) fun items => .array (items.map write) := by
  refine ⟨fun value => ?_, ?_, ?_⟩
  · cases value with
    | array items =>
      refine (h.each 0 items).congr (fun results => ?_) rfl
      constructor
      · intro hr
        exact ⟨items, _, rfl, rfl, hr⟩
      · rintro ⟨_, _, he, hr, hconverts⟩
        cases he
        cases hr
        exact hconverts
    | _ =>
      refine (Checked.Amounts.refuse _).congr (fun result => ⟨False.elim, ?_⟩) rfl
      rintro ⟨_, _, he, -, -⟩
      cases he
  · rintro value result ⟨items, results, rfl, rfl, hconverts⟩
    induction hconverts with
    | nil => exact ⟨[], rfl⟩
    | cons hfirst _ ih =>
      obtain ⟨first, rfl⟩ := h.written hfirst
      obtain ⟨rest, hrest⟩ := ih
      cases hrest
      exact ⟨first :: rest, rfl⟩
  · intro items others he
    exact (List.map_inj_right fun _ _ hw => h.injective hw).mp (Json.array.inj he)

theorem nullable {check : Json → Checked Json} (h : kind.Describes check id) :
    (Kind.nullable kind).Describes (Json.checkNullable check) id := by
  refine ⟨fun value => ?_, fun {_ result} _ => ⟨result, rfl⟩, Function.injective_id⟩
  by_cases hnull : value = .null
  · subst hnull
    refine (Checked.Amounts.valid Json.null).congr (fun result => ?_) rfl
    simp [Converts, eq_comm]
  · have hcheck : Json.checkNullable check value = check value := by
      rw [Json.checkNullable.eq_2]
      exact hnull
    have hissues : (Kind.nullable kind).issues value = kind.issues value := by
      rw [Kind.issues.eq_5]
      exact hnull
    rw [hcheck, hissues]
    refine (h.amounts value).congr (fun result => ?_) rfl
    simp [Converts, hnull]

end Describes

theorem exists_describes (kind : Kind) : ∃ check, kind.Describes check id := by
  induction kind with
  | scalar scalar =>
    refine ⟨scalar.check, describes_scalar Function.injective_id fun value => ?_⟩
    cases scalar.check value <;> rfl
  | list item ih =>
    obtain ⟨check, h⟩ := ih
    exact ⟨_, h.list.asJson⟩
  | nullable kind ih =>
    obtain ⟨check, h⟩ := ih
    exact ⟨_, h.nullable⟩

/-- A value has no issues exactly if it is converted. -/
theorem issues_eq_nil_iff {kind : Kind} {value : Json} :
    kind.issues value = [] ↔ ∃ result, kind.Converts value result := by
  obtain ⟨check, h⟩ := kind.exists_describes
  rw [← (h.amounts value).exists_valid_iff]
  simp only [(h.amounts value).valid_iff, id_eq]

end Kind

end SearchFilter

import SearchFilter.DateRange
import SearchFilter.Proofs.CalendarOrder
import SearchFilter.Proofs.Outcome

namespace SearchFilter

/-- A number that 32 bits with a sign can hold. -/
def FitsDateField (n : Int) : Prop := -2147483648 ≤ n ∧ n ≤ 2147483647

/-- The failures of a number that a date has no room for. -/
inductive Failure.IsFieldOverflow : Failure → Prop
  | tooLarge : IsFieldOverflow .dateFieldTooLarge
  | tooSmall : IsFieldOverflow .dateFieldTooSmall
  | beyondWord : IsFieldOverflow .dateFieldBeyondWord

theorem checkDateField_cases (n : Int) :
    FitsDateField n ∧ checkDateField n = .ok () ∨
      ∃ failure : Failure, failure.IsFieldOverflow ∧ checkDateField n = .error failure := by
  unfold checkDateField
  split
  next => exact .inr ⟨_, .beyondWord, rfl⟩
  next =>
    split
    next => exact .inr ⟨_, .tooLarge, rfl⟩
    next hhigh =>
      split
      next => exact .inr ⟨_, .tooSmall, rfl⟩
      next hlow => exact .inl ⟨⟨Int.not_lt.mp hlow, Int.not_lt.mp hhigh⟩, rfl⟩

theorem checkDateField_eq_ok_iff {n : Int} : checkDateField n = .ok () ↔ FitsDateField n := by
  constructor
  · intro h
    rcases checkDateField_cases n with ⟨hfits, -⟩ | ⟨_, -, he⟩
    · exact hfits
    · cases he.symm.trans h
  · rintro ⟨hlow, hhigh⟩
    have hword : ¬(n < -wordLimit ∨ wordLimit ≤ n) := by
      unfold wordLimit
      omega
    rw [checkDateField, if_neg hword, if_neg (Int.not_lt.mpr hhigh), if_neg (Int.not_lt.mpr hlow)]

theorem CalendarDate.ofNumbers_eq_ok_iff {year month day : Int} {date : CalendarDate} :
    ofNumbers year month day = .ok date ↔
      (date.year : Int) = year ∧ (date.month : Int) = month ∧ (date.day : Int) = day := by
  have hyear := date.year_range
  have hmonth := date.month_range
  have hday := date.day_range
  constructor
  · intro h
    unfold ofNumbers at h
    split at h
    next hy =>
      split at h
      next hm =>
        split at h
        next hd =>
          cases h
          exact ⟨Int.toNat_of_nonneg (by omega), Int.toNat_of_nonneg (by omega),
            Int.toNat_of_nonneg (by omega)⟩
        next => cases h
      next => cases h
    next => cases h
  · intro h
    obtain ⟨rfl, rfl, rfl⟩ := h
    simp only [ofNumbers, Int.toNat_natCast]
    rw [dif_pos hyear, if_pos (by omega), dif_pos hday]

namespace DateLiteral

/-- A literal whose numbers a date has room for. -/
structure Storable (literal : DateLiteral) : Prop where
  year : FitsDateField literal.year
  month : ∀ month ∈ literal.month, FitsDateField month
  day : ∀ day ∈ literal.day, FitsDateField day

def YearExists (literal : DateLiteral) : Prop := 1 ≤ literal.year ∧ literal.year ≤ 9999

/-- Without a month a literal means January. -/
def MonthExists (literal : DateLiteral) : Prop :=
  1 ≤ literal.month.getD 1 ∧ literal.month.getD 1 ≤ 12

/-- The day of a literal, if it has one, is a day of its month. -/
def DayExists (literal : DateLiteral) : Prop :=
  ∀ day ∈ literal.day, 1 ≤ day ∧
    day ≤ daysInMonth literal.year.toNat (literal.month.getD 1).toNat

/-- The first thing about a literal that keeps it out of the calendar. -/
inductive FirstFault (literal : DateLiteral) : CalendarFault → Prop
  | year : ¬literal.YearExists → FirstFault literal (.yearOutOfRange literal.year)
  | month : literal.YearExists → ¬literal.MonthExists → FirstFault literal .monthOutOfRange
  | day : literal.YearExists → literal.MonthExists → ¬literal.DayExists →
      FirstFault literal .dayOutOfRange

variable {literal : DateLiteral}

theorem firstDay_eq (h : literal.Storable) :
    literal.firstDay = (CalendarDate.ofNumbers literal.year (literal.month.getD 1)
      (literal.day.getD 1)).mapError (.impossibleDate literal.text literal.position) := by
  have optional : ∀ {n : Option Int}, (∀ k ∈ n, FitsDateField k) →
      checkDateField (n.getD 1) = .ok () := by
    intro n hn
    cases n with
    | none => rfl
    | some k => exact checkDateField_eq_ok_iff.mpr (hn k rfl)
  simp only [firstDay, checkDateField_eq_ok_iff.mpr h.year, optional h.month, optional h.day]
  cases CalendarDate.ofNumbers literal.year (literal.month.getD 1) (literal.day.getD 1) <;> rfl

theorem firstDay_eq_ok_iff {first : CalendarDate} (h : literal.Storable) :
    literal.firstDay = .ok first ↔ (first.year : Int) = literal.year ∧
      (first.month : Int) = literal.month.getD 1 ∧ (first.day : Int) = literal.day.getD 1 := by
  rw [firstDay_eq h, ← CalendarDate.ofNumbers_eq_ok_iff]
  cases CalendarDate.ofNumbers literal.year (literal.month.getD 1) (literal.day.getD 1) <;>
    simp [Except.mapError]

theorem range_eq_ok_iff {range : DateRange} :
    literal.range = .ok range ↔ ∃ first, literal.firstDay = .ok first ∧
      DateRange.mk (.startOfDay first) (.endOfDay (literal.lastDay first)) = range := by
  simp only [DateLiteral.range, bind_eq_ok_iff, pure_eq_ok_iff]

theorem exists_range (h : literal.Storable) (hy : literal.YearExists) (hm : literal.MonthExists)
    (hd : literal.DayExists) : ∃ range, literal.range = .ok range := by
  obtain ⟨hylow, hyhigh⟩ := hy
  obtain ⟨hmlow, hmhigh⟩ := hm
  have hlength : 1 ≤ daysInMonth literal.year.toNat (literal.month.getD 1).toNat :=
    one_le_daysInMonth (by omega)
  have hday : 1 ≤ literal.day.getD 1 ∧
      literal.day.getD 1 ≤ daysInMonth literal.year.toNat (literal.month.getD 1).toNat := by
    cases hn : literal.day with
    | none => exact ⟨Int.le_refl _, Int.ofNat_le.mpr hlength⟩
    | some day => exact hd day hn
  let first : CalendarDate := ⟨literal.year.toNat, (literal.month.getD 1).toNat,
    (literal.day.getD 1).toNat, by omega, by omega⟩
  have hfirst : literal.firstDay = .ok first :=
    (firstDay_eq_ok_iff h).mpr ⟨Int.toNat_of_nonneg (by omega), Int.toNat_of_nonneg (by omega),
      Int.toNat_of_nonneg (by omega)⟩
  exact ⟨_, range_eq_ok_iff.mpr ⟨first, hfirst, rfl⟩⟩

theorem FirstFault.range_eq {fault : CalendarFault} (h : literal.FirstFault fault)
    (hs : literal.Storable) :
    literal.range = .error (.impossibleDate literal.text literal.position fault) := by
  have hfault : CalendarDate.ofNumbers literal.year (literal.month.getD 1)
      (literal.day.getD 1) = .error fault := by
    unfold CalendarDate.ofNumbers
    cases h with
    | year hy =>
      rw [YearExists] at hy
      rw [dif_neg (by omega)]
    | month hy hm =>
      obtain ⟨hylow, hyhigh⟩ := hy
      rw [MonthExists] at hm
      rw [dif_pos (by omega), if_neg hm]
    | day hy hm hd =>
      obtain ⟨hylow, hyhigh⟩ := hy
      rw [MonthExists] at hm
      rw [dif_pos (by omega), if_pos hm, dif_neg]
      intro hday
      refine hd fun day hn => ?_
      rw [hn, Option.getD_some] at hday
      omega
  rw [range, firstDay_eq hs, hfault]
  rfl

/-- A literal has a range if it is in the calendar, and else the first thing about it that is not
keeps it from having one. -/
theorem range_cases (h : literal.Storable) :
    (literal.YearExists ∧ literal.MonthExists ∧ literal.DayExists ∧
      ∃ range, literal.range = .ok range) ∨
    ∃ fault, literal.FirstFault fault ∧
      literal.range = .error (.impossibleDate literal.text literal.position fault) := by
  by_cases hy : literal.YearExists
  · by_cases hm : literal.MonthExists
    · by_cases hd : literal.DayExists
      · exact .inl ⟨hy, hm, hd, exists_range h hy hm hd⟩
      · exact .inr ⟨_, .day hy hm hd, (FirstFault.day hy hm hd).range_eq h⟩
    · exact .inr ⟨_, .month hy hm, (FirstFault.month hy hm).range_eq h⟩
  · exact .inr ⟨_, .year hy, (FirstFault.year hy).range_eq h⟩

end DateLiteral

end SearchFilter

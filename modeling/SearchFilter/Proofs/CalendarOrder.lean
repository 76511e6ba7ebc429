import Mathlib.Order.Monotone.Basic
import Mathlib.Tactic.SplitIfs
import SearchFilter.CalendarDate

namespace SearchFilter

theorem daysInMonth_le (year month : Nat) : daysInMonth year month ≤ 31 := by
  unfold daysInMonth
  grind

theorem one_le_daysInMonth {year month : Nat} (h : 1 ≤ month ∧ month ≤ 12) :
    1 ≤ daysInMonth year month := by
  unfold daysInMonth
  grind

theorem daysBeforeMonth_le (year month : Nat) : daysBeforeMonth year month ≤ 31 * month := by
  induction month with
  | zero => simp [daysBeforeMonth]
  | succ month ih =>
    have hd := daysInMonth_le year month
    rw [daysBeforeMonth]
    omega

theorem daysBeforeMonth_mono (year : Nat) : Monotone (daysBeforeMonth year) :=
  monotone_nat_of_le_succ fun _ => Nat.le_add_right _ _

theorem isLeapYear_iff {year : Nat} :
    isLeapYear year ↔ 4 ∣ year ∧ (¬100 ∣ year ∨ 400 ∣ year) := by
  simp only [isLeapYear, Bool.and_eq_true, Bool.or_eq_true, beq_iff_eq, bne_iff_ne,
    Nat.dvd_iff_mod_eq_zero, ne_eq]

/-- The next year begins where the months of a year end. -/
theorem daysBeforeYear_succ {year : Nat} (h : 1 ≤ year) :
    daysBeforeYear (year + 1) = daysBeforeYear year + daysBeforeMonth year 13 := by
  have hlength : daysBeforeMonth year 13 = if isLeapYear year then 366 else 365 := by
    simp only [daysBeforeMonth, daysInMonth]
    split <;> rfl
  obtain ⟨past, rfl⟩ := Nat.exists_eq_add_of_le' h
  have hle : past / 100 ≤ past / 4 := Nat.div_le_div_left (by decide) (by decide)
  -- each of the three quotients grows exactly in the years that it divides
  simp only [hlength, isLeapYear_iff, daysBeforeYear, Nat.add_sub_cancel, Nat.succ_div]
  generalize past / 100 = centuries, past / 4 = fours, past / 400 = cycles at hle ⊢
  split_ifs <;> omega

theorem daysBeforeYear_mono : Monotone daysBeforeYear := by
  apply monotone_nat_of_le_succ
  intro year
  cases year with
  | zero => exact Nat.zero_le _
  | succ past =>
    rw [daysBeforeYear_succ (Nat.succ_pos past)]
    exact Nat.le_add_right _ _

namespace CalendarDate

variable {date next other : CalendarDate}

/-- The order of the calendar: by year, then by month, then by day. -/
def Before (date other : CalendarDate) : Prop :=
  date.year < other.year ∨ date.year = other.year ∧
    (date.month < other.month ∨ date.month = other.month ∧ date.day < other.day)

theorem month_range (date : CalendarDate) : 1 ≤ date.month ∧ date.month ≤ 12 := by
  have hd := date.day_range
  unfold daysInMonth at hd
  split at hd <;> omega

theorem day_le (date : CalendarDate) : date.day ≤ 31 :=
  Nat.le_trans date.day_range.2 (daysInMonth_le _ _)

theorem eq_of_fields (hy : date.year = other.year) (hm : date.month = other.month)
    (hd : date.day = other.day) : date = other := by
  cases date
  cases other
  cases hy
  cases hm
  cases hd
  rfl

theorem before_or_eq_or_before (date other : CalendarDate) :
    date.Before other ∨ date = other ∨ other.Before date := by
  by_cases he : date = other
  · exact .inr (.inl he)
  · have hne : ¬(date.year = other.year ∧ date.month = other.month ∧ date.day = other.day) :=
      fun h => he (eq_of_fields h.1 h.2.1 h.2.2)
    unfold Before
    omega

theorem dayOfYear_le_nextMonth (date : CalendarDate) :
    daysBeforeMonth date.year date.month + date.day ≤
      daysBeforeMonth date.year (date.month + 1) :=
  Nat.add_le_add_left date.day_range.2 _

theorem dayOfYear_le (date : CalendarDate) :
    daysBeforeMonth date.year date.month + date.day ≤ daysBeforeMonth date.year 13 :=
  Nat.le_trans date.dayOfYear_le_nextMonth
    (daysBeforeMonth_mono date.year (Nat.succ_le_succ date.month_range.2))

/-- A date ends before a later year, a later month of its year or a later day of its month
begins. -/
theorem dayNumber_lt_of_before (h : date.Before other) : date.dayNumber < other.dayNumber := by
  have hday := other.day_range.1
  rcases h with hy | ⟨hy, hm | ⟨hm, hd⟩⟩
  · have hend := date.dayOfYear_le
    have hnext := daysBeforeYear_succ date.year_range.1
    have hle : daysBeforeYear (date.year + 1) ≤ daysBeforeYear other.year :=
      daysBeforeYear_mono hy
    simp only [dayNumber]
    omega
  · have hend := date.dayOfYear_le_nextMonth
    have hle : daysBeforeMonth date.year (date.month + 1) ≤ daysBeforeMonth date.year other.month :=
      daysBeforeMonth_mono date.year hm
    simp only [dayNumber, ← hy]
    omega
  · simp only [dayNumber, ← hy, ← hm]
    omega

/-- Days are numbered in the order of the calendar. -/
theorem dayNumber_lt_iff : date.dayNumber < other.dayNumber ↔ date.Before other := by
  constructor
  · intro h
    rcases before_or_eq_or_before date other with hb | rfl | hb
    · exact hb
    · exact absurd h (Int.lt_irrefl _)
    · exact absurd (dayNumber_lt_of_before hb) (Int.not_lt.mpr (Int.le_of_lt h))
  · exact dayNumber_lt_of_before

theorem dayNumber_le_iff : date.dayNumber ≤ other.dayNumber ↔ ¬other.Before date := by
  rw [← dayNumber_lt_iff, Int.not_lt]

/-- A date with no other one between it and a date before it. -/
def Follows (next date : CalendarDate) : Prop :=
  date.Before next ∧ ∀ other : CalendarDate, ¬(date.Before other ∧ other.Before next)

/-- Every date but the last has one whose number is the next. -/
theorem exists_dayNumber_succ (h : date.Before next) :
    ∃ other : CalendarDate, other.dayNumber = date.dayNumber + 1 := by
  have hday := date.day_range
  have hmonth := date.month_range
  by_cases hd : date.day < daysInMonth date.year date.month
  · exact ⟨⟨date.year, date.month, date.day + 1, date.year_range, by omega⟩, by
      simp only [dayNumber]; omega⟩
  · by_cases hm : date.month < 12
    · refine ⟨⟨date.year, date.month + 1, 1, date.year_range, Nat.le_refl 1,
        one_le_daysInMonth (by omega)⟩, ?_⟩
      simp only [dayNumber, daysBeforeMonth]
      omega
    · have hlast : date.month = 12 := by omega
      have hyear : date.year < 9999 := by
        have hnext := next.month_range
        have hlong := next.day_range.2
        have hlimit := next.year_range.2
        rcases h with hy | ⟨hy, hm | ⟨hm, hd⟩⟩
        · omega
        · omega
        · rw [← hy, ← hm] at hlong
          omega
      refine ⟨⟨date.year + 1, 1, 1, by omega, by decide, one_le_daysInMonth (by decide)⟩, ?_⟩
      have hnext := daysBeforeYear_succ date.year_range.1
      have hdecember : daysBeforeMonth date.year 13 =
          daysBeforeMonth date.year date.month + daysInMonth date.year date.month := by
        rw [hlast]
        rfl
      have hjanuary : daysBeforeMonth (date.year + 1) 1 = 0 := rfl
      simp only [dayNumber, hjanuary]
      omega

/-- Days are numbered one by one. -/
theorem dayNumber_of_follows (h : next.Follows date) : next.dayNumber = date.dayNumber + 1 := by
  obtain ⟨hbefore, hnone⟩ := h
  have hlt := dayNumber_lt_iff.mpr hbefore
  obtain ⟨other, hother⟩ := exists_dayNumber_succ hbefore
  have hbetween := hnone other
  rw [← dayNumber_lt_iff, ← dayNumber_lt_iff] at hbetween
  omega

end CalendarDate

end SearchFilter

import SearchFilter.Proofs.DaySeconds

namespace SearchFilter

namespace CalendarDate

variable {date first : CalendarDate}

theorem between_iff_eq :
    ¬date.Before first ∧ ¬first.Before date ↔
      date.year = first.year ∧ date.month = first.month ∧ date.day = first.day := by
  unfold Before
  omega

theorem between_endOfMonth_iff (h : first.day = 1) :
    ¬date.Before first ∧ ¬first.endOfMonth.Before date ↔
      date.year = first.year ∧ date.month = first.month := by
  have hday := date.day_range.1
  have hlast : date.year = first.year → date.month = first.month →
      date.day ≤ daysInMonth first.year first.month := by
    intro hy hm
    rw [← hy, ← hm]
    exact date.day_range.2
  simp only [Before, endOfMonth]
  omega

theorem between_endOfYear_iff (hm : first.month = 1) (hd : first.day = 1) :
    ¬date.Before first ∧ ¬first.endOfYear.Before date ↔ date.year = first.year := by
  have hmonth := date.month_range
  have hday := date.day_range.1
  have hlast := date.day_le
  simp only [Before, endOfYear]
  omega

end CalendarDate

namespace DateLiteral

/-- A date agrees with a literal in everything that the literal gives. A day that is given without a
month is one of January. -/
def Covers (literal : DateLiteral) (date : CalendarDate) : Prop :=
  (date.year : Int) = literal.year ∧
    (literal.month ≠ none ∨ literal.day ≠ none → (date.month : Int) = literal.month.getD 1) ∧
    ∀ day ∈ literal.day, (date.day : Int) = day

variable {literal : DateLiteral} {first date : CalendarDate}

/-- The dates that a literal covers are those from its first day to its last. -/
theorem covers_iff_between (hy : (first.year : Int) = literal.year)
    (hm : (first.month : Int) = literal.month.getD 1)
    (hd : (first.day : Int) = literal.day.getD 1) :
    literal.Covers date ↔ ¬date.Before first ∧ ¬(literal.lastDay first).Before date := by
  obtain ⟨year, month, day, text, position⟩ := literal
  simp only at hy hm hd
  cases day with
  | some day =>
    have hcovers : Covers ⟨year, month, some day, text, position⟩ date ↔
        (date.year : Int) = year ∧ (date.month : Int) = month.getD 1 ∧ (date.day : Int) = day := by
      simp [Covers]
    have hlast : lastDay ⟨year, month, some day, text, position⟩ first = first := by
      cases month <;> rfl
    rw [Option.getD_some] at hd
    rw [hcovers, hlast, CalendarDate.between_iff_eq]
    omega
  | none =>
    have hfirst : first.day = 1 := Int.ofNat.inj hd
    cases month with
    | some month =>
      have hcovers : Covers ⟨year, some month, none, text, position⟩ date ↔
          (date.year : Int) = year ∧ (date.month : Int) = month := by
        simp [Covers]
      rw [Option.getD_some] at hm
      rw [hcovers, lastDay, CalendarDate.between_endOfMonth_iff hfirst]
      omega
    | none =>
      have hcovers : Covers ⟨year, none, none, text, position⟩ date ↔ (date.year : Int) = year := by
        simp [Covers]
      have hjanuary : first.month = 1 := Int.ofNat.inj hm
      rw [hcovers, lastDay, CalendarDate.between_endOfYear_iff hjanuary hfirst]
      omega

end DateLiteral

/-- A moment in UTC lies in a range of whole days exactly if its date does. -/
theorem Moment.epoch_between_iff {moment : Moment} {first last : CalendarDate}
    (hmicro : moment.micro = 0) (hutc : moment.offset.getD 0 = 0) :
    (startOfDay first).epoch ≤ moment.epoch ∧ moment.epoch ≤ (endOfDay last).epoch ↔
      ¬moment.date.Before first ∧ ¬last.Before moment.date := by
  have hhour := moment.hour_lt
  have hminute := moment.minute_lt
  have hsecond := moment.second_lt
  have hday : moment.secondOfDay < 86400 := by
    unfold secondOfDay
    omega
  rw [epoch_startOfDay, epoch_endOfDay, epoch_of_utc hmicro hutc,
    ← CalendarDate.dayNumber_le_iff, ← CalendarDate.dayNumber_le_iff]
  omega

namespace DateLiteral

variable {literal : DateLiteral}

/-- A literal has a range exactly if its year, its month and its day exist, and the first of them
that does not is the reason why it has none. The range has all seconds of the period that the
literal names and no other. -/
theorem range_covers_period (h : literal.Storable) :
    ((∃ range, literal.range = .ok range) ↔
      literal.YearExists ∧ literal.MonthExists ∧ literal.DayExists) ∧
    (∀ failure, literal.range = .error failure ↔ ∃ fault, literal.FirstFault fault ∧
      failure = .impossibleDate literal.text literal.position fault) ∧
    ∀ range, literal.range = .ok range → ∀ moment : Moment,
      moment.micro = 0 → moment.offset.getD 0 = 0 →
      (range.startEpoch ≤ moment.epoch ∧ moment.epoch ≤ range.endEpoch ↔
        literal.Covers moment.date) := by
  refine ⟨⟨?_, ?_⟩, fun failure => ⟨?_, ?_⟩, ?_⟩
  · rintro ⟨range, hr⟩
    rcases range_cases h with ⟨hy, hm, hd, -⟩ | ⟨fault, -, he⟩
    · exact ⟨hy, hm, hd⟩
    · cases he.symm.trans hr
  · rintro ⟨hy, hm, hd⟩
    exact exists_range h hy hm hd
  · intro hf
    rcases range_cases h with ⟨-, -, -, range, hr⟩ | ⟨fault, hfault, he⟩
    · cases hr.symm.trans hf
    · exact ⟨fault, hfault, Except.error.inj (hf.symm.trans he)⟩
  · rintro ⟨fault, hfault, rfl⟩
    exact hfault.range_eq h
  · intro range hr moment hmicro hutc
    obtain ⟨first, hfirst, rfl⟩ := range_eq_ok_iff.mp hr
    obtain ⟨hy, hm, hd⟩ := (firstDay_eq_ok_iff h).mp hfirst
    rw [covers_iff_between hy hm hd]
    exact Moment.epoch_between_iff hmicro hutc

end DateLiteral

/-- The last second of a leap day belongs to its month, and the next second does not. -/
theorem february_covers_leap_day :
    DateLiteral.Storable ⟨2020, some 2, none, "2020-02", 5⟩ ∧
      ∃ range, DateLiteral.range ⟨2020, some 2, none, "2020-02", 5⟩ = .ok range ∧
        (range.startEpoch ≤ (Moment.endOfDay ⟨2020, 2, 29, by decide, by decide⟩).epoch ∧
          (Moment.endOfDay ⟨2020, 2, 29, by decide, by decide⟩).epoch ≤ range.endEpoch) ∧
        ¬(range.startEpoch ≤ (Moment.startOfDay ⟨2020, 3, 1, by decide, by decide⟩).epoch ∧
          (Moment.startOfDay ⟨2020, 3, 1, by decide, by decide⟩).epoch ≤ range.endEpoch) := by
  have hs : DateLiteral.Storable ⟨2020, some 2, none, "2020-02", 5⟩ :=
    ⟨by unfold FitsDateField; decide, by simp [FitsDateField], by simp⟩
  obtain ⟨hexists, -, hcovers⟩ := DateLiteral.range_covers_period hs
  obtain ⟨range, hr⟩ := hexists.mpr ⟨by unfold DateLiteral.YearExists; decide,
    by unfold DateLiteral.MonthExists; decide, by simp [DateLiteral.DayExists]⟩
  refine ⟨hs, range, hr, (hcovers range hr _ rfl rfl).mpr ?_, fun h => ?_⟩
  · simp [DateLiteral.Covers, Moment.endOfDay]
  · have hmarch := (hcovers range hr _ rfl rfl).mp h
    simp [DateLiteral.Covers, Moment.startOfDay] at hmarch

end SearchFilter

import Mathlib.Data.Int.Interval
import Mathlib.Data.Set.Card
import SearchFilter.Proofs.CalendarPeriod

namespace SearchFilter

/-- Ranges that make up the time from one second up to another: none of them is empty, and each
begins in the second after the end of the one before. -/
inductive Tiles : (start : Int) → List DateRange → (stop : Int) → Prop
  | nil {start : Int} : Tiles start [] start
  | cons {start stop : Int} {range : DateRange} {ranges : List DateRange} :
      range.startEpoch = start → start ≤ range.endEpoch → Tiles (range.endEpoch + 1) ranges stop →
      Tiles start (range :: ranges) stop

namespace DateRange

def Includes (range : DateRange) (second : Int) : Prop :=
  range.startEpoch ≤ second ∧ second ≤ range.endEpoch

instance (range : DateRange) (second : Int) : Decidable (range.Includes second) :=
  inferInstanceAs (Decidable (_ ∧ _))

/-- From the first day to the last that has a date. -/
def calendar : DateRange :=
  ⟨.startOfDay ⟨1, 1, 1, by decide, by decide⟩, .endOfDay ⟨9999, 12, 31, by decide, by decide⟩⟩

end DateRange

/-- Literals that all have ranges, which make up a whole range: the first begins and the last ends
with it, and each second of it lies in exactly one of them. -/
def DateRange.DividedInto (whole : DateRange) (literals : List DateLiteral) : Prop :=
  ∃ parts, List.Forall₂ (fun literal part => literal.range = .ok part) literals parts ∧
    Tiles whole.startEpoch parts (whole.endEpoch + 1) ∧
    ∀ second, parts.countP (·.Includes second) = if whole.Includes second then 1 else 0

namespace Tiles

variable {start stop : Int} {ranges : List DateRange}

theorem start_le (h : Tiles start ranges stop) : start ≤ stop := by
  induction h with
  | nil => exact Int.le_refl _
  | cons _ _ _ ih => omega

/-- There is no second between two ranges and none in both of them. -/
theorem countP_eq (h : Tiles start ranges stop) (second : Int) :
    ranges.countP (·.Includes second) = if start ≤ second ∧ second < stop then 1 else 0 := by
  induction h with
  | nil => rw [List.countP_nil, if_neg (by omega)]
  | @cons start stop range ranges hstart hend hrest ih =>
    have hstop := hrest.start_le
    rw [List.countP_cons, ih]
    simp only [DateRange.Includes, hstart, decide_eq_true_eq]
    split_ifs <;> omega

end Tiles

namespace DateLiteral

/-- The numbers of a literal, without its text and place. -/
def numbers (literal : DateLiteral) : Int × Option Int × Option Int :=
  (literal.year, literal.month, literal.day)

/-- The numbers of the literals of all years, in order. -/
def yearNumbers : List (Int × Option Int × Option Int) :=
  (List.range' 1 9999).map fun year : Nat => ((year : Int), none, none)

/-- The numbers of the literals of the twelve months of a year. -/
def monthNumbers (year : Int) : List (Int × Option Int × Option Int) :=
  (List.range' 1 12).map fun month : Nat => (year, some (month : Int), none)

/-- The numbers of the literals of the days of a month. -/
def dayNumbers (year month : Int) : List (Int × Option Int × Option Int) :=
  (List.range' 1 (daysInMonth year.toNat month.toNat)).map
    fun day : Nat => (year, some month, some (day : Int))

/-- The days of a literal are numbered from one number up to another. -/
def Spans (literal : DateLiteral) (day next : Int) : Prop :=
  ∃ first, literal.firstDay = .ok first ∧ first.dayNumber = day ∧
    (literal.lastDay first).dayNumber + 1 = next

variable {literal : DateLiteral} {first : CalendarDate} {range : DateRange} {day next : Int}

theorem storable_of_firstDay (h : literal.firstDay = .ok first) : literal.Storable := by
  have optional : ∀ {n : Option Int}, checkDateField (n.getD 1) = .ok () →
      ∀ k ∈ n, FitsDateField k := by
    rintro _ hn k rfl
    exact checkDateField_eq_ok_iff.mp hn
  simp only [firstDay, bind_eq_ok_iff] at h
  obtain ⟨_, hyear, _, hmonth, _, hday, -⟩ := h
  exact ⟨checkDateField_eq_ok_iff.mp hyear, optional hmonth, optional hday⟩

/-- A literal is in the calendar if it has the numbers of a date. -/
theorem firstDay_eq_ok_of_fields (hy : (first.year : Int) = literal.year)
    (hm : (first.month : Int) = literal.month.getD 1)
    (hd : (first.day : Int) = literal.day.getD 1) : literal.firstDay = .ok first := by
  have hyear := first.year_range
  have hmonth := first.month_range
  have hday := first.day_le
  have hstorable : literal.Storable := by
    refine ⟨⟨by omega, by omega⟩, fun month he => ?_, fun day he => ?_⟩
    · rw [Option.mem_def.mp he, Option.getD_some] at hm
      exact ⟨by omega, by omega⟩
    · rw [Option.mem_def.mp he, Option.getD_some] at hd
      exact ⟨by omega, by omega⟩
  exact (firstDay_eq_ok_iff hstorable).mpr ⟨hy, hm, hd⟩

namespace Spans

theorem lt (h : literal.Spans day next) : day < next := by
  obtain ⟨first, -, rfl, rfl⟩ := h
  have hle := literal.dayNumber_le_lastDay first
  omega

theorem range_eq (h : literal.Spans day next) (hr : literal.range = .ok range) :
    range.startEpoch = day * 86400 ∧ range.endEpoch + 1 = next * 86400 := by
  obtain ⟨first, hfirst, rfl, rfl⟩ := h
  obtain ⟨other, hother, rfl⟩ := range_eq_ok_iff.mp hr
  cases hfirst.symm.trans hother
  rw [DateRange.startEpoch, DateRange.endEpoch, Moment.epoch_startOfDay, Moment.epoch_endOfDay]
  omega

theorem exists_range (h : literal.Spans day next) : ∃ range, literal.range = .ok range := by
  obtain ⟨first, hfirst, -⟩ := h
  exact ⟨_, range_eq_ok_iff.mpr ⟨first, hfirst, rfl⟩⟩

end Spans

end DateLiteral

/-- The number of the day before the first of January of a year. -/
def yearDay (year : Nat) : Int := daysBeforeYear year - 719163

/-- The number of the day before the first of a month. -/
def monthDay (year month : Nat) : Int := yearDay year + daysBeforeMonth year month

theorem CalendarDate.dayNumber_eq (date : CalendarDate) :
    date.dayNumber = monthDay date.year date.month + date.day := by
  rw [dayNumber, monthDay, yearDay]
  omega

theorem monthDay_one (year : Nat) : monthDay year 1 = yearDay year := Int.add_zero _

theorem monthDay_succ (year month : Nat) :
    monthDay year (month + 1) = monthDay year month + daysInMonth year month := by
  rw [monthDay, monthDay, daysBeforeMonth]
  omega

theorem monthDay_thirteen {year : Nat} (h : 1 ≤ year) : monthDay year 13 = yearDay (year + 1) := by
  rw [monthDay, yearDay, yearDay, daysBeforeYear_succ h]
  omega

namespace DateLiteral

variable {literal : DateLiteral} {year month day : Nat}

theorem spans_of_fields (first : CalendarDate) (hy : (first.year : Int) = literal.year)
    (hm : (first.month : Int) = literal.month.getD 1)
    (hd : (first.day : Int) = literal.day.getD 1) :
    literal.Spans first.dayNumber ((literal.lastDay first).dayNumber + 1) :=
  ⟨first, firstDay_eq_ok_of_fields hy hm hd, rfl, rfl⟩

/-- A year ends where the next one begins. -/
theorem spans_year (hy : 1 ≤ year ∧ year ≤ 9999) (h : literal.numbers = (↑year, none, none)) :
    literal.Spans (yearDay year + 1) (yearDay (year + 1) + 1) := by
  obtain ⟨_, _, _, text, position⟩ := literal
  cases h
  have hs : Spans ⟨year, none, none, text, position⟩ _ _ :=
    spans_of_fields ⟨year, 1, 1, hy, by simp [daysInMonth]⟩ rfl rfl rfl
  have hend : monthDay year 13 = monthDay year 12 + 31 := monthDay_succ year 12
  rw [monthDay_thirteen hy.1] at hend
  rw [CalendarDate.dayNumber_eq, CalendarDate.dayNumber_eq] at hs
  simpa [lastDay, CalendarDate.endOfYear, monthDay_one, hend] using hs

/-- A month ends where the next one begins, if only in the next year. -/
theorem spans_month (hy : 1 ≤ year ∧ year ≤ 9999) (hm : 1 ≤ month ∧ month ≤ 12)
    (h : literal.numbers = (↑year, some ↑month, none)) :
    literal.Spans (monthDay year month + 1) (monthDay year (month + 1) + 1) := by
  obtain ⟨_, _, _, text, position⟩ := literal
  cases h
  have hs : Spans ⟨year, some month, none, text, position⟩ _ _ :=
    spans_of_fields ⟨year, month, 1, hy, Nat.le_refl 1, one_le_daysInMonth hm⟩ rfl rfl rfl
  rw [CalendarDate.dayNumber_eq, CalendarDate.dayNumber_eq] at hs
  simpa [lastDay, CalendarDate.endOfMonth, monthDay_succ] using hs

theorem spans_day (hy : 1 ≤ year ∧ year ≤ 9999) (hd : 1 ≤ day ∧ day ≤ daysInMonth year month)
    (h : literal.numbers = (↑year, some ↑month, some ↑day)) :
    literal.Spans (monthDay year month + day) (monthDay year month + ↑(day + 1)) := by
  obtain ⟨_, _, _, text, position⟩ := literal
  cases h
  have hs : Spans ⟨year, some month, some day, text, position⟩ _ _ :=
    spans_of_fields ⟨year, month, day, hy, hd⟩ rfl rfl rfl
  rw [CalendarDate.dayNumber_eq] at hs
  simpa [lastDay, CalendarDate.dayNumber_eq, Int.add_assoc] using hs

/-- Literals that each end where the next one begins make up the range from the first to the
last. -/
theorem exists_tiles {written : Nat → Int × Option Int × Option Int} {border : Nat → Int}
    {start count : Nat} {literals : List DateLiteral}
    (hspans : ∀ n, start ≤ n → n < start + count → ∀ literal : DateLiteral,
      literal.numbers = written n → literal.Spans (border n) (border (n + 1)))
    (h : literals.map numbers = (List.range' start count).map written) :
    ∃ parts, List.Forall₂ (fun literal part => literal.range = .ok part) literals parts ∧
      Tiles (border start * 86400) parts (border (start + count) * 86400) := by
  induction count generalizing start literals with
  | zero =>
    cases List.map_eq_nil_iff.mp h
    exact ⟨[], .nil, .nil⟩
  | succ count ih =>
    rw [List.range'_succ, List.map_cons] at h
    obtain ⟨literal, rest, rfl, hl, hrest⟩ := List.map_eq_cons_iff.mp h
    have hs := hspans start (Nat.le_refl _) (by omega) literal hl
    obtain ⟨range, hr⟩ := hs.exists_range
    obtain ⟨hstart, hend⟩ := hs.range_eq hr
    obtain ⟨parts, hparts, htiles⟩ :=
      ih (fun n hlow hhigh => hspans n (by omega) (by omega)) hrest
    have hlt := hs.lt
    rw [Nat.add_right_comm, Nat.add_assoc, ← hend] at htiles
    exact ⟨range :: parts, .cons hr hparts, .cons hstart (by omega) htiles⟩

theorem dividedInto_of_spans {written : Nat → Int × Option Int × Option Int} (border : Nat → Int)
    {start count : Nat} {literals : List DateLiteral} {whole : DateRange}
    (hspans : ∀ n, start ≤ n → n < start + count → ∀ literal : DateLiteral,
      literal.numbers = written n → literal.Spans (border n) (border (n + 1)))
    (h : literals.map numbers = (List.range' start count).map written)
    (hstart : whole.startEpoch = border start * 86400)
    (hend : whole.endEpoch + 1 = border (start + count) * 86400) :
    whole.DividedInto literals := by
  obtain ⟨parts, hparts, htiles⟩ := exists_tiles hspans h
  rw [← hstart, ← hend] at htiles
  refine ⟨parts, hparts, htiles, fun second => ?_⟩
  rw [htiles.countP_eq]
  exact if_congr (and_congr_right' Int.lt_add_one_iff) rfl rfl

theorem calendar_dividedInto {years : List DateLiteral} (h : years.map numbers = yearNumbers) :
    DateRange.calendar.DividedInto years := by
  refine dividedInto_of_spans (fun year => yearDay year + 1)
    (fun n hlow hhigh literal => spans_year ⟨hlow, by omega⟩) h ?_ ?_
  · exact Moment.epoch_startOfDay _
  · rw [DateRange.endEpoch, DateRange.calendar, Moment.epoch_endOfDay]
    decide

variable {range : DateRange} {m : Int}

theorem year_dividedInto (hm : literal.month = none) (hd : literal.day = none)
    (hr : literal.range = .ok range) {months : List DateLiteral}
    (h : months.map numbers = monthNumbers literal.year) : range.DividedInto months := by
  obtain ⟨first, hfirst, -⟩ := range_eq_ok_iff.mp hr
  obtain ⟨hyear, -⟩ := (firstDay_eq_ok_iff (storable_of_firstDay hfirst)).mp hfirst
  have hs : literal.Spans _ _ := spans_year first.year_range (by rw [numbers, hyear, hm, hd])
  obtain ⟨hstart, hend⟩ := hs.range_eq hr
  refine dividedInto_of_spans (fun month => monthDay first.year month + 1) ?_ h ?_ ?_
  · intro n hlow hhigh month hmonth
    exact spans_month first.year_range ⟨hlow, by omega⟩ (by rw [hmonth, hyear])
  · rw [hstart, monthDay_one]
  · rw [hend, monthDay_thirteen first.year_range.1]

theorem month_dividedInto (hm : literal.month = some m) (hd : literal.day = none)
    (hr : literal.range = .ok range) {days : List DateLiteral}
    (h : days.map numbers = dayNumbers literal.year m) : range.DividedInto days := by
  obtain ⟨first, hfirst, -⟩ := range_eq_ok_iff.mp hr
  obtain ⟨hyear, hmonth, -⟩ := (firstDay_eq_ok_iff (storable_of_firstDay hfirst)).mp hfirst
  rw [hm, Option.getD_some] at hmonth
  have hs : literal.Spans _ _ :=
    spans_month first.year_range first.month_range (by rw [numbers, hyear, hmonth, hm, hd])
  obtain ⟨hstart, hend⟩ := hs.range_eq hr
  rw [dayNumbers, ← hyear, ← hmonth, Int.toNat_natCast, Int.toNat_natCast] at h
  refine dividedInto_of_spans (fun day => monthDay first.year first.month + ↑day) ?_ h hstart ?_
  · intro n hlow hhigh day hday
    exact spans_day first.year_range ⟨hlow, by omega⟩ hday
  · rw [hend, monthDay_succ]
    omega

end DateLiteral

namespace CalendarDate

variable {first last : CalendarDate}

theorem dayNumber_injective : Function.Injective dayNumber := by
  intro date other he
  rcases before_or_eq_or_before date other with hb | heq | hb
  · exact absurd he (Int.ne_of_lt (dayNumber_lt_of_before hb))
  · exact heq
  · exact absurd he.symm (Int.ne_of_lt (dayNumber_lt_of_before hb))

/-- Every number between those of two dates is that of a date. -/
theorem exists_dayNumber (distance : Nat) (h : first.dayNumber + distance ≤ last.dayNumber) :
    ∃ date : CalendarDate, date.dayNumber = first.dayNumber + distance := by
  induction distance with
  | zero => exact ⟨first, (Int.add_zero _).symm⟩
  | succ distance ih =>
    obtain ⟨date, hdate⟩ := ih (by omega)
    have hbefore : date.Before last := dayNumber_lt_iff.mp (by omega)
    obtain ⟨next, hnext⟩ := exists_dayNumber_succ hbefore
    exact ⟨next, by omega⟩

/-- The dates from one to another are as many as their numbers. -/
theorem ncard_between (h : first.dayNumber ≤ last.dayNumber) :
    (Set.ncard {date : CalendarDate | ¬date.Before first ∧ ¬last.Before date} : Int) =
      last.dayNumber + 1 - first.dayNumber := by
  have hset : {date : CalendarDate | ¬date.Before first ∧ ¬last.Before date} =
      Set.preimage dayNumber (Set.Icc first.dayNumber last.dayNumber) := by
    ext date
    simp only [Set.mem_ofPred_eq, Set.mem_preimage, Set.mem_Icc, dayNumber_le_iff]
  have hrange : Set.Icc first.dayNumber last.dayNumber ⊆ Set.range dayNumber := by
    rintro n ⟨hlow, hhigh⟩
    obtain ⟨distance, hdistance⟩ := Int.le.dest hlow
    obtain ⟨date, hdate⟩ := exists_dayNumber distance (hdistance.trans_le hhigh)
    exact ⟨date, hdate.trans hdistance⟩
  rw [hset, Set.ncard_preimage_of_injective_subset_range dayNumber_injective hrange,
    ← Finset.coe_Icc, Set.ncard_coe_finset, Int.card_Icc_of_le _ _ (by omega)]

end CalendarDate

/-- The days of a literal are as many as the dates that agree with it. -/
theorem DateLiteral.length_range {literal : DateLiteral} {range : DateRange}
    (h : literal.range = .ok range) :
    range.endEpoch - range.startEpoch + 1 =
      86400 * (Set.ncard {date : CalendarDate | literal.Covers date} : Int) := by
  obtain ⟨first, hfirst, rfl⟩ := range_eq_ok_iff.mp h
  obtain ⟨hy, hm, hd⟩ := (firstDay_eq_ok_iff (storable_of_firstDay hfirst)).mp hfirst
  have hdates : {date : CalendarDate | literal.Covers date} =
      {date | ¬date.Before first ∧ ¬(literal.lastDay first).Before date} :=
    Set.ext fun date => covers_iff_between hy hm hd
  rw [hdates, CalendarDate.ncard_between (literal.dayNumber_le_lastDay first),
    DateRange.startEpoch, DateRange.endEpoch, Moment.epoch_startOfDay, Moment.epoch_endOfDay]
  omega

theorem DateLiteral.length_day {literal : DateLiteral} {range : DateRange}
    (hd : literal.day ≠ none) (h : literal.range = .ok range) :
    range.endEpoch - range.startEpoch + 1 = 86400 := by
  obtain ⟨first, -, rfl⟩ := range_eq_ok_iff.mp h
  obtain ⟨day, hday⟩ := Option.ne_none_iff_exists'.mp hd
  have hlast : literal.lastDay first = first := by
    rw [lastDay, hday]
  rw [hlast, DateRange.startEpoch, DateRange.endEpoch, Moment.epoch_startOfDay,
    Moment.epoch_endOfDay]
  omega

/-- The years make up the calendar, the months of a year that year and the days of a month that
month, each beginning in the second after the end of the one before. A day has 86400 seconds, and
the range of any literal has as many for each of its dates. -/
theorem date_ranges_tile_calendar :
    (∀ years : List DateLiteral,
      years.map DateLiteral.numbers = DateLiteral.yearNumbers →
      DateRange.calendar.DividedInto years) ∧
    ∀ (literal : DateLiteral) (range : DateRange), literal.range = .ok range →
      (literal.month = none → literal.day = none → ∀ months : List DateLiteral,
        months.map DateLiteral.numbers = DateLiteral.monthNumbers literal.year →
        range.DividedInto months) ∧
      (∀ month, literal.month = some month → literal.day = none → ∀ days : List DateLiteral,
        days.map DateLiteral.numbers = DateLiteral.dayNumbers literal.year month →
        range.DividedInto days) ∧
      (literal.day ≠ none → range.endEpoch - range.startEpoch + 1 = 86400) ∧
      range.endEpoch - range.startEpoch + 1 =
        86400 * (Set.ncard {date : CalendarDate | literal.Covers date} : Int) := by
  refine ⟨fun years => DateLiteral.calendar_dividedInto, fun literal range hr => ⟨?_, ?_, ?_, ?_⟩⟩
  · intro hm hd months
    exact DateLiteral.year_dividedInto hm hd hr
  · intro month hm hd days
    exact DateLiteral.month_dividedInto hm hd hr
  · intro hd
    exact DateLiteral.length_day hd hr
  · exact DateLiteral.length_range hr

/-- All years, the months of a leap year, the days of its February and the last of them. -/
theorem leap_february_tiled :
    DateRange.calendar.DividedInto
      ((List.range' 1 9999).map fun n : Nat => ⟨n, none, none, "", 0⟩) ∧
    (∃ range, DateLiteral.range ⟨2020, none, none, "2020", 0⟩ = .ok range ∧
      range.DividedInto ((List.range' 1 12).map fun n : Nat => ⟨2020, some n, none, "", 0⟩)) ∧
    (∃ range, DateLiteral.range ⟨2020, some 2, none, "2020-02", 0⟩ = .ok range ∧
      range.DividedInto ((List.range' 1 29).map fun n : Nat => ⟨2020, some 2, some n, "", 0⟩) ∧
      range.endEpoch - range.startEpoch + 1 = 86400 * (Set.ncard {date : CalendarDate |
        DateLiteral.Covers ⟨2020, some 2, none, "2020-02", 0⟩ date} : Int)) ∧
    ∃ range, DateLiteral.range ⟨2020, some 2, some 29, "2020-02-29", 0⟩ = .ok range ∧
      range.endEpoch - range.startEpoch + 1 = 86400 := by
  obtain ⟨hyears, hliteral⟩ := date_ranges_tile_calendar
  have hyear : DateLiteral.range ⟨2020, none, none, "2020", 0⟩ =
      .ok ⟨.startOfDay ⟨2020, 1, 1, by decide, by decide⟩,
        .endOfDay ⟨2020, 12, 31, by decide, by decide⟩⟩ := rfl
  have hmonth : DateLiteral.range ⟨2020, some 2, none, "2020-02", 0⟩ =
      .ok ⟨.startOfDay ⟨2020, 2, 1, by decide, by decide⟩,
        .endOfDay ⟨2020, 2, 29, by decide, by decide⟩⟩ := rfl
  have hday : DateLiteral.range ⟨2020, some 2, some 29, "2020-02-29", 0⟩ =
      .ok ⟨.startOfDay ⟨2020, 2, 29, by decide, by decide⟩,
        .endOfDay ⟨2020, 2, 29, by decide, by decide⟩⟩ := rfl
  obtain ⟨-, hdays, -, hlength⟩ := hliteral _ _ hmonth
  have numbered : ∀ (written : Nat → DateLiteral) (count : Nat),
      ((List.range' 1 count).map written).map DateLiteral.numbers =
        (List.range' 1 count).map fun n => (written n).numbers :=
    fun written count => List.map_map
  exact ⟨hyears _ (numbered _ 9999), ⟨_, hyear, (hliteral _ _ hyear).1 rfl rfl _ (numbered _ 12)⟩,
    ⟨_, hmonth, hdays 2 rfl rfl _ (numbered _ 29), hlength⟩,
    _, hday, (hliteral _ _ hday).2.2.1 (by simp)⟩

end SearchFilter

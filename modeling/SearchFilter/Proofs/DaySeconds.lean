import SearchFilter.Proofs.EpochSize

namespace SearchFilter

namespace Moment

/-- A moment that lies a whole number of seconds from 1970 has exactly its own second. -/
theorem epoch_of_whole {moment : Moment} (h : moment.utcMicros % 1000000 = 0) :
    moment.epoch = moment.utcMicros / 1000000 := by
  have hwhole : moment.utcMicros / 1000000 * (1000000 : Nat) = moment.utcMicros :=
    Int.ediv_mul_cancel_of_emod_eq_zero h
  have hkept : roundedFloor (moment.utcMicros / 1000000 * (1000000 : Nat)) 1000000 = _ :=
    roundedFloor_mul _ (by decide)
  rwa [hwhole] at hkept

/-- A moment in UTC without a fraction of a second has the second that its day and time say. -/
theorem epoch_of_utc {moment : Moment} (hmicro : moment.micro = 0)
    (hutc : moment.offset.getD 0 = 0) :
    moment.epoch = moment.date.dayNumber * 86400 + moment.secondOfDay := by
  have hmicros : moment.utcMicros =
      (moment.date.dayNumber * 86400 + moment.secondOfDay) * 1000000 := by
    rw [utcMicros, hmicro, hutc, Int.natCast_zero, Int.add_zero, Int.sub_zero]
  rw [epoch_of_whole (hmicros ▸ Int.mul_emod_left _ _), hmicros]
  exact Int.mul_ediv_cancel _ (by decide)

theorem secondOfDay_startOfDay (date : CalendarDate) : (startOfDay date).secondOfDay = 0 := by
  simp only [secondOfDay, startOfDay, Nat.zero_mul]

theorem secondOfDay_endOfDay (date : CalendarDate) : (endOfDay date).secondOfDay = 86399 := by
  have hhour : (endOfDay date).hour = 23 := rfl
  have hminute : (endOfDay date).minute = 59 := rfl
  have hsecond : (endOfDay date).second = 59 := rfl
  rw [secondOfDay, hhour, hminute, hsecond]

theorem epoch_startOfDay (date : CalendarDate) :
    (startOfDay date).epoch = date.dayNumber * 86400 := by
  rw [epoch_of_utc rfl rfl, secondOfDay_startOfDay, Int.natCast_zero, Int.add_zero]
  rfl

theorem epoch_endOfDay (date : CalendarDate) :
    (endOfDay date).epoch = date.dayNumber * 86400 + 86399 := by
  rw [epoch_of_utc rfl rfl, secondOfDay_endOfDay]
  rfl

end Moment

namespace DateLiteral

theorem dayNumber_le_lastDay (literal : DateLiteral) (first : CalendarDate) :
    first.dayNumber ≤ (literal.lastDay first).dayNumber := by
  have hmonth := first.month_range.2
  have hlength := first.day_range.2
  have hday := first.day_le
  rw [CalendarDate.dayNumber_le_iff, CalendarDate.Before]
  unfold lastDay
  split
  next => omega
  next =>
    simp only [CalendarDate.endOfMonth]
    omega
  next =>
    simp only [CalendarDate.endOfYear]
    omega

end DateLiteral

end SearchFilter

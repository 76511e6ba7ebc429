import Mathlib.Algebra.Group.Int.Defs
import SearchFilter.Proofs.DaySeconds

namespace SearchFilter

namespace Moment

variable {moment other : Moment}

/-- The same reading of a clock that is said to show UTC. -/
def markedUtc (moment : Moment) : Moment :=
  { moment with offset := some 0, offset_range := utc_offset_range }

/-- The second of a moment, or the next if it has rounded up to it. -/
theorem epoch_bounds (moment : Moment) :
    moment.utcMicros / 1000000 ≤ moment.epoch ∧
      moment.epoch ≤ moment.utcMicros / 1000000 + 1 :=
  roundedFloor_bounds moment.utcMicros 1000000

theorem epoch_mono (h : moment.utcMicros ≤ other.utcMicros) : moment.epoch ≤ other.epoch :=
  roundedFloor_mono (by decide) h

/-- Less than `2 ^ 34` seconds from 1970 a microsecond is more than half of a part of a second. -/
theorem epoch_of_near (hlow : -(2 ^ 34 * 1000000) ≤ moment.utcMicros)
    (hhigh : moment.utcMicros < 2 ^ 34 * 1000000) :
    moment.epoch = moment.utcMicros / 1000000 := by
  rcases Int.lt_or_eq_of_le hlow with hlt | heq
  · have hsize : moment.utcMicros.natAbs / 1000000 < 2 ^ 34 := by omega
    have hplaces : 19 ≤ binaryPlaces moment.utcMicros 1000000 := by
      have hlog := log2_lt_of_lt (by decide) hsize
      rw [binaryPlaces]
      omega
    refine roundedFloor_of_fine (by decide) ?_
    have hscale := Nat.pow_le_pow_right (n := 2) (by decide) hplaces
    rw [roundingScale_eq]
    omega
  · rw [epoch, ← heq]
    decide +kernel

/-- Seconds after 1970 are counted by the calendar: its days are numbered one by one from the first
day of 1970. The epoch of a moment is the second that it lies in or the next one, and the former if
it lies a whole number of seconds or less than `2 ^ 34` seconds from 1970. A reading without a
fraction lies a whole number of seconds from 1970 if its distance from UTC has no fraction either.
Moments of one instant have one epoch, with whatever distance from UTC they are given or with none,
and later moments have no earlier epoch. -/
theorem epoch_of_instant (moment : Moment) :
    CalendarDate.dayNumber ⟨1970, 1, 1, by decide, by decide⟩ = 0 ∧
    (∀ date next : CalendarDate, next.Follows date → next.dayNumber = date.dayNumber + 1) ∧
    moment.utcMicros = (moment.date.dayNumber * 86400 + moment.secondOfDay) * 1000000 +
      moment.micro - moment.offset.getD 0 ∧
    (moment.epoch = moment.utcMicros / 1000000 ∨
      moment.epoch = moment.utcMicros / 1000000 + 1) ∧
    (moment.utcMicros % 1000000 = 0 ∨ -(2 ^ 34 * 1000000) ≤ moment.utcMicros ∧
        moment.utcMicros < 2 ^ 34 * 1000000 →
      moment.epoch = moment.utcMicros / 1000000) ∧
    (moment.micro = 0 → moment.offset.getD 0 % 1000000 = 0 → moment.utcMicros % 1000000 = 0) ∧
    (∀ other : Moment, other.utcMicros = moment.utcMicros → other.epoch = moment.epoch) ∧
    (moment.offset = none → moment.markedUtc.epoch = moment.epoch) ∧
    ∀ other : Moment, moment.utcMicros ≤ other.utcMicros → moment.epoch ≤ other.epoch := by
  have hsame : ∀ other : Moment, other.utcMicros = moment.utcMicros →
      other.epoch = moment.epoch :=
    fun other h => Int.le_antisymm (epoch_mono (Int.le_of_eq h)) (epoch_mono (Int.le_of_eq h.symm))
  refine ⟨by decide, fun _ _ => CalendarDate.dayNumber_of_follows, rfl, ?_, ?_, ?_, hsame, ?_,
    fun _ => epoch_mono⟩
  · have hbounds := moment.epoch_bounds
    omega
  · rintro (hwhole | ⟨hlow, hhigh⟩)
    · exact epoch_of_whole hwhole
    · exact epoch_of_near hlow hhigh
  · intro hmicro hoffset
    rw [utcMicros, hmicro]
    omega
  · intro hnaive
    refine hsame _ ?_
    rw [utcMicros, utcMicros, hnaive]
    rfl

/-- A reading of a clock that does not say how far it is from UTC. -/
def naive2514 (second micro : Nat) (hs : second < 60) (hm : micro < 1000000) : Moment :=
  ⟨⟨2514, 5, 30, by decide, by decide⟩, 1, 53, second, micro, none, by decide, by decide, hs, hm,
    naive_offset_range⟩

/-- The last microsecond before `2 ^ 34` seconds have passed still belongs to its own second, also
if the clock says that it shows UTC, and it comes before the first one after that. -/
theorem epoch_of_instant_near_bound :
    (naive2514 3 999999 (by decide) (by decide)).epoch = 17179869183 ∧
      (naive2514 3 999999 (by decide) (by decide)).markedUtc.epoch = 17179869183 ∧
      (naive2514 3 999999 (by decide) (by decide)).epoch ≤
        (naive2514 4 999999 (by decide) (by decide)).epoch := by
  obtain ⟨-, -, -, -, hnear, -, -, hmarked, hmono⟩ :=
    epoch_of_instant (naive2514 3 999999 (by decide) (by decide))
  have hepoch := hnear (.inr (by decide +kernel))
  refine ⟨hepoch.trans (by decide +kernel), (hmarked rfl).trans (hepoch.trans (by decide +kernel)),
    hmono _ (by decide +kernel)⟩

/-- The start of a day on a clock that is a microsecond ahead of UTC. -/
def microAhead5000 : Moment :=
  { startOfDay ⟨5000, 6, 1, by decide, by decide⟩ with
    offset := some 1
    offset_range := by simp }

/-- Behind that bound a reading without a fraction can count as the next second, since its distance
from UTC can have one. -/
theorem epoch_of_fractional_offset :
    microAhead5000.micro = 0 ∧ microAhead5000.utcMicros / 1000000 = 95630630399 ∧
      microAhead5000.epoch = 95630630400 := by
  decide +kernel

/-- Behind that bound a fraction can count as the next second. -/
example : (naive2514 4 999999 (by decide) (by decide)).epoch = 17179869184 + 1 := by
  decide +kernel

end Moment

end SearchFilter

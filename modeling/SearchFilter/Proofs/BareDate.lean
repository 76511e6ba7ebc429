import SearchFilter.Proofs.DaySeconds
import SearchFilter.Proofs.JoinedFilter
import SearchFilter.Proofs.Meaning

namespace SearchFilter

/-- The two bounds of a date that stands alone. -/
def DateRange.bounds (range : DateRange) : Chain Constraint :=
  .link (.dated .greater range.startEpoch) .and (.single (.dated .less range.endEpoch))

/-- The range of the year 2019. -/
def range2019 : DateRange :=
  ⟨.startOfDay ⟨2019, 1, 1, by decide, by decide⟩, .endOfDay ⟨2019, 12, 31, by decide, by decide⟩⟩

end SearchFilter

import SearchFilter.Moment
import SearchFilter.Rounding

namespace SearchFilter

/-- Whole seconds since 1970. Seconds have 53 significant bits before their fraction is dropped, so
far from 1970 the last microseconds of a second count as the next one. -/
def Moment.epoch (moment : Moment) : Int := roundedFloor moment.utcMicros 1000000

end SearchFilter

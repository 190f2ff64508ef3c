import Mathlib.Init

/-!
# The weekday of a date

`dayofweek` of `date.c`, where no `int` overflows.
-/

namespace Xv6

/-- `dayofweek`. -/
def dayofweek (y m d : Int) : Int :=
  let (d, y) := if m < 3 then (d + y, y - 1) else (d + (y - 2), y)
  ((23 * m).tdiv 9 + d + 4 + y.tdiv 4 - y.tdiv 100 + y.tdiv 400).tmod 7

end Xv6

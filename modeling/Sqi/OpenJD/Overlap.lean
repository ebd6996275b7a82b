import Mathlib.Algebra.Order.Ring.Abs
import Mathlib.Tactic.LinearCombination
import Sqi.Lib.Congruence
import Sqi.OpenJD.RangeText

/-! Overlapping sub-ranges of a range expression (`range.go`): two stepped ranges are compared as arithmetic
progressions, by solving for a common term. -/

namespace Sqi
open List Word GoText

namespace Overlap

def mod (a m : Int) : Int :=
  let r := a.tmod m
  if r < 0 then wrap (r + m) else r
end Overlap

namespace IntRange

end IntRange

variable {ranges : List IntRange} {expr : Text}

end Sqi

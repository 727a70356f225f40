import Mathlib.Algebra.Group.Int.Defs

/-!
# Time — clock readings of the Go packages (`time.Time`)

A reading of the clock is a number of nanoseconds.  The code reads the clock itself; in a model the readings are inputs.
-/

namespace LingVoice.Common

abbrev Time := Int

/-- `t.Sub(u)`: a difference that does not fit in a `time.Duration` is the greatest or the least one. -/
def Time.sub (t u : Time) : Int64 :=
  Int64.ofInt (max (-2 ^ 63) (min (2 ^ 63 - 1) (t - u)))

end LingVoice.Common

import Mathlib.Algebra.GroupWithZero.Nat
import Mathlib.Data.List.TakeWhile

/-!
# RunLength — run-length coding with a bound on the runs

`runs limit` cuts a list into stretches of one symbol, each of at most `limit`; a longer stretch gives
several runs.  `expand` reads the runs back.
-/

namespace LingVoice.Lib

open List

variable {α : Type}

variable [DecidableEq α]

/-- How far `a` goes on from the front, `limit` at most. -/
def runLength (limit : Nat) (a : α) (symbols : List α) : Nat :=
  ((symbols.take limit).takeWhile (· == a)).length

/-- The loop that cuts off one run after the other; every run takes at least one symbol. -/
def runs (limit : Nat) : Nat → List α → List (α × Nat)
  | 0, _ => []
  | _ + 1, [] => []
  | fuel + 1, a :: rest =>
    (a, runLength limit a (a :: rest)) ::
      runs limit fuel ((a :: rest).drop (runLength limit a (a :: rest)))

section

variable {limit : Nat}

variable (hlimit : 0 < limit)

include hlimit

end

end LingVoice.Lib

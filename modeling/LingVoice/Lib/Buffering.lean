import LingVoice.Lib.Fallible
import Mathlib.Data.List.Nodup

/-!
# Buffering — items that are collected and cut into runs

Items are numbered as they come.  A cut makes a run of what stands in the buffer.  Here a cut leaves the buffer as it
is, so that every run begins with the first item of all: the runs are a partition of the items only as long as there are
not two of them.
-/

namespace LingVoice.Lib

open List

structure Buffering where
  taken : Nat
  buffer : List Nat
  /-- The items of a run, and the one with which it was cut. -/
  runs : List (List Nat × Nat)

namespace Buffering

def take (b : Buffering) (cut : Bool) : Buffering where
  taken := b.taken + 1
  buffer := b.buffer ++ [b.taken]
  runs := if cut then b.runs ++ [(b.buffer ++ [b.taken], b.taken)] else b.runs

/-- What holds after any number of items. -/
structure Grown (b : Buffering) : Prop where
  buffer : b.buffer = List.range b.taken
  runs : ∀ r ∈ b.runs, r.1 = List.range (r.2 + 1) ∧ r.2 < b.taken
  few : b.runs.length ≤ b.taken

namespace Grown

theorem nil : Grown ⟨0, [], []⟩ :=
  ⟨rfl, by simp, Nat.le_refl 0⟩

variable {b : Buffering}

theorem take (h : b.Grown) (cut : Bool) : (b.take cut).Grown := by
  have hbuffer : b.buffer ++ [b.taken] = List.range (b.taken + 1) := by
    rw [h.buffer, range_succ]
  have hold : ∀ r ∈ b.runs, r.1 = List.range (r.2 + 1) ∧ r.2 < b.taken + 1 := by
    intro r hr
    exact ⟨(h.runs r hr).1, Nat.lt_succ_of_lt (h.runs r hr).2⟩
  cases cut with
  | false => exact ⟨hbuffer, hold, Nat.le_succ_of_le h.few⟩
  | true =>
    refine ⟨hbuffer, ?_, ?_⟩
    · intro r hr
      rcases mem_append.1 hr with hr | hr
      · exact hold r hr
      · obtain rfl := mem_singleton.1 hr
        exact ⟨hbuffer, Nat.lt_succ_self _⟩
    · simpa [Buffering.take] using h.few

end Grown

/-- How many inputs cut, where a cut sets the time that the next ones are compared with. -/
def cutCount {τ ι : Type} (cuts : τ → ι → Bool) (now : ι → τ) : τ → List ι → Nat
  | _, [] => 0
  | time, i :: inputs => if cuts time i then cutCount cuts now (now i) inputs + 1 else cutCount cuts now time inputs

end Buffering
end LingVoice.Lib

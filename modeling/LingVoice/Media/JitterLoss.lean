import LingVoice.Media.Jitter
import Mathlib.Algebra.Order.Ring.Nat

/-!
# JitterLoss — reading behind a lost packet

`Read` waits for the next packet only, and inserts no silence.  When it is lost, nothing is read until a packet comes
that has the same 16-bit number.
-/

namespace LingVoice.Media.JitterBuffer

open Lib Function Lib.Mealy

variable {π : Type} {capacity : Nat} [NeZero capacity] {packet : Nat → π} {j : JitterBuffer π capacity} {n i k : Nat}

/-- Packet `n` is the next one to be read, and it is not there. -/
def Waiting (j : JitterBuffer π capacity) (n : Nat) : Prop :=
  j.nextSeq = UInt16.ofNat n ∧
    ¬ ((j.slots (slotOf capacity n)).filled ∧ (j.slots (slotOf capacity n)).seq = UInt16.ofNat n)

def ahead (first k : Nat) : List Op :=
  (List.range k).flatMap fun i => [.write (first + i), .read]

theorem Waiting.read (h : j.Waiting n) : j.read = (j, none) := by
  unfold JitterBuffer.read
  rw [h.1]
  exact if_neg h.2

theorem write_spec (j : JitterBuffer π capacity) (seq : UInt16) (p : π) :
    (j.write seq p).1.nextSeq = j.nextSeq ∧ (j.write seq p).1.slots =
      if (j.write seq p).2 then update j.slots (slotIndex capacity seq) ⟨seq, some p, true⟩ else j.slots := by
  unfold JitterBuffer.write
  dsimp only
  split
  · exact ⟨rfl, rfl⟩
  · split
    · exact ⟨rfl, rfl⟩
    · exact ⟨rfl, rfl⟩

theorem Waiting.write (h : j.Waiting n) (hi : UInt16.ofNat i ≠ UInt16.ofNat n) (p : π) :
    (j.write (UInt16.ofNat i) p).1.Waiting n := by
  obtain ⟨hnext, hslots⟩ := write_spec j (UInt16.ofNat i) p
  refine ⟨hnext.trans h.1, ?_⟩
  rw [hslots]
  split
  · by_cases hidx : slotOf capacity n = slotIndex capacity (UInt16.ofNat i)
    · simp [hidx, hi]
    · simpa [hidx] using h.2
  · exact h.2

end LingVoice.Media.JitterBuffer

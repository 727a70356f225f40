import Mathlib.Data.List.Nodup

/-!
# ReplayWindow — sliding-window replay filters

A replay filter sees a stream of natural-number indices and decides which to accept.  What it is for
is stated on the *history*, the list of indices accepted so far: `Admits w t h i` says that `i` may
be accepted when `t` is the largest accepted index and the window is `w` wide.

An implementation does not keep the history.  It keeps the largest index and one bit per offset
below it; `Represents cap t h bits` says that these bits are the part of the history inside `cap`.
-/

namespace LingVoice.Lib

open List

/-! ## The filter on histories -/

/-- `i` may be accepted: above the largest accepted index `t`, or inside the window and new. -/
def Admits (w t : Nat) (h : List Nat) (i : Nat) : Prop :=
  t < i ∨ (t - i < w ∧ i ∉ h)

theorem Admits.not_mem {w t i : Nat} {h : List Nat} (htop : ∀ j ∈ h, j ≤ t) (hadm : Admits w t h i) : i ∉ h := by
  rcases hadm with hlt | ⟨_, hnew⟩
  · intro hmem
    have hle := htop i hmem
    omega
  · exact hnew

/-! ## Bits that stand for a history -/

/-- `bits k` tells, for every offset `k` below `cap`, whether `t - k` was accepted. -/
structure Represents (cap t : Nat) (h : List Nat) (bits : Nat → Bool) : Prop where
  le_top : ∀ j ∈ h, j ≤ t
  bit : ∀ k, k < cap → k ≤ t → (bits k = true ↔ t - k ∈ h)

namespace Represents

variable {cap t i : Nat} {h : List Nat} {bits bits' : Nat → Bool}

theorem bit_eq (hr : Represents cap t h bits) (hi : i ≤ t) (hcap : t - i < cap) : bits (t - i) = true ↔ i ∈ h := by
  have hoff : t - (t - i) = i := by omega
  have hbit := hr.bit (t - i) hcap (by omega)
  rwa [hoff] at hbit

/-- The first accepted index: only offset zero is set. -/
theorem first (hbits : ∀ k, k < cap → (bits k = true ↔ k = 0)) : Represents cap i [i] bits := by
  refine ⟨?_, ?_⟩
  · intro j hj
    have hji : j = i := by simpa using hj
    omega
  · intro k hk hki
    rw [hbits k hk, mem_singleton]
    omega

/-- Accepting an index above the top: the bits move up and offset zero is set. -/
theorem advance (hr : Represents cap t h bits) (hlt : t < i)
    (hbits : ∀ k, k < cap → (bits' k = true ↔ k = 0 ∨ (i - t ≤ k ∧ bits (k - (i - t)) = true))) :
    Represents cap i (h ++ [i]) bits' := by
  refine ⟨?_, ?_⟩
  · intro j hj
    rcases mem_append.1 hj with hold | hnew
    · have hle := hr.le_top j hold
      omega
    · have hji : j = i := by
        simpa using hnew
      omega
  · intro k hk hki
    rw [hbits k hk, mem_append, mem_singleton]
    constructor
    · rintro (hzero | ⟨hshift, hbit⟩)
      · right
        omega
      · -- a shifted bit is the bit of an old index, counted from the new top
        left
        have hmem := (hr.bit (k - (i - t)) (by omega) (by omega)).1 hbit
        have hoff : t - (k - (i - t)) = i - k := by omega
        rwa [hoff] at hmem
    · rintro (hmem | htop)
      · -- an old index lies at or below the old top, so its offset was shifted in
        have hle := hr.le_top (i - k) hmem
        have hoff : t - (k - (i - t)) = i - k := by omega
        right
        refine ⟨by omega, ?_⟩
        rw [hr.bit (k - (i - t)) (by omega) (by omega), hoff]
        exact hmem
      · left
        omega

/-- Accepting an index at or below the top: its offset is set and nothing else moves. -/
theorem fill (hr : Represents cap t h bits) (hle : i ≤ t)
    (hbits : ∀ k, k < cap → (bits' k = true ↔ k = t - i ∨ bits k = true)) : Represents cap t (h ++ [i]) bits' := by
  refine ⟨?_, ?_⟩
  · intro j hj
    rcases mem_append.1 hj with hold | hnew
    · exact hr.le_top j hold
    · have hji : j = i := by
        simpa using hnew
      omega
  · intro k hk hkt
    rw [hbits k hk, mem_append, mem_singleton, hr.bit k hk hkt]
    constructor
    · rintro (hoff | hmem)
      · right
        omega
      · exact Or.inl hmem
    · rintro (hmem | hnew)
      · exact Or.inr hmem
      · left
        omega

end Represents

end LingVoice.Lib

import Mathlib.Algebra.BigOperators.Group.List.Basic
import Mathlib.Algebra.Order.Group.Int
import Mathlib.Algebra.Ring.Int.Defs

/-!
# Saturation — sums that are clamped after every addition

A saturating adder keeps its sum in the range `[lo, hi]` by clamping it after each summand.  For summands of one sign
this is the same as to clamp their sum once.  For summands of both signs it may not be, and it depends on their order.
-/

namespace LingVoice.Lib.Saturation

open List

variable {lo hi : Int}

def clamp (lo hi x : Int) : Int :=
  max lo (min hi x)

def satAdd (lo hi acc x : Int) : Int :=
  clamp lo hi (acc + x)

def satSum (lo hi : Int) (l : List Int) : Int :=
  l.foldl (satAdd lo hi) 0

def positives (l : List Int) : List Int :=
  l.filter fun x => decide (0 < x)

def others (l : List Int) : List Int :=
  l.filter fun x => !decide (0 < x)

def pos (l : List Int) : Int :=
  (positives l).sum

def neg (l : List Int) : Int :=
  (others l).sum

variable (l : List Int)

theorem positives_append_others : (positives l ++ others l).Perm l :=
  filter_append_perm _ l

theorem pos_cons (x : Int) (l : List Int) : pos (x :: l) = max 0 x + pos l := by
  unfold pos positives
  rcases lt_or_ge 0 x with hx | hx
  · simp [hx, max_eq_right hx.le]
  · simp [hx, hx.not_gt]

theorem neg_cons (x : Int) (l : List Int) : neg (x :: l) = min 0 x + neg l := by
  unfold neg others
  rcases lt_or_ge 0 x with hx | hx
  · simp [hx, min_eq_left hx.le]
  · simp [hx, hx.not_gt]

theorem pos_nonneg : 0 ≤ pos l := by
  induction l with
  | nil => exact Int.le_refl 0
  | cons x l ih =>
    rw [pos_cons]
    omega

theorem neg_nonpos : neg l ≤ 0 := by
  induction l with
  | nil => exact Int.le_refl 0
  | cons x l ih =>
    rw [neg_cons]
    omega

theorem pos_add_neg : pos l + neg l = l.sum := by
  rw [pos, neg, ← sum_append]
  exact (positives_append_others l).sum_eq

/-! ## One clamp for all -/

/-- What leaves the range on one side is not brought back from the other one. -/
def Settled (lo hi : Int) (l : List Int) : Prop :=
  (pos l ≤ hi ∨ neg l = 0) ∧ (lo ≤ neg l ∨ pos l = 0)

instance (lo hi : Int) (l : List Int) : Decidable (Settled lo hi l) :=
  inferInstanceAs (Decidable (_ ∧ _))

theorem Settled.perm {l l' : List Int} (h : Settled lo hi l) (hperm : l'.Perm l) : Settled lo hi l' := by
  have hpos : pos l' = pos l := (hperm.filter _).sum_eq
  have hneg : neg l' = neg l := (hperm.filter _).sum_eq
  rwa [Settled, hpos, hneg]

/-- A sum that leaves the range on no side from which it is brought back may be clamped at its end. -/
theorem foldl_satAdd {acc : Int} (hlo : lo ≤ acc) (hhi : acc ≤ hi) (hup : acc + pos l ≤ hi ∨ neg l = 0)
    (hdown : lo ≤ acc + neg l ∨ pos l = 0) : l.foldl (satAdd lo hi) acc = clamp lo hi (acc + l.sum) := by
  induction l generalizing acc with
  | nil =>
    simp only [foldl_nil, sum_nil, clamp]
    omega
  | cons x l ih =>
    have hpos := pos_nonneg l
    have hneg := neg_nonpos l
    have hsum := pos_add_neg l
    rw [pos_cons] at hup hdown
    rw [neg_cons] at hup hdown
    have hnext : satAdd lo hi acc x = max lo (min hi (acc + x)) := rfl
    rw [foldl_cons, hnext, ih (by omega) (by omega) (by omega) (by omega), sum_cons]
    simp only [clamp]
    omega

theorem neg_positives : neg (positives l) = 0 := by
  simp [neg, others, positives, filter_filter]

theorem pos_others : pos (others l) = 0 := by
  simp [pos, others, positives, filter_filter]

/-- Two parts that have summands of one sign each. -/
theorem satSum_append (hlo : lo ≤ 0) (hhi : 0 ≤ hi) {a b : List Int} (ha : neg a = 0 ∨ pos a = 0)
    (hb : neg b = 0 ∨ pos b = 0) : satSum lo hi (a ++ b) = clamp lo hi (clamp lo hi a.sum + b.sum) := by
  have hrange : lo ≤ clamp lo hi a.sum ∧ clamp lo hi a.sum ≤ hi := by
    unfold clamp
    omega
  rw [satSum, foldl_append, foldl_satAdd a hlo hhi (by omega) (by omega), Int.zero_add,
    foldl_satAdd b hrange.1 hrange.2 (by omega) (by omega)]

/-- Every order gives the clamped sum exactly when the summands are settled. -/
theorem forall_perm_satSum_iff (hlo : lo < 0) (hhi : 0 < hi) (l : List Int) :
    (∀ l', l'.Perm l → satSum lo hi l' = clamp lo hi l.sum) ↔ Settled lo hi l := by
  constructor
  · intro h
    have hpos := pos_nonneg l
    have hneg := neg_nonpos l
    -- two orders are enough: one sign first, or the other one
    have hup := h _ (positives_append_others l)
    have hdown := h _ (perm_append_comm.trans (positives_append_others l))
    rw [satSum_append hlo.le hhi.le (.inl (neg_positives l)) (.inr (pos_others l)), ← pos_add_neg l] at hup
    rw [satSum_append hlo.le hhi.le (.inr (pos_others l)) (.inl (neg_positives l)), ← pos_add_neg l] at hdown
    have hparts : (positives l).sum = pos l ∧ (others l).sum = neg l := ⟨rfl, rfl⟩
    simp only [clamp] at hup hdown
    unfold Settled
    omega
  · intro h l' hperm
    obtain ⟨hup, hdown⟩ := h.perm hperm
    rw [satSum, foldl_satAdd l' hlo.le hhi.le (by omega) (by omega), Int.zero_add, hperm.sum_eq]

end LingVoice.Lib.Saturation

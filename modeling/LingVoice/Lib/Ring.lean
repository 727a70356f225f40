import Mathlib.Data.List.Basic
import Mathlib.Data.Int.ModEq

/-!
# Ring — a window of a sequence in a ring of cells

The items of a growing sequence are written into `cap` cells, the item with number `i` into cell `i % cap`.  A `Window`
says what the cells hold: the items from `start` on, each in its cell, and nothing in the cells that no item has
reached.
-/

namespace LingVoice.Lib.Ring

open List Nat

variable {α : Type}

theorem eq_of_mod_eq {cap start i j : Nat} (hi : start ≤ i) (hi' : i < start + cap) (hj : start ≤ j)
    (hj' : j < start + cap) (h : i % cap = j % cap) : i = j := by
  refine Nat.ModEq.eq_of_abs_lt h ?_
  rw [abs_lt]
  omega

/-- The cells hold `items` from `start` on. -/
structure Window (cells : List (Option α)) (cap start : Nat) (items : List α) : Prop where
  length : cells.length = cap
  cell : ∀ i, start ≤ i → i < start + cap → cells[i % cap]? = some items[i]?

theorem window_nil (cap : Nat) : Window (List.replicate cap (none : Option α)) cap 0 [] where
  length := length_replicate
  cell i _ hi := by
    rw [getElem?_replicate, if_pos (mod_lt i (by omega)), getElem?_nil]

section Window

variable {cells : List (Option α)} {cap start : Nat} {items : List α}

namespace Window

variable (h : Window cells cap start items)

include h

theorem write (hstart : start ≤ items.length) (hroom : items.length < start + cap) (item : α) :
    Window (cells.set (items.length % cap) (some item)) cap start (items ++ [item]) where
  length := by
    rw [length_set, h.length]
  cell i hi hi' := by
    by_cases hnext : i = items.length
    · have hlt : i % cap < cells.length := by
        rw [h.length]
        exact mod_lt i (by omega)
      rw [← hnext, getElem?_set_self hlt, hnext, getElem?_concat_length]
    · -- two positions of the window have the same cell only if they are equal
      have hcell : items.length % cap ≠ i % cap := by
        intro hmod
        exact hnext (eq_of_mod_eq hi hi' hstart hroom hmod.symm)
      rw [getElem?_set_ne hcell, h.cell i hi hi']
      rcases lt_or_gt_of_ne hnext with hlt | hgt
      · rw [getElem?_append_left hlt]
      · rw [getElem?_eq_none (by omega), getElem?_eq_none (by simp; omega)]

/-- The first item leaves its cell to the item that comes `cap` after it. -/
theorem take (hcap : 0 < cap) (hroom : items.length ≤ start + cap) :
    Window (cells.set (start % cap) none) cap (start + 1) items where
  length := by
    rw [length_set, h.length]
  cell i hi hi' := by
    by_cases hlast : i = start + cap
    · have hlt : start % cap < cells.length := by
        rw [h.length]
        exact mod_lt start hcap
      rw [hlast, add_mod_right, getElem?_set_self hlt, getElem?_eq_none hroom]
    · have hcell : start % cap ≠ i % cap := by
        intro hmod
        have heq : start = i := eq_of_mod_eq (le_refl start) (by omega) (by omega) (by omega) hmod
        omega
      rw [getElem?_set_ne hcell, h.cell i (by omega) (by omega)]

end Window

end Window

end LingVoice.Lib.Ring

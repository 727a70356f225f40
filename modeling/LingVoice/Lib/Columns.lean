import Mathlib.Data.List.Perm.Basic

/-!
# Columns — rows that are laid over each other

`overlay` adds a row of values to a row of accumulators, position by position; what a row is too short for is left as it
is.
-/

namespace LingVoice.Lib.Columns

open List

variable {α β γ : Type}

def overlay (add : α → β → α) : List α → List β → List α
  | a :: out, b :: row => add a b :: overlay add out row
  | out, _ => out

variable (add : α → β → α)

@[simp] theorem length_overlay (out : List α) (row : List β) : (overlay add out row).length = out.length := by
  fun_induction overlay add out row with
  | case1 a out b row ih => simp [ih]
  | case2 out row h => rfl

def column (rows : List (List β)) (i : Nat) : List β :=
  rows.filterMap (·[i]?)

theorem column_singleton (row : List β) (i : Nat) : column [row] i = row[i]?.toList := by
  unfold column
  cases h : row[i]? with
  | none | some b => simp [h]

theorem getElem?_overlay (out : List α) (row : List β) (i : Nat) :
    (overlay add out row)[i]? = out[i]?.map fun a => (column [row] i).foldl add a := by
  rw [column_singleton]
  fun_induction overlay add out row generalizing i with
  | case1 a out b row ih =>
    cases i with
    | zero => simp
    | succ i => simpa using ih i
  | case2 out row h =>
    cases out with
    | nil => simp
    | cons a out =>
      cases row with
      | nil => simp
      | cons b row => exact absurd rfl (h a out b row rfl)

theorem getElem?_foldl_overlay (rows : List (List β)) (out : List α) (i : Nat) :
    (rows.foldl (overlay add) out)[i]? = out[i]?.map fun a => (column rows i).foldl add a := by
  induction rows generalizing out with
  | nil => simp [column]
  | cons row rows ih =>
    have hcolumn : column (row :: rows) i = column [row] i ++ column rows i := by
      rw [column, ← singleton_append, filterMap_append]
      rfl
    rw [foldl_cons, ih, getElem?_overlay, Option.map_map, hcolumn]
    simp only [Function.comp_def, foldl_append]

/-- From a row of equal values on, every position holds the fold of its column. -/
theorem foldl_overlay_eq (rows : List (List β)) (n : Nat) (start : α) :
    rows.foldl (overlay add) (List.replicate n start) =
      (List.range n).map fun i => (column rows i).foldl add start := by
  apply ext_getElem?
  intro i
  rw [getElem?_foldl_overlay, getElem?_map]
  by_cases hi : i < n
  · simp [hi]
  · simp [hi]

/-- An order of the selected values comes from an order of all. -/
theorem exists_perm_of_perm_filterMap {f : β → Option γ} {values : List γ} {all : List β}
    (h : values.Perm (all.filterMap f)) : ∃ order : List β, order.Perm all ∧ order.filterMap f = values := by
  induction values generalizing all with
  | nil => exact ⟨all, .refl all, (nil_perm.1 h)⟩
  | cons value values ih =>
    obtain ⟨b, hb, hvalue⟩ := mem_filterMap.1 (h.subset (mem_cons_self ..))
    obtain ⟨front, back, rfl⟩ := append_of_mem hb
    -- `b` goes to the front, and the rest is an order of what is left
    have hmove : (front ++ b :: back).Perm (b :: (front ++ back)) := perm_middle
    have hrest : values.Perm ((front ++ back).filterMap f) := by
      have hcons := h.trans (hmove.filterMap f)
      rw [filterMap_cons_some hvalue] at hcons
      exact hcons.cons_inv
    obtain ⟨order, horder, hselected⟩ := ih hrest
    exact ⟨b :: order, (horder.cons b).trans hmove.symm, by rw [filterMap_cons_some hvalue, hselected]⟩

end LingVoice.Lib.Columns

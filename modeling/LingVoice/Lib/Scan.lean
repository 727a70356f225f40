import Mathlib.Data.List.Infix

/-!
# Scan — looking for a place in a list, and cutting a list into pieces

`firstSuffix p` goes along a list until what is left has `p`.  A scan passes over a front in which no place has
`p`, whatever stands behind it (`firstSuffix_append`).

`pieces sizes` cuts a list into consecutive pieces; every way to cut a list is one for some `sizes`.
-/

namespace LingVoice.Lib

open List

section Scan

variable {α : Type} (p : List α → Prop) [DecidablePred p]

/-- The longest suffix with `p`, the empty one left out. -/
def firstSuffix : List α → Option (List α)
  | [] => none
  | a :: rest => if p (a :: rest) then some (a :: rest) else firstSuffix rest

variable {p}

theorem firstSuffix_of_pos {a : α} {rest : List α} (h : p (a :: rest)) : firstSuffix p (a :: rest) = some (a :: rest) :=
  if_pos h

theorem firstSuffix_eq_some {xs s : List α} (h : firstSuffix p xs = some s) : s <:+ xs ∧ p s := by
  induction xs with
  | nil => cases h
  | cons a rest ih =>
    by_cases hp : p (a :: rest)
    · rw [firstSuffix_of_pos hp] at h
      cases h
      exact ⟨suffix_rfl, hp⟩
    · rw [firstSuffix, if_neg hp] at h
      exact ⟨(ih h).1.trans (suffix_cons a rest), (ih h).2⟩

theorem firstSuffix_append {front rest : List α} (h : ∀ u, u ≠ [] → u <:+ front → ¬ p (u ++ rest)) :
    firstSuffix p (front ++ rest) = firstSuffix p rest := by
  induction front with
  | nil => rfl
  | cons a front ih =>
    have hfirst : ¬ p (a :: (front ++ rest)) := h (a :: front) (cons_ne_nil a front) suffix_rfl
    rw [cons_append, firstSuffix, if_neg hfirst]
    apply ih
    intro u hne hsuffix
    exact h u hne (hsuffix.trans (suffix_cons a front))

/-- A scan stops in the front or goes on behind it. -/
theorem firstSuffix_append_cases (front rest : List α) :
    (∃ u, u ≠ [] ∧ u <:+ front ∧ p (u ++ rest) ∧ firstSuffix p (front ++ rest) = some (u ++ rest)) ∨
      firstSuffix p (front ++ rest) = firstSuffix p rest := by
  induction front with
  | nil => exact .inr rfl
  | cons a front ih =>
    by_cases hp : p (a :: (front ++ rest))
    · exact .inl ⟨a :: front, cons_ne_nil a front, suffix_rfl, hp, firstSuffix_of_pos hp⟩
    · rw [cons_append, firstSuffix, if_neg hp]
      rcases ih with ⟨u, hne, hsuffix, hu, hfind⟩ | hfind
      · exact .inl ⟨u, hne, hsuffix.trans (suffix_cons a front), hu, hfind⟩
      · exact .inr hfind

theorem firstSuffix_eq_none {xs : List α} (h : ∀ u, u ≠ [] → u <:+ xs → ¬ p u) : firstSuffix p xs = none := by
  have hscan : firstSuffix p (xs ++ []) = firstSuffix p [] := by
    apply firstSuffix_append
    intro u hne hsuffix
    rw [append_nil]
    exact h u hne hsuffix
  rw [append_nil] at hscan
  exact hscan

/-- A scan behind the first element stops at the rest, if there is one, and what is cut off there is the front. -/
theorem firstSuffix_cut (a : α) {front rest : List α} (hskip : firstSuffix p (front ++ rest) = firstSuffix p rest)
    (hrest : rest = [] ∨ p rest) :
    firstSuffix p (front ++ rest) = none ∧ rest = [] ∨
      firstSuffix p (front ++ rest) = some rest ∧
        (a :: (front ++ rest)).take ((a :: (front ++ rest)).length - rest.length) = a :: front := by
  rw [hskip, ← cons_append, length_append, Nat.add_sub_cancel, take_left]
  cases rest with
  | nil => exact .inl ⟨rfl, rfl⟩
  | cons b rest => exact .inr ⟨firstSuffix_of_pos (hrest.resolve_left (cons_ne_nil b rest)), rfl⟩

end Scan

section Pieces

variable {α β : Type}

/-- Pieces of the given sizes and what is left. -/
def pieces : List Nat → List α → List (List α)
  | [], xs => [xs]
  | n :: sizes, xs => xs.take n :: pieces sizes (xs.drop n)

/-- What is left of a list of encodings begins with one of them, or inside one. -/
theorem exists_drop_flatMap (encode : β → List α) (xs : List β) (n : Nat) :
    ∃ front ys, (xs.flatMap encode).drop n = front ++ ys.flatMap encode ∧ ys <:+ xs ∧
      (front = [] ∨ ∃ x ∈ xs, front <:+ (encode x).tail) := by
  induction xs generalizing n with
  | nil => exact ⟨[], [], by simp, suffix_rfl, .inl rfl⟩
  | cons x xs ih =>
    rw [flatMap_cons, drop_append]
    by_cases hlong : (encode x).length ≤ n
    · rcases ih (n - (encode x).length) with ⟨front, ys, hdrop, hsuffix, hfront⟩
      refine ⟨front, ys, ?_, hsuffix.trans (suffix_cons x xs), ?_⟩
      · rw [drop_of_length_le hlong, nil_append, hdrop]
      · rcases hfront with hnil | ⟨y, hmem, hy⟩
        · exact .inl hnil
        · exact .inr ⟨y, mem_cons_of_mem x hmem, hy⟩
    · have hzero : n - (encode x).length = 0 := Nat.sub_eq_zero_of_le (Nat.le_of_not_le hlong)
      rw [hzero, drop_zero]
      cases n with
      | zero => exact ⟨[], x :: xs, rfl, suffix_rfl, .inl rfl⟩
      | succ n =>
        refine ⟨(encode x).drop (n + 1), xs, rfl, suffix_cons x xs, .inr ⟨x, mem_cons_self, ?_⟩⟩
        rw [← drop_tail]
        exact drop_suffix n _

end Pieces

end LingVoice.Lib

import LingVoice.Lib.Scan
import Mathlib.Algebra.GroupWithZero.Nat

/-!
# Cuts — encodings one after the other, cut into pieces

`pieces` cuts a list of encodings without looking at where they begin and end.  `firstCuts` says which of them are cut,
and where each of these is cut first; what is left of it then stands in front of the next piece.  `Cutting` follows the
pieces: a property of all pieces is proved by induction on it, with no positions to reckon with (`cutting_pieces`).
-/

namespace LingVoice.Lib

open List Nat

/-! ## Positions -/

def cuts : List Nat → List Nat
  | [] => []
  | n :: sizes => n :: (cuts sizes).map (n + ·)

section Positions

variable {β : Type} (size : β → Nat) (cs : List Nat)

/-- The first of the cuts that is inside what stands from `start` on and is `len` long. -/
def firstInside (start len : Nat) : Option Nat :=
  cs.find? fun c => start < c ∧ c < start + len

/-- Those of `xs` that are cut, each with the place of its first cut. -/
def firstCuts : Nat → List β → List (β × Nat)
  | _, [] => []
  | start, x :: xs =>
    match firstInside cs start (size x) with
    | none => firstCuts (start + size x) xs
    | some c => (x, c - start) :: firstCuts (start + size x) xs

variable {size cs}

theorem firstCuts_of_no_cuts (start : Nat) (xs : List β) : firstCuts size [] start xs = [] := by
  induction xs generalizing start with
  | nil => rfl
  | cons x xs ih => exact ih (start + size x)

theorem firstCuts_map {γ : Type} (f : γ → β) (start : Nat) (ys : List γ) :
    firstCuts size cs start (ys.map f) = (firstCuts (fun y => size (f y)) cs start ys).map fun c => (f c.1, c.2) := by
  induction ys generalizing start with
  | nil => rfl
  | cons y ys ih =>
    rw [map_cons, firstCuts, firstCuts, ih]
    cases firstInside cs start (size (f y)) with
    | none | some c => rfl

variable {n start : Nat} {front : List β}

theorem firstInside_shift (h : n ≤ start) (len : Nat) :
    firstInside (n :: cs.map (n + ·)) start len = (firstInside cs (start - n) len).map (n + ·) := by
  have hsame : ((fun c => decide (start < c ∧ c < start + len)) ∘ (n + ·)) =
      fun c => decide (start - n < c ∧ c < start - n + len) := by
    funext c
    simp only [Function.comp_apply, decide_eq_decide]
    omega
  rw [firstInside, find?_cons_of_neg (by simp only [decide_eq_true_eq]; omega), find?_map, hsame, firstInside]

theorem firstCuts_shift (h : n ≤ start) (xs : List β) :
    firstCuts size (n :: cs.map (n + ·)) start xs = firstCuts size cs (start - n) xs := by
  induction xs generalizing start with
  | nil => rfl
  | cons x xs ih =>
    have hrest := ih (le_trans h (le_add_right start (size x)))
    rw [Nat.sub_add_comm h] at hrest
    rw [firstCuts, firstCuts, firstInside_shift h]
    cases firstInside cs (start - n) (size x) with
    | none => exact hrest
    | some c =>
      have hplace : n + c - start = c - (start - n) := by omega
      simp only [Option.map_some, hplace, hrest]

theorem firstInside_eq_none {len : Nat} (h : start + len ≤ n) : firstInside (n :: cs.map (n + ·)) start len = none := by
  rw [firstInside, find?_eq_none]
  intro c hc
  have hle : n ≤ c := by
    rcases mem_cons.1 hc with rfl | hmem
    · exact le_refl c
    · obtain ⟨d, -, rfl⟩ := mem_map.1 hmem
      exact le_add_right n d
  simp only [decide_eq_true_eq]
  omega

theorem firstCuts_append (h : start + (front.map size).sum ≤ n) (back : List β) :
    firstCuts size (n :: cs.map (n + ·)) start (front ++ back) =
      firstCuts size (n :: cs.map (n + ·)) (start + (front.map size).sum) back := by
  induction front generalizing start with
  | nil => rfl
  | cons x front ih =>
    rw [map_cons, sum_cons, ← Nat.add_assoc] at h ⊢
    have hnone : firstInside (n :: cs.map (n + ·)) start (size x) = none := by
      apply firstInside_eq_none
      exact le_trans (le_add_right _ _) h
    rw [cons_append, firstCuts, hnone]
    exact ih h

theorem firstCuts_inside {o : Nat} {x : β} (hn : n = start + (front.map size).sum + o)
    (hpos : 0 < o) (ho : o < size x) (back : List β) :
    firstCuts size (n :: cs.map (n + ·)) start (front ++ x :: back) =
      (x, o) :: firstCuts size cs (size x - o) back := by
  rw [firstCuts_append (hn ▸ le_add_right _ _)]
  generalize start + (front.map size).sum = start at hn
  have hinside : firstInside (n :: cs.map (n + ·)) start (size x) = some n := by
    apply find?_cons_of_pos
    simp only [decide_eq_true_eq]
    omega
  have hplace : n - start = o := by omega
  have hleft : start + size x - n = size x - o := by omega
  have hle : n ≤ start + size x := by omega
  rw [firstCuts, hinside]
  simp only [hplace, firstCuts_shift hle, hleft]

end Positions

/-! ## Pieces -/

section Cutting

variable {α β : Type} (encode : β → List α)

/-- The pieces of `junk` and the encodings of a list, and the elements of the list that are cut.  `junk` is what is left
of an encoding that was cut before. -/
inductive Cutting : List (List α) → List α → List β → List (β × Nat) → Prop
  | last (junk : List α) (xs : List β) : Cutting [junk ++ xs.flatMap encode] junk xs []
  | within {rest : List (List α)} {junk : List α} {xs : List β} {cut : List (β × Nat)} (front : List α) :
      Cutting rest junk xs cut → Cutting (front :: rest) (front ++ junk) xs cut
  | between {rest : List (List α)} {back : List β} {cut : List (β × Nat)} (junk : List α) (front : List β) :
      Cutting rest [] back cut → Cutting ((junk ++ front.flatMap encode) :: rest) junk (front ++ back) cut
  | inside {rest : List (List α)} {back : List β} {cut : List (β × Nat)} (junk : List α) (front : List β) (x : β)
      {o : Nat} (pos : 0 < o) (lt : o < (encode x).length) :
      Cutting rest ((encode x).drop o) back cut →
        Cutting ((junk ++ (front.flatMap encode ++ (encode x).take o)) :: rest) junk (front ++ x :: back)
          ((x, o) :: cut)

/-- Where a cut falls: between two elements, behind all of them, or inside one. -/
theorem exists_split (xs : List β) (n : Nat) :
    (∃ front back, xs = front ++ back ∧ (front.flatMap encode).length ≤ n ∧
      (back = [] ∨ n = (front.flatMap encode).length)) ∨
    ∃ front x back o, xs = front ++ x :: back ∧ n = (front.flatMap encode).length + o ∧ 0 < o ∧
      o < (encode x).length := by
  induction xs generalizing n with
  | nil => exact .inl ⟨[], [], rfl, zero_le n, .inl rfl⟩
  | cons x xs ih =>
    by_cases hzero : n = 0
    · exact .inl ⟨[], x :: xs, rfl, zero_le n, .inr hzero⟩
    by_cases hlt : n < (encode x).length
    · refine .inr ⟨[], x, xs, n, rfl, ?_, Nat.pos_of_ne_zero hzero, hlt⟩
      exact (Nat.zero_add n).symm
    rcases ih (n - (encode x).length) with ⟨front, back, rfl, hle, hback⟩ | ⟨front, y, back, o, rfl, hn, hpos, ho⟩
    · refine .inl ⟨x :: front, back, rfl, ?_⟩
      rw [flatMap_cons, length_append]
      refine ⟨by omega, hback.imp_right ?_⟩
      intro hn
      omega
    · refine .inr ⟨x :: front, y, back, o, rfl, ?_, hpos, ho⟩
      rw [flatMap_cons, length_append]
      omega

variable {encode}

/-- The pieces of every list of sizes, and the elements these sizes cut. -/
theorem cutting_pieces (sizes : List Nat) (junk : List α) (xs : List β) :
    Cutting encode (pieces sizes (junk ++ xs.flatMap encode)) junk xs
      (firstCuts (fun x => (encode x).length) (cuts sizes) junk.length xs) := by
  induction sizes generalizing junk xs with
  | nil =>
    rw [pieces, cuts, firstCuts_of_no_cuts]
    exact .last junk xs
  | cons n sizes ih =>
    rw [pieces, cuts]
    rcases le_total n junk.length with hjunk | hjunk
    · have hcut := (ih (junk.drop n) xs).within (junk.take n)
      rw [take_append_drop, length_drop] at hcut
      rw [take_append_of_le_length hjunk, drop_append_of_le_length hjunk, firstCuts_shift hjunk]
      exact hcut
    obtain ⟨m, hm⟩ := Nat.exists_eq_add_of_le hjunk
    have hsum (front : List β) : (front.map fun x => (encode x).length).sum = (front.flatMap encode).length :=
      length_flatMap.symm
    have hpiece (front : List β) (rest : List α) {k : Nat} (hk : m = (front.flatMap encode).length + k) :
        (junk ++ (front.flatMap encode ++ rest)).take n = junk ++ (front.flatMap encode ++ rest.take k) ∧
        (junk ++ (front.flatMap encode ++ rest)).drop n = rest.drop k := by
      rw [hm, hk, take_length_add_append, take_length_add_append, drop_length_add_append, drop_length_add_append]
      exact ⟨rfl, rfl⟩
    rcases exists_split encode xs m with ⟨front, back, rfl, hle, hback⟩ | ⟨front, x, back, o, rfl, ho, hpos, hlt⟩
    · have hcut := (ih [] back).between junk front
      obtain ⟨k, hk⟩ := Nat.exists_eq_add_of_le hle
      have hrest : (back.flatMap encode).take k = [] ∧ (back.flatMap encode).drop k = back.flatMap encode := by
        rcases hback with rfl | hzero
        · exact ⟨take_nil, drop_nil⟩
        · obtain rfl : k = 0 := by
            omega
          exact ⟨take_zero, drop_zero⟩
      rw [flatMap_append, (hpiece front _ hk).1, (hpiece front _ hk).2, hrest.1, hrest.2, append_nil,
        firstCuts_append (by rw [hsum]; omega)]
      rcases hback with rfl | hzero
      · exact hcut
      · rw [show junk.length + _ = n by rw [hsum]; omega, firstCuts_shift (Nat.le_refl n), Nat.sub_self]
        exact hcut
    · have hcut := (ih ((encode x).drop o) back).inside junk front x hpos hlt
      have hn : n = junk.length + (front.map fun x => (encode x).length).sum + o := by
        rw [hsum]
        omega
      rw [length_drop] at hcut
      rw [flatMap_append, flatMap_cons, (hpiece front _ ho).1, (hpiece front _ ho).2,
        take_append_of_le_length (le_of_lt hlt), drop_append_of_le_length (le_of_lt hlt),
        firstCuts_inside hn hpos hlt]
      exact hcut

end Cutting

end LingVoice.Lib

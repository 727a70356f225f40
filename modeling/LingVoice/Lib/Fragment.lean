import LingVoice.Lib.Mealy

/-!
# Fragment — cutting a byte string into numbered pieces and putting it together again

`fragments` is the loop of a packetizer: from an offset on, pieces of at most `max` elements, each
with the marks of the first and the last one.  `run_fragments` is the rule for the machine on the
other side: when it appends every inner piece to what it holds and finishes at the last one, it
ends with the whole string.
-/

namespace LingVoice.Lib

open List
open Mealy (run run_nil run_cons)

structure Fragment (α : Type) where
  isFirst : Bool
  isLast : Bool
  chunk : List α
  deriving DecidableEq, Repr

theorem take_drop_append_drop {α : Type} {i j : Nat} (h : i ≤ j) (data : List α) :
    (data.take j).drop i ++ data.drop j = data.drop i := by
  have hrest : data.drop j = (data.drop i).drop (j - i) := by
    rw [drop_drop, Nat.add_sub_cancel' h]
  rw [drop_take, hrest, take_append_drop]

section Chunks

variable {α : Type}

/-- The loop of `chunks`: pieces of `size` elements, the last one with what is left. -/
def chunksLoop (size : Nat) : Nat → List α → List (List α)
  | 0, _ => []
  | _ + 1, [] => []
  | fuel + 1, a :: data => (a :: data).take size :: chunksLoop size fuel ((a :: data).drop size)

def chunks (size : Nat) (data : List α) : List (List α) :=
  chunksLoop size data.length data

variable {size fuel : Nat} {data piece : List α}

theorem chunksLoop_flatten (hsize : 0 < size) (hfuel : data.length ≤ fuel) :
    (chunksLoop size fuel data).flatten = data := by
  induction fuel generalizing data with
  | zero =>
    rw [length_eq_zero_iff.1 (Nat.le_zero.1 hfuel)]
    rfl
  | succ fuel ih =>
    cases data with
    | nil => rfl
    | cons a data =>
      rw [chunksLoop, flatten_cons, ih, take_append_drop]
      rw [length_drop]
      omega

theorem flatten_chunks (hsize : 0 < size) (data : List α) : (chunks size data).flatten = data :=
  chunksLoop_flatten hsize (Nat.le_refl _)

/-- Only the last piece may be short. -/
theorem length_of_mem_dropLast_chunksLoop (h : piece ∈ (chunksLoop size fuel data).dropLast) : piece.length = size := by
  induction fuel generalizing data with
  | zero => cases h
  | succ fuel ih =>
    cases data with
    | nil => cases h
    | cons a data =>
      rw [chunksLoop] at h
      cases hrest : chunksLoop size fuel ((a :: data).drop size) with
      | nil =>
        rw [hrest] at h
        cases h
      | cons next rest =>
        rw [hrest, dropLast_cons_cons, ← hrest] at h
        rcases mem_cons.1 h with rfl | hmem
        · -- something is left behind the piece
          have hmore : (a :: data).drop size ≠ [] := by
            intro hnil
            rw [hnil] at hrest
            cases fuel <;> cases hrest
          rw [length_take]
          apply Nat.min_eq_left
          by_contra hshort
          exact hmore (drop_eq_nil_of_le (Nat.le_of_not_le hshort))
        · exact ih hmem

theorem length_le_of_mem_chunksLoop (h : piece ∈ chunksLoop size fuel data) : piece.length ≤ size := by
  induction fuel generalizing data with
  | zero => cases h
  | succ fuel ih =>
    cases data with
    | nil => cases h
    | cons a data =>
      rcases mem_cons.1 h with rfl | hmem
      · exact length_take_le size (a :: data)
      · exact ih hmem

/-- A string that is longer than a piece: the first piece, and more pieces of the rest. -/
theorem exists_chunks (hsize : 0 < size) (h : size < data.length) :
    ∃ rest, chunks size data = data.take size :: rest ∧ rest ≠ [] ∧ rest.flatten = data.drop size ∧
      ∀ piece ∈ rest.dropLast, piece.length = size := by
  cases data with
  | nil => cases h
  | cons a data =>
    have hflatten : (chunksLoop size data.length ((a :: data).drop size)).flatten = (a :: data).drop size := by
      apply chunksLoop_flatten hsize
      rw [length_drop, length_cons]
      omega
    refine ⟨chunksLoop size data.length ((a :: data).drop size), rfl, ?_, hflatten, ?_⟩
    · intro hnil
      rw [hnil] at hflatten
      have hlength := congrArg List.length hflatten
      rw [length_drop] at hlength
      simp only [flatten_nil, length_nil] at hlength
      omega
    · intro piece hpiece
      exact length_of_mem_dropLast_chunksLoop hpiece

end Chunks

section Loop

variable {α : Type}

/-- The pieces of `data` from `offset` on; the one at `start` is the first. -/
def fragments (max start : Nat) (data : List α) : Nat → Nat → List (Fragment α)
  | 0, _ => []
  | fuel + 1, offset =>
    if offset < data.length then
      let stop := min (offset + max) data.length
      { isFirst := offset == start
        isLast := stop == data.length
        chunk := (data.take stop).drop offset } :: fragments max start data fuel stop
    else
      []

variable {max start fuel offset : Nat} {data : List α}

/-- One turn before the end: a full piece, and the loop goes on behind it. -/
theorem fragments_inner (h : offset + max < data.length) :
    fragments max start data (fuel + 1) offset =
      { isFirst := offset == start
        isLast := false
        chunk := (data.take (offset + max)).drop offset } :: fragments max start data fuel (offset + max) := by
  have hstop : min (offset + max) data.length = offset + max := by omega
  have hlast : (offset + max == data.length) = false := by
    rw [beq_eq_false_iff_ne]
    omega
  rw [fragments, if_pos (by omega)]
  simp only [hstop, hlast]

/-- The last turn: what is left is one piece. -/
theorem fragments_last (hlt : offset < data.length) (h : data.length ≤ offset + max) :
    fragments max start data (fuel + 1) offset =
      [{ isFirst := offset == start, isLast := true, chunk := data.drop offset }] := by
  have hstop : min (offset + max) data.length = data.length := by omega
  have hnil : fragments max start data fuel data.length = [] := by
    cases fuel with
    | zero => rfl
    | succ fuel => rw [fragments, if_neg (Nat.lt_irrefl _)]
  rw [fragments, if_pos hlt]
  simp only [hstop, beq_self_eq_true, take_length, hnil]

/-- A string that fits in one piece. -/
theorem fragments_whole (hne : data ≠ []) (h : data.length ≤ max) :
    fragments max 0 data data.length 0 = [{ isFirst := true, isLast := true, chunk := data }] := by
  cases data with
  | nil => exact absurd rfl hne
  | cons a data => exact fragments_last (Nat.zero_lt_succ _) (by omega)

theorem chunk_of_mem {fragment : Fragment α} (h : fragment ∈ fragments max start data fuel offset) :
    fragment.chunk.length ≤ max ∧ (0 < max → fragment.chunk ≠ []) := by
  induction fuel generalizing offset with
  | zero => simp [fragments] at h
  | succ fuel ih =>
    rw [fragments] at h
    split at h
    · rcases mem_cons.mp h with rfl | h
      · rw [Ne, drop_eq_nil_iff, length_drop, length_take]
        omega
      · exact ih h
    · simp at h

end Loop

section Reassembly

variable {α σ ι ο : Type}

/-- The machine `step` rebuilds strings from pieces.  `number n` makes the input of the piece at place
`n` of the stream, `Ready n s` says that `s` can begin there, `Holds n held s` that it has `held` and
expects place `n`, `Done n held s` that it has just finished. -/
structure Reassembles (step : σ → ι → σ × ο) (number : Nat → Fragment α → ι)
    (Ready : Nat → σ → Prop) (Holds Done : Nat → List α → σ → Prop) (more : ο) (done : List α → ο) :
    Prop where
  first : ∀ n s chunk, chunk ≠ [] → Ready n s →
    (step s (number n ⟨true, false, chunk⟩)).2 = more ∧
      Holds (n + 1) chunk (step s (number n ⟨true, false, chunk⟩)).1
  whole : ∀ n s chunk, chunk ≠ [] → Ready n s →
    (step s (number n ⟨true, true, chunk⟩)).2 = done chunk ∧
      Done (n + 1) chunk (step s (number n ⟨true, true, chunk⟩)).1
  inner : ∀ n held s chunk, chunk ≠ [] → Holds n held s →
    (step s (number n ⟨false, false, chunk⟩)).2 = more ∧
      Holds (n + 1) (held ++ chunk) (step s (number n ⟨false, false, chunk⟩)).1
  last : ∀ n held s chunk, chunk ≠ [] → Holds n held s →
    (step s (number n ⟨false, true, chunk⟩)).2 = done (held ++ chunk) ∧
      Done (n + 1) (held ++ chunk) (step s (number n ⟨false, true, chunk⟩)).1

/-- The answers to a string sent in `count` pieces: `more` until the last one. -/
def answers (more done : ο) (count : Nat) : List ο :=
  List.replicate (count - 1) more ++ [done]

/-- Two strings of which only the second one is answered by `done`. -/
theorem answers_append_answers (more done : ο) {a b : Nat} (ha : 0 < a) (hb : 0 < b) :
    answers more more a ++ answers more done b = answers more done (a + b) := by
  have hfirst : answers more more a = List.replicate a more := by
    rw [answers, ← replicate_succ', Nat.sub_add_cancel ha]
  rw [hfirst, answers, answers, ← append_assoc, replicate_append_replicate]
  congr 2
  omega

namespace Reassembles

variable {step : σ → ι → σ × ο} {number : Nat → Fragment α → ι} {Ready : Nat → σ → Prop}
  {Holds Done : Nat → List α → σ → Prop} {more : ο} {done : List α → ο} {max start : Nat}
  {data : List α}

/-- Before the first piece nothing is held. -/
def Before (Ready : Nat → σ → Prop) (Holds : Nat → List α → σ → Prop) (isFirst : Bool) (n : Nat) (held : List α)
    (s : σ) : Prop :=
  if isFirst then Ready n s ∧ held = [] else Holds n held s

variable {isFirst : Bool} {n : Nat} {held chunk : List α} {s : σ}

variable (h : Reassembles step number Ready Holds Done more done)

include h

theorem step_more (hne : chunk ≠ []) (hs : Before Ready Holds isFirst n held s) :
    (step s (number n ⟨isFirst, false, chunk⟩)).2 = more ∧
      Holds (n + 1) (held ++ chunk) (step s (number n ⟨isFirst, false, chunk⟩)).1 := by
  cases isFirst with
  | false => exact h.inner n held s chunk hne hs
  | true =>
    obtain ⟨hready, rfl⟩ := hs
    exact h.first n s chunk hne hready

theorem step_last (hne : chunk ≠ []) (hs : Before Ready Holds isFirst n held s) :
    (step s (number n ⟨isFirst, true, chunk⟩)).2 = done (held ++ chunk) ∧
      Done (n + 1) (held ++ chunk) (step s (number n ⟨isFirst, true, chunk⟩)).1 := by
  cases isFirst with
  | false => exact h.last n held s chunk hne hs
  | true =>
    obtain ⟨hready, rfl⟩ := hs
    exact h.whole n s chunk hne hready

theorem run_from (hmax : 0 < max) (fuel offset : Nat) (hfuel : data.length ≤ fuel + offset) (hstart : start ≤ offset)
    (hoffset : offset < data.length) (n : Nat) (held : List α) (s : σ)
    (hs : Before Ready Holds (offset == start) n held s) :
    let pieces := fragments max start data fuel offset
    let result := run step s ((pieces.zipIdx n).map fun p => number p.2 p.1)
    0 < pieces.length ∧ result.2 = answers more (done (held ++ data.drop offset)) pieces.length ∧
      Done (n + pieces.length) (held ++ data.drop offset) result.1 := by
  intro pieces result
  induction fuel generalizing offset n held s with
  | zero => omega
  | succ fuel ih =>
    by_cases hend : data.length ≤ offset + max
    · have hne : data.drop offset ≠ [] := by
        simpa using hoffset
      obtain ⟨hout, hdone⟩ := h.step_last hne hs
      simp only [result, pieces, fragments_last hoffset hend]
      exact ⟨by simp, by simpa [answers] using hout, by simpa using hdone⟩
    · -- a piece before the last: the hypothesis takes over behind it
      have hinside : offset + max < data.length := by omega
      have hne : (data.take (offset + max)).drop offset ≠ [] := by
        rw [Ne, drop_eq_nil_iff, length_take]
        omega
      have hlater : (offset + max == start) = false := by
        rw [beq_eq_false_iff_ne]
        omega
      obtain ⟨hout, hholds⟩ := h.step_more hne hs
      obtain ⟨hpos, houts, hdone⟩ := ih (offset + max) (by omega) (by omega) hinside (n + 1) _ _
        (by rw [hlater]; exact hholds)
      simp only [append_assoc, take_drop_append_drop (Nat.le_add_right offset max)] at houts hdone
      simp only [result, pieces, fragments_inner hinside, zipIdx_cons, map_cons, run_cons, length_cons, houts, hout]
      refine ⟨by omega, ?_, ?_⟩
      · rw [answers, answers, ← cons_append, ← replicate_succ, Nat.sub_add_cancel hpos, Nat.add_sub_cancel]
      rw [Nat.add_comm _ 1, ← Nat.add_assoc]
      exact hdone

/-- A whole string, from its first piece to its last. -/
theorem run_fragments (hmax : 0 < max) (hstart : start < data.length) (n : Nat) (s : σ) (hs : Ready n s) :
    let pieces := fragments max start data data.length start
    let result := run step s ((pieces.zipIdx n).map fun p => number p.2 p.1)
    0 < pieces.length ∧ result.2 = answers more (done (data.drop start)) pieces.length ∧
      Done (n + pieces.length) (data.drop start) result.1 := by
  have hbefore : Before Ready Holds (start == start) n [] s := by
    rw [beq_self_eq_true]
    exact ⟨hs, rfl⟩
  exact h.run_from hmax data.length start (Nat.le_add_right _ _) (Nat.le_refl _) hstart n [] s hbefore

end Reassembles

end Reassembly

end LingVoice.Lib

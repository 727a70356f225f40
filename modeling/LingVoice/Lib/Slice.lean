import LingVoice.Lib.Bytes
import Mathlib.Data.List.TakeDrop

/-!
# Slice — index and slice expressions with their run-time checks

A Go expression `xs[i]` or `xs[lo:hi]` ends the program when it is out of range.  Here it returns a
`Fault` instead, and so does a loop that has not ended after the turns it was given, so that
`Except Fault` is the type of a computation that may panic or hang.
-/

namespace LingVoice.Lib

open List

inductive Fault
  | indexOutOfRange
  | sliceBoundsOutOfRange
  /-- The loop has not ended within its turns. -/
  | outOfFuel
  deriving DecidableEq, Repr

namespace Slice

variable {α : Type}

/-- `xs[i]` -/
def index (xs : List α) (i : Nat) : Except Fault α :=
  match xs[i]? with
  | some x => .ok x
  | none => .error .indexOutOfRange

/-- `xs[lo:hi]`; the upper bound may come out of a subtraction. -/
def slice (xs : List α) (lo : Nat) (hi : Int) : Except Fault (List α) :=
  if (lo : Int) ≤ hi ∧ hi ≤ xs.length then
    .ok ((xs.take hi.toNat).drop lo)
  else
    .error .sliceBoundsOutOfRange

theorem index_eq_ok {xs : List α} {i : Nat} (h : i < xs.length) (default : α) :
    index xs i = .ok (xs.getD i default) := by
  simp [index, h]

theorem slice_eq_ok {xs : List α} {lo hi : Nat} (hlo : lo ≤ hi) (hhi : hi ≤ xs.length) :
    slice xs lo hi = .ok ((xs.take hi).drop lo) := by
  have hbounds : (lo : Int) ≤ hi ∧ (hi : Int) ≤ xs.length := by omega
  rw [slice, if_pos hbounds, Int.toNat_natCast]

theorem slice_to_end {xs : List α} {lo : Nat} (hlo : lo ≤ xs.length) : slice xs lo xs.length = .ok (xs.drop lo) := by
  rw [slice_eq_ok hlo (Nat.le_refl _), take_length]

theorem index_length (front rest : List α) (x : α) : index (front ++ x :: rest) front.length = .ok x := by
  simp [index]

theorem slice_middle (front middle rest : List α) :
    slice (front ++ (middle ++ rest)) front.length (front.length + middle.length : Nat) = .ok middle := by
  have hhi : front.length + middle.length ≤ (front ++ (middle ++ rest)).length := by
    rw [length_append, length_append]
    omega
  rw [slice_eq_ok (Nat.le_add_right _ _) hhi, ← append_assoc, take_left' length_append, drop_left]

theorem slice_eq_error {xs : List α} {lo : Nat} {hi : Int} (h : hi < lo) :
    slice xs lo hi = .error .sliceBoundsOutOfRange := by
  have hbounds : ¬ ((lo : Int) ≤ hi ∧ hi ≤ xs.length) := by omega
  rw [slice, if_neg hbounds]

/-- `if len(xs) > n { xs = xs[len(xs)-n:] }` -/
def keepLast (xs : List α) (n : Int) : Except Fault (List α) :=
  if n < xs.length then slice xs ((xs.length : Int) - n).toNat xs.length else .ok xs

theorem keepLast_concat {xs : List α} {n : Int} (h : xs.length + 1 ≤ n) (x : α) :
    keepLast (xs ++ [x]) n = .ok (xs ++ [x]) := by
  rw [keepLast, length_append, length_singleton, if_neg (by omega)]

/-- What is kept is the end of the slice, and not more than asked for. -/
theorem keepLast_eq_ok {xs ys : List α} {n : Int} (h : keepLast xs n = .ok ys) :
    ∃ k, ys = xs.drop k ∧ (ys.length : Int) ≤ n := by
  unfold keepLast at h
  split at h
  · rename_i hlt
    by_cases hneg : n < 0
    · unfold slice at h
      rw [if_neg (by omega)] at h
      cases h
    · rw [slice_to_end (by omega)] at h
      obtain rfl := Except.ok.inj h
      refine ⟨_, rfl, ?_⟩
      rw [length_drop]
      omega
  · obtain rfl := Except.ok.inj h
    exact ⟨0, rfl, by omega⟩

def uint16 (b0 b1 : UInt8) : UInt16 :=
  b1.toUInt16 ||| b0.toUInt16 <<< 8

/-- `binary.BigEndian.Uint16` -/
def bigEndianUint16 (b : Bytes) : Except Fault UInt16 := do
  let b1 ← index b 1
  let b0 ← index b 0
  return uint16 b0 b1

/-- `binary.BigEndian.Uint16(xs[i:i+2])` -/
def uint16At (xs : Bytes) (i : Nat) : Except Fault UInt16 := do
  let b ← slice xs i (i + 2 : Nat)
  bigEndianUint16 b

theorem drop_eq_getD_cons {xs : Bytes} {i : Nat} (h : i < xs.length) :
    xs.drop i = xs.getD i 0 :: xs.drop (i + 1) := by
  rw [drop_eq_getElem_cons h, getD_eq_getElem?_getD, getElem?_eq_getElem h]
  rfl

theorem uint16At_eq_ok {xs : Bytes} {i : Nat} (h : i + 2 ≤ xs.length) :
    uint16At xs i = .ok (uint16 (xs.getD i 0) (xs.getD (i + 1) 0)) := by
  have hpair : (xs.take (i + 2)).drop i = [xs.getD i 0, xs.getD (i + 1) 0] := by
    rw [drop_take, Nat.add_sub_cancel_left, drop_eq_getD_cons (by omega), drop_eq_getD_cons (by omega)]
    rfl
  rw [uint16At, slice_eq_ok (Nat.le_add_right i 2) h, hpair]
  rfl

end Slice

/-! ## Computations that succeed under a condition -/

/-- `x` returns a value with `post` when `ok` holds and ends with `fault` when it does not. -/
structure Settles {ε α : Type} (x : Except ε α) (fault : ε) (ok : Prop) (post : α → Prop) : Prop where
  returns : ok → ∃ a, x = .ok a ∧ post a
  faults : ¬ ok → x = .error fault

namespace Settles

variable {ε α β : Type} {x : Except ε α} {fault : ε} {ok : Prop} {post : α → Prop}

theorem of_ok {a : α} (h : x = .ok a) (hok : ok) (hpost : post a) : Settles x fault ok post := by
  refine ⟨?_, ?_⟩
  · intro _
    exact ⟨a, h, hpost⟩
  · intro hnot
    exact absurd hok hnot

theorem of_error (h : x = .error fault) (hnot : ¬ ok) : Settles x fault ok post := by
  refine ⟨?_, ?_⟩
  · intro hok
    exact absurd hok hnot
  · intro _
    exact h

variable (hx : Settles x fault ok post)

include hx

/-- A sequence succeeds when its first part does and the second does after it. -/
theorem bind {f : α → Except ε β} {ok' : Prop} {post' : β → Prop}
    (hf : ∀ a, post a → Settles (f a) fault ok' post') : Settles (x >>= f) fault (ok ∧ ok') post' := by
  by_cases hok : ok
  · rcases hx.returns hok with ⟨a, hxa, hpost⟩
    have hfa := hf a hpost
    subst hxa
    refine ⟨?_, ?_⟩
    · intro h
      exact hfa.returns h.2
    · intro hnot
      exact hfa.faults (fun hok' => hnot ⟨hok, hok'⟩)
  · have herror := hx.faults hok
    subst herror
    exact of_error rfl (fun h => hok h.1)

theorem congr {ok' : Prop} (h : ok ↔ ok') : Settles x fault ok' post := by
  rw [propext h] at hx
  exact hx

theorem returns_iff : (∃ a, x = .ok a) ↔ ok := by
  constructor
  · rintro ⟨a, ha⟩
    by_contra hnot
    rw [hx.faults hnot] at ha
    exact nomatch ha
  · intro hok
    rcases hx.returns hok with ⟨a, ha, _⟩
    exact ⟨a, ha⟩

end Settles

end LingVoice.Lib

import LingVoice.Lib.Mealy

/-!
# Stream — a machine that is fed a stream in pieces

`take` takes one item off the front of a buffer, or nothing when the buffer does not hold a whole one.  `drain` gives
every item to `handle` as long as there are items, and `push` does this after new data have come to the buffer.

When an item does not depend on what comes after it (`Prompt`), it does not matter how the stream is cut.
-/

namespace LingVoice.Lib.Stream

open List

variable {β α σ ο : Type}

/-- Items are taken off the front, and what comes later changes nothing about them. -/
structure Prompt (take : List β → Option (α × List β)) : Prop where
  shrinks : ∀ buffer a rest, take buffer = some (a, rest) → rest.length < buffer.length
  keeps : ∀ buffer a rest more, take buffer = some (a, rest) → take (buffer ++ more) = some (a, rest ++ more)

section Machine

variable (take : List β → Option (α × List β)) (handle : σ → α → σ × List ο)

/-- The state and the buffer after all items, and what they gave. -/
def drain : Nat → σ → List β → (σ × List β) × List ο
  | 0, s, buffer => ((s, buffer), [])
  | fuel + 1, s, buffer =>
    match take buffer with
    | none => ((s, buffer), [])
    | some (a, rest) =>
      ((drain fuel (handle s a).1 rest).1, (handle s a).2 ++ (drain fuel (handle s a).1 rest).2)

def push (st : σ × List β) (data : List β) : (σ × List β) × List ο :=
  drain take handle (st.2 ++ data).length st.1 (st.2 ++ data)

end Machine

variable {take : List β → Option (α × List β)} {handle : σ → α → σ × List ο}

theorem drain_of_none {buffer : List β} (h : take buffer = none) (fuel : Nat) (s : σ) :
    drain take handle fuel s buffer = ((s, buffer), []) := by
  cases fuel with
  | zero => rfl
  | succ fuel => rw [drain, h]

theorem drain_of_some {buffer rest : List β} {a : α} (h : take buffer = some (a, rest)) (fuel : Nat) (s : σ) :
    drain take handle (fuel + 1) s buffer =
      ((drain take handle fuel (handle s a).1 rest).1,
        (handle s a).2 ++ (drain take handle fuel (handle s a).1 rest).2) := by
  rw [drain, h]

variable (htake : Prompt take)

include htake

/-- More turns than there are elements change nothing. -/
theorem drain_fuel {m n : Nat} (s : σ) {buffer : List β} (hm : buffer.length ≤ m)
    (hn : buffer.length ≤ n) : drain take handle m s buffer = drain take handle n s buffer := by
  induction m generalizing n s buffer with
  | zero =>
    obtain rfl : buffer = [] := length_eq_zero_iff.1 (Nat.le_zero.1 hm)
    cases hnext : take [] with
    | none => rw [drain_of_none hnext, drain_of_none hnext]
    | some item => exact absurd (htake.shrinks _ _ _ hnext) (Nat.not_lt_zero _)
  | succ m ih =>
    cases hnext : take buffer with
    | none => rw [drain_of_none hnext, drain_of_none hnext]
    | some item =>
      have hlt := htake.shrinks _ _ _ hnext
      cases n with
      | zero => exact absurd hlt (by omega)
      | succ n =>
        rw [drain_of_some hnext, drain_of_some hnext]
        rw [@ih n (handle s item.1).1 item.2 (by omega) (by omega)]

theorem drain_append (s : σ) (buffer more : List β) {n k : Nat} (hn : buffer.length ≤ n)
    (hk : (buffer ++ more).length ≤ k) :
    drain take handle k s (buffer ++ more) =
      ((push take handle (drain take handle n s buffer).1 more).1,
        (drain take handle n s buffer).2 ++ (push take handle (drain take handle n s buffer).1 more).2) := by
  induction n generalizing s buffer k with
  | zero =>
    obtain rfl : buffer = [] := length_eq_zero_iff.1 (Nat.le_zero.1 hn)
    exact drain_fuel htake s hk (Nat.le_refl _)
  | succ n ih =>
    cases hnext : take buffer with
    | none =>
      rw [drain_of_none hnext]
      exact drain_fuel htake s hk (Nat.le_refl _)
    | some item =>
      have hlt := htake.shrinks _ _ _ hnext
      have hmore := htake.keeps _ _ _ more hnext
      cases k with
      | zero =>
        rw [length_append] at hk
        omega
      | succ k =>
        have hrest : (item.2 ++ more).length ≤ k := by
          rw [length_append] at hk ⊢
          omega
        rw [drain_of_some hmore, drain_of_some hnext, ih (handle s item.1).1 item.2 (by omega) hrest, append_assoc]

theorem push_append (st : σ × List β) (x y : List β) :
    push take handle st (x ++ y) =
      ((push take handle (push take handle st x).1 y).1,
        (push take handle st x).2 ++ (push take handle (push take handle st x).1 y).2) := by
  rw [push, ← append_assoc]
  exact drain_append htake st.1 (st.2 ++ x) y (Nat.le_refl _) (Nat.le_refl _)

/-- However a stream is cut, the machine ends in the same state and has given the same. -/
theorem run_push (st : σ × List β) (hst : take st.2 = none) (pieces : List (List β)) :
    (Mealy.run (push take handle) st pieces).1 = (push take handle st pieces.flatten).1 ∧
      (Mealy.run (push take handle) st pieces).2.flatten = (push take handle st pieces.flatten).2 := by
  have hnil : push take handle st [] = (st, []) := by
    rw [push, append_nil, drain_of_none hst]
  induction pieces using List.reverseRecOn with
  | nil =>
    rw [flatten_nil, hnil]
    exact ⟨rfl, rfl⟩
  | append_singleton pieces piece ih =>
    rw [Mealy.run_append, flatten_append, flatten_singleton, push_append htake, ← ih.1, ← ih.2]
    refine ⟨rfl, ?_⟩
    rw [flatten_append]
    simp [Mealy.run]

/-- A stream that is written item by item gives every item to `handle`, and nothing is left over. -/
theorem push_encoded (hnil : take [] = none) {encode : α → List β} {items : List α}
    (hitems : ∀ a ∈ items, ∀ rest, take (encode a ++ rest) = some (a, rest)) (s : σ) :
    push take handle (s, []) (items.flatMap encode) =
      (((Mealy.run handle s items).1, []), (Mealy.run handle s items).2.flatten) := by
  induction items generalizing s with
  | nil => rfl
  | cons a items ih =>
    obtain ⟨ha, hrest⟩ := forall_mem_cons.1 hitems
    have hone : take (encode a) = some (a, []) := by
      rw [← append_nil (encode a)]
      exact ha []
    have hpos : 0 < (encode a).length := htake.shrinks _ _ _ hone
    obtain ⟨n, hn⟩ := Nat.exists_eq_succ_of_ne_zero (Nat.ne_of_gt hpos)
    have hfirst : push take handle (s, []) (encode a) = (((handle s a).1, []), (handle s a).2) := by
      rw [push, nil_append, hn, drain_of_some hone, drain_of_none hnil, append_nil]
    rw [flatMap_cons, push_append htake, hfirst, ih hrest]
    rfl

end LingVoice.Lib.Stream

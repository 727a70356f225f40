import LingVoice.Lib.Ring
import LingVoice.Lib.SeqNum
import LingVoice.Media.Jitter
import Mathlib.Algebra.Order.Ring.Nat

/-!
# JitterRun — when the jitter buffer loses nothing

In every admissible run a slot holds the packet that was put into it last, as long as that packet is still to be read
(`Reached`).  Unless the capacity divides `2 ^ 16`, the slots are numbered anew when the sequence numbers wrap, and two
packets of one window meet in a slot.
-/

namespace LingVoice.Media.JitterBuffer

open Lib Lib.Herald Function Nat

variable {π : Type} {capacity : Nat} [NeZero capacity] {packet : Nat → π} {j : JitterBuffer π capacity}
  {past : List (Event π)}

/-! ## Traces with one more event -/

@[simp] theorem delivered_wrote (past : List (Event π)) (i : Nat) (accepted : Bool) :
    delivered (past ++ [.wrote i accepted]) = delivered past := by
  simp [delivered, Event.result]

@[simp] theorem delivered_read (past : List (Event π)) (result : Option π) :
    delivered (past ++ [.read result]) = delivered past ++ result.toList := by
  cases result <;> simp [delivered, Event.result]

@[simp] theorem next_wrote (past : List (Event π)) (i : Nat) (accepted : Bool) :
    next (past ++ [.wrote i accepted]) = next past := by
  simp [next]

@[simp] theorem next_read_none (past : List (Event π)) : next (past ++ [.read none]) = next past := by
  simp [next]

@[simp] theorem next_read_some (past : List (Event π)) (p : π) : next (past ++ [.read (some p)]) = next past + 1 := by
  simp [next]

variable {i k : Nat} {ops : List Op}

@[simp] theorem written_wrote {accepted : Bool} : Written (past ++ [.wrote i accepted]) k ↔ Written past k ∨ k = i := by
  simp [Written, or_comm, exists_or]

@[simp] theorem written_read {result : Option π} : Written (past ++ [.read result]) k ↔ Written past k := by
  simp [Written]

variable (idx : Fin capacity)

@[simp] theorem into_wrote (i : Nat) (accepted : Bool) :
    into idx (.wrote i accepted : Event π) = if slotOf capacity i = idx then some i else none :=
  rfl

@[simp] theorem latest_into_read (past : List (Event π)) (result : Option π) :
    latest (into idx) (past ++ [.read result]) = latest (into idx) past := by
  rw [latest_concat]
  rfl

theorem latest_into_wrote (past : List (Event π)) (i : Nat) (accepted : Bool) :
    latest (into idx) (past ++ [.wrote i accepted]) =
      if slotOf capacity i = idx then some i else latest (into idx) past := by
  rw [latest_concat, into_wrote]
  split
  · rfl
  · rfl

/-! ## Reached states -/

/-- What an admissible run has left in the buffer. -/
structure Reached (packet : Nat → π) (j : JitterBuffer π capacity) (past : List (Event π)) : Prop where
  nextSeq : j.nextSeq = UInt16.ofNat (next past)
  /-- `nextWriteSeq` is ahead of all packets that were written. -/
  nextWriteSeq : ∃ w, j.nextWriteSeq = UInt16.ofNat w ∧ next past ≤ w ∧ w ≤ next past + capacity ∧
    ∀ i, Written past i → i < w
  /-- A packet that was put into its slot last and is still to be read is there. -/
  held : ∀ k, latest (into (slotOf capacity k)) past = some k → next past ≤ k →
    j.slots (slotOf capacity k) = ⟨UInt16.ofNat k, some (packet k), true⟩
  /-- Nothing else is in a slot. -/
  filled : ∀ idx, (j.slots idx).filled = true →
    ∃ k, slotOf capacity k = idx ∧ latest (into idx) past = some k ∧ next past ≤ k
  /-- What was put into a slot last is not much older than anything else that was put into it. -/
  recent : ∀ i, Written past i → ∃ k, latest (into (slotOf capacity i)) past = some k ∧ i < k + capacity
  delivered : delivered past = (List.range (next past)).map packet

theorem reached_new (packet : Nat → π) : Reached packet ({} : JitterBuffer π capacity) [] where
  nextSeq := rfl
  nextWriteSeq := ⟨0, rfl, le_refl 0, zero_le _, by simp [Written]⟩
  held := by simp
  filled := by simp
  recent := by simp [Written]
  delivered := rfl

theorem slotOf_of_latest {idx : Fin capacity} (h : latest (into idx) past = some k) :
    slotOf capacity k = idx ∧ Written past k := by
  obtain ⟨e, he, hinto⟩ := List.mem_filterMap.1 (List.mem_of_getLast? h)
  cases e with
  | wrote i accepted =>
    rw [into_wrote] at hinto
    split at hinto
    · rename_i hslot
      obtain rfl := Option.some.inj hinto
      exact ⟨hslot, accepted, he⟩
    · cases hinto
  | read result => cases hinto

namespace Reached

variable (h : Reached packet j past) {i : Nat}

include h

theorem lt_of_written (hi : Written past i) : i < next past + capacity := by
  obtain ⟨w, -, -, hw, hlt⟩ := h.nextWriteSeq
  exact lt_of_lt_of_le (hlt i hi) hw

/-- Events that change nothing. -/
theorem congr {past' : List (Event π)} (hnext : next past' = next past)
    (hlatest : ∀ idx : Fin capacity, latest (into idx) past' = latest (into idx) past)
    (hwritten : ∀ k, Written past' k ↔ Written past k)
    (hdelivered : JitterBuffer.delivered past' = JitterBuffer.delivered past) : Reached packet j past' := by
  constructor <;> simp only [hnext, hlatest, hwritten, hdelivered]
  exacts [h.nextSeq, h.nextWriteSeq, h.held, h.filled, h.recent, h.delivered]

/-! ## Writing and reading -/

/-- A duplicate was put into its slot last before and now. -/
theorem duplicate (hlatest : latest (into (slotOf capacity i)) past = some i) :
    Reached packet j (past ++ [.wrote i false]) := by
  have hwritten : Written past i := (slotOf_of_latest hlatest).2
  have hsame : ∀ idx : Fin capacity, latest (into idx) (past ++ [.wrote i false]) = latest (into idx) past := by
    intro idx
    rw [latest_into_wrote]
    split
    · rename_i hidx
      rw [← hidx, hlatest]
    · rfl
  have hall : ∀ k, Written (past ++ [.wrote i false]) k ↔ Written past k := by
    intro k
    rw [written_wrote]
    exact or_iff_left_of_imp fun hk => hk ▸ hwritten
  exact h.congr (by simp) hsame hall (by simp)

theorem put (hi : next past ≤ i) {w : Nat} (hle : next past ≤ w)
    (hle' : w ≤ next past + capacity) (hlt : ∀ k, Written past k ∨ k = i → k < w) (total : Nat) :
    Reached packet { j with
        slots := update j.slots (slotOf capacity i) ⟨UInt16.ofNat i, some (packet i), true⟩
        totalPackets := total
        nextWriteSeq := UInt16.ofNat w } (past ++ [.wrote i true]) where
  nextSeq := by simpa using h.nextSeq
  nextWriteSeq := ⟨w, rfl, by simpa using hle, by simpa using hle', by simpa using hlt⟩
  held := by
    intro k hk hnext
    dsimp only
    rw [next_wrote] at hnext
    rw [latest_into_wrote] at hk
    split at hk
    · obtain rfl := Option.some.inj hk
      exact update_self ..
    · rename_i hslot
      rw [update_of_ne (Ne.symm hslot)]
      exact h.held k hk hnext
  filled := by
    intro idx hfilled
    dsimp only at hfilled
    rw [latest_into_wrote, next_wrote]
    by_cases hslot : slotOf capacity i = idx
    · exact ⟨i, hslot, if_pos hslot, hi⟩
    · rw [update_of_ne (Ne.symm hslot)] at hfilled
      rw [if_neg hslot]
      exact h.filled idx hfilled
  recent := by
    intro k hk
    rw [latest_into_wrote]
    by_cases hslot : slotOf capacity i = slotOf capacity k
    · -- what is written now is not before the window, and all that was written is not behind it
      refine ⟨i, if_pos hslot, ?_⟩
      have := hlt k (written_wrote.1 hk)
      omega
    · rw [if_neg hslot]
      rcases written_wrote.1 hk with hk | rfl
      · exact h.recent k hk
      · exact absurd rfl hslot
  delivered := by simpa using h.delivered

theorem take (hlatest : latest (into (slotOf capacity (next past))) past = some (next past)) {slot : JitterSlot π}
    (hslot : slot.filled = false) :
    Reached packet { j with
        slots := update j.slots (slotOf capacity (next past)) slot
        nextSeq := UInt16.ofNat (next past + 1) } (past ++ [.read (some (packet (next past)))]) where
  nextSeq := by simp
  nextWriteSeq := by
    obtain ⟨w, hw, -, hle, hlt⟩ := h.nextWriteSeq
    have hnext := hlt _ (slotOf_of_latest hlatest).2
    refine ⟨w, hw, ?_, ?_, by simpa using hlt⟩
    · rwa [next_read_some]
    · rw [next_read_some]
      omega
  held := by
    intro k hk hnext
    dsimp only
    rw [next_read_some] at hnext
    rw [latest_into_read] at hk
    -- the slot that is emptied is the one of the packet that was read
    have hother : slotOf capacity k ≠ slotOf capacity (next past) := by
      intro heq
      rw [heq, hlatest] at hk
      have := Option.some.inj hk
      omega
    rw [update_of_ne hother]
    exact h.held k hk (by omega)
  filled := by
    intro idx hfilled
    dsimp only at hfilled
    by_cases hidx : idx = slotOf capacity (next past)
    · rw [hidx, update_self, hslot] at hfilled
      cases hfilled
    · rw [update_of_ne hidx] at hfilled
      obtain ⟨k, hk, hklatest, hnext⟩ := h.filled idx hfilled
      have hne : k ≠ next past := by
        rintro rfl
        exact hidx hk.symm
      refine ⟨k, hk, by rwa [latest_into_read], ?_⟩
      rw [next_read_some]
      omega
  recent := by simpa using h.recent
  delivered := by
    rw [next_read_some, List.range_succ, List.map_append, delivered_read, h.delivered]
    rfl

variable (hcap : capacity < 2 ^ 15)

include hcap

/-- The slot of a packet of the window is taken by the packet itself exactly when it was put there last. -/
theorem taken_iff (hi : next past ≤ i) (hi' : i < next past + capacity) :
    ((j.slots (slotOf capacity i)).filled ∧ (j.slots (slotOf capacity i)).seq = UInt16.ofNat i) ↔
      latest (into (slotOf capacity i)) past = some i := by
  constructor
  · rintro ⟨hfilled, hseq⟩
    obtain ⟨k, hslot, hlatest, hk⟩ := h.filled _ hfilled
    have hk' := h.lt_of_written (slotOf_of_latest hlatest).2
    rw [← hslot] at hlatest hseq
    rw [h.held k hlatest hk] at hseq
    obtain rfl : k = i := (SeqNum.ofNat_inj_of_near (by omega) (by omega)).1 hseq
    exact hlatest
  · intro hlatest
    rw [h.held i hlatest hi]
    exact ⟨rfl, rfl⟩

theorem write_eq (hi : next past ≤ i) (hi' : i < next past + capacity) :
    (latest (into (slotOf capacity i)) past = some i ∧ j.write (UInt16.ofNat i) (packet i) = (j, false)) ∨
      (latest (into (slotOf capacity i)) past ≠ some i ∧ ∃ w total, next past ≤ w ∧ w ≤ next past + capacity ∧
        (∀ k, Written past k ∨ k = i → k < w) ∧ j.write (UInt16.ofNat i) (packet i) =
          ({ j with
              slots := update j.slots (slotOf capacity i) ⟨UInt16.ofNat i, some (packet i), true⟩
              totalPackets := total
              nextWriteSeq := UInt16.ofNat w }, true)) := by
  have htaken := h.taken_iff hcap hi hi'
  by_cases hlatest : latest (into (slotOf capacity i)) past = some i
  · refine .inl ⟨hlatest, ?_⟩
    exact if_pos (htaken.2 hlatest)
  · refine .inr ⟨hlatest, ?_⟩
    obtain ⟨w, hw, hle, hle', hlt⟩ := h.nextWriteSeq
    -- the distance to `nextWriteSeq` is told rightly
    have hdiff : (UInt16.ofNat i - j.nextWriteSeq).toInt16.toInt = (i : Int) - w := by
      rw [hw]
      exact SeqNum.toInt_sub_of_near (by omega) (by omega)
    have hcapacity : (-Int16.ofNat capacity).toInt = -capacity := by
      rw [Int16.toInt_neg, Int16.toInt_ofNat_of_lt hcap, Int.bmod_eq_of_le (by omega) (by omega)]
    have hearly : ¬ (UInt16.ofNat i - j.nextWriteSeq).toInt16 < -Int16.ofNat capacity := by
      rw [Int16.lt_iff_toInt_lt, hdiff, hcapacity]
      omega
    have hahead : 0 ≤ (UInt16.ofNat i - j.nextWriteSeq).toInt16 ↔ w ≤ i := by
      rw [Int16.le_iff_toInt_le, hdiff, Int16.toInt_zero]
      omega
    refine ⟨max w (i + 1), j.totalPackets + 1, by omega, by omega, ?_, ?_⟩
    · rintro k (hk | rfl)
      · have := hlt k hk
        omega
      · omega
    · have hnext : (if 0 ≤ (UInt16.ofNat i - j.nextWriteSeq).toInt16 then UInt16.ofNat i + 1 else j.nextWriteSeq) =
          UInt16.ofNat (max w (i + 1)) := by
        simp only [hahead]
        split
        · rw [max_eq_right (by omega)]
          exact SeqNum.ofNat_add_one i
        · rw [max_eq_left (by omega)]
          exact hw
      rw [← hnext]
      exact (if_neg (mt htaken.1 hlatest)).trans (if_neg hearly)

/-- After a write of a packet of the window the state is a reached one again, and a new packet is accepted. -/
theorem write (hi : next past ≤ i) (hi' : i < next past + capacity) :
    Reached packet (j.write (UInt16.ofNat i) (packet i)).1
        (past ++ [.wrote i (j.write (UInt16.ofNat i) (packet i)).2]) ∧
      (¬ Written past i → (j.write (UInt16.ofNat i) (packet i)).2 = true) := by
  rcases h.write_eq hcap hi hi' with ⟨hlatest, hwrite⟩ | ⟨-, w, total, hle, hle', hlt, hwrite⟩
  · rw [hwrite]
    exact ⟨h.duplicate hlatest, fun hnew => absurd (slotOf_of_latest hlatest).2 hnew⟩
  · rw [hwrite]
    exact ⟨h.put hi hle hle' hlt total, fun _ => rfl⟩

theorem read_eq :
    (latest (into (slotOf capacity (next past))) past = some (next past) ∧ ∃ slot : JitterSlot π,
        slot.filled = false ∧ j.read = ({ j with
          slots := update j.slots (slotOf capacity (next past)) slot
          nextSeq := UInt16.ofNat (next past + 1) }, some (packet (next past)))) ∨
      (latest (into (slotOf capacity (next past))) past ≠ some (next past) ∧ j.read = (j, none)) := by
  have htaken := h.taken_iff hcap (Nat.le_refl (next past)) (Nat.lt_add_of_pos_right (Nat.pos_of_neZero capacity))
  have hslot : slotIndex capacity j.nextSeq = slotOf capacity (next past) := by
    rw [h.nextSeq]
    rfl
  unfold JitterBuffer.read
  rw [hslot, h.nextSeq]
  by_cases hlatest : latest (into (slotOf capacity (next past))) past = some (next past)
  · refine .inl ⟨hlatest, { j.slots (slotOf capacity (next past)) with filled := false, packet := none }, rfl, ?_⟩
    rw [← SeqNum.ofNat_add_one]
    refine (if_pos (htaken.2 hlatest)).trans ?_
    rw [h.held _ hlatest (le_refl _)]
  · exact .inr ⟨hlatest, if_neg (mt htaken.1 hlatest)⟩

/-- After a read the state is a reached one again; the next packet is read exactly when it was put into its slot
last. -/
theorem read :
    Reached packet j.read.1 (past ++ [.read j.read.2]) ∧
      (j.read.2 = none ↔ latest (into (slotOf capacity (next past))) past ≠ some (next past)) := by
  rcases h.read_eq hcap with ⟨hlatest, slot, hslot, hread⟩ | ⟨hlatest, hread⟩
  · rw [hread]
    exact ⟨h.take hlatest hslot, by simp [hlatest]⟩
  · rw [hread]
    exact ⟨h.congr (by simp) (by simp) (by simp) (by simp), by simp [hlatest]⟩

end Reached

/-! ## Runs -/

/-- What holds at every event of an admissible run. -/
structure Along (capacity : Nat) [NeZero capacity] (packet : Nat → π) (past : List (Event π)) (e : Event π) :
    Prop where
  reached : ∃ j : JitterBuffer π capacity, Reached packet j past
  accepted : ∀ i accepted, e = .wrote i accepted → ¬ Written past i → accepted = true
  read : ∀ result, e = .read result →
    (result = none ↔ latest (into (slotOf capacity (next past))) past ≠ some (next past))

theorem Reached.step (h : Reached packet j past) (hcap : capacity < 2 ^ 15) (op : Op)
    (hwindow : ∀ i accepted, (step packet j op).2 = .wrote i accepted → next past ≤ i ∧ i < next past + capacity) :
    Reached packet (step packet j op).1 (past ++ [(step packet j op).2]) ∧
      Along capacity packet past (step packet j op).2 := by
  cases op with
  | write i =>
    obtain ⟨hi, hi'⟩ := hwindow i _ rfl
    obtain ⟨hreached, haccepted⟩ := h.write hcap hi hi'
    refine ⟨hreached, ⟨⟨j, h⟩, ?_, fun result hresult => by cases hresult⟩⟩
    intro k accepted hevent
    obtain ⟨rfl, rfl⟩ := Event.wrote.inj hevent
    exact haccepted
  | read =>
    obtain ⟨hreached, hread⟩ := h.read hcap
    refine ⟨hreached, ⟨⟨j, h⟩, fun i accepted hevent => by (cases hevent), ?_⟩⟩
    intro result hevent
    obtain rfl := Event.read.inj hevent
    exact hread

theorem reached_run (hcap : capacity < 2 ^ 15) (packet : Nat → π) (ops : List Op) :
    Admissible capacity (trace capacity packet ops) →
      Reached packet (Mealy.run (step packet) ({} : JitterBuffer π capacity) ops).1 (trace capacity packet ops) ∧
        AtEvery (Along capacity packet) (trace capacity packet ops) := by
  unfold trace
  refine Mealy.run_answers ?_ (fun _ => ⟨reached_new packet, atEvery_nil⟩) ops
  intro past j op ih hadmissible
  obtain ⟨hpast, hwindow⟩ := atEvery_concat.1 hadmissible
  obtain ⟨hreached, halong⟩ := ih hpast
  obtain ⟨hnext, hevent⟩ := hreached.step hcap op hwindow
  exact ⟨hnext, atEvery_concat.2 ⟨halong, hevent⟩⟩

/-- In an admissible run nothing is lost exactly when every packet stays in its slot until it is read. -/
theorem lossless_iff_intact (hcap : capacity < 2 ^ 15) (packet : Nat → π)
    (hadmissible : Admissible capacity (trace capacity packet ops)) :
    Lossless packet (trace capacity packet ops) ↔ Intact capacity (trace capacity packet ops) := by
  obtain ⟨hreached, halong⟩ := reached_run hcap packet ops hadmissible
  constructor
  · intro h past e later hsplit result hevent hwritten
    by_contra hlatest
    have hnone : result = none := ((halong past e later hsplit).read result hevent).2 hlatest
    exact h.patient past e later hsplit (hnone ▸ hevent) hwritten
  · intro h
    refine ⟨?_, hreached.delivered, ?_⟩
    · intro past e later hsplit
      exact (halong past e later hsplit).accepted
    · intro past e later hsplit hevent hwritten
      exact ((halong past e later hsplit).read none hevent).1 rfl (h past e later hsplit none hevent hwritten)

/-! ## Capacities that divide the range -/

theorem val_slotOf (capacity : Nat) [NeZero capacity] (i : Nat) :
    (slotOf capacity i : Nat) = i % 2 ^ 16 % capacity := by
  rw [slotOf, slotIndex, Fin.val_ofNat, SeqNum.toNat_ofNat]

theorem intact_of_dvd (hcap : capacity < 2 ^ 15) (hdvd : capacity ∣ 2 ^ 16) (packet : Nat → π)
    (hadmissible : Admissible capacity (trace capacity packet ops)) : Intact capacity (trace capacity packet ops) := by
  intro past e later hsplit result hevent hwritten
  obtain ⟨j, hreached⟩ := ((reached_run hcap packet ops hadmissible).2 past e later hsplit).reached
  obtain ⟨k, hlatest, hk⟩ := hreached.recent _ hwritten
  obtain ⟨hslot, hkwritten⟩ := slotOf_of_latest hlatest
  have hk' := hreached.lt_of_written hkwritten
  -- slots tell the packets of a window apart
  have hmod : k % capacity = next past % capacity := by
    have hval := congrArg Fin.val hslot
    rwa [val_slotOf, val_slotOf, mod_mod_of_dvd _ hdvd, mod_mod_of_dvd _ hdvd] at hval
  have hsame : k = next past := by
    rcases le_total k (next past) with hle | hle
    · exact Ring.eq_of_mod_eq (le_refl k) (by omega) hle hk hmod
    · exact Ring.eq_of_mod_eq hle hk' (le_refl _) (by omega) hmod
  rw [hlatest, hsame]

/-! ## Other capacities -/

theorem trace_concat (packet : Nat → π) (ops : List Op) (op : Op) :
    trace capacity packet (ops ++ [op]) = trace capacity packet ops ++
      [(step packet (Mealy.run (step packet) ({} : JitterBuffer π capacity) ops).1 op).2] := by
  rw [trace, Mealy.run_append]
  rfl

section Next

variable {ops : List Op} (hadmissible : Admissible capacity (trace capacity packet ops))

include hadmissible

/-- The run can go on with a write of a packet of the window. -/
theorem exists_trace_write {i : Nat} (hi : next (trace capacity packet ops) ≤ i)
    (hi' : i < next (trace capacity packet ops) + capacity) :
    ∃ accepted, trace capacity packet (ops ++ [.write i]) = trace capacity packet ops ++ [.wrote i accepted] ∧
      Admissible capacity (trace capacity packet (ops ++ [.write i])) := by
  refine ⟨_, trace_concat packet ops (.write i), ?_⟩
  rw [trace_concat]
  refine atEvery_concat.2 ⟨hadmissible, ?_⟩
  intro k accepted hevent
  obtain ⟨rfl, -⟩ := Event.wrote.inj hevent
  exact ⟨hi, hi'⟩

/-- The run can go on with a read. -/
theorem exists_trace_read (hcap : capacity < 2 ^ 15) :
    ∃ result, trace capacity packet (ops ++ [.read]) = trace capacity packet ops ++ [.read result] ∧
      Admissible capacity (trace capacity packet (ops ++ [.read])) ∧
      (result = none ↔ latest (into (slotOf capacity (next (trace capacity packet ops))))
        (trace capacity packet ops) ≠ some (next (trace capacity packet ops))) := by
  refine ⟨_, trace_concat packet ops .read, ?_, ((reached_run hcap packet ops hadmissible).1.read hcap).2⟩
  rw [trace_concat]
  refine atEvery_concat.2 ⟨hadmissible, ?_⟩
  intro k accepted hevent
  cases hevent

end Next

def inOrder (n : Nat) : List Op :=
  (List.range n).flatMap fun i => [.write i, .read]

theorem inOrder_succ (n : Nat) : inOrder (n + 1) = inOrder n ++ [.write n] ++ [.read] := by
  simp [inOrder, List.range_succ]

theorem admissible_inOrder (hcap : capacity < 2 ^ 15) (packet : Nat → π) (n : Nat) :
    Admissible capacity (trace capacity packet (inOrder n)) ∧ next (trace capacity packet (inOrder n)) = n := by
  induction n with
  | zero => exact ⟨atEvery_nil, rfl⟩
  | succ n ih =>
    obtain ⟨hadmissible, hnext⟩ := ih
    have hpos := pos_of_neZero capacity
    obtain ⟨accepted, hwrite, hadmissible⟩ := exists_trace_write hadmissible (i := n) (by omega) (by omega)
    obtain ⟨result, hread, hadmissible, hresult⟩ := exists_trace_read hadmissible hcap
    rw [inOrder_succ]
    refine ⟨hadmissible, ?_⟩
    rw [hwrite, next_wrote, hnext, latest_into_wrote, if_pos rfl] at hresult
    cases result with
    | none => simp at hresult
    | some p => rw [hread, next_read_some, hwrite, next_wrote, hnext]

/-- The last packet before the wrap whose slot is the first one. -/
def lastFirst (capacity : Nat) : Nat :=
  2 ^ 16 - 2 ^ 16 % capacity

/-- In the last window before the wrap a packet is written into a slot that is still in use. -/
def overtaken (capacity : Nat) : List Op :=
  inOrder (lastFirst capacity) ++ [.write (lastFirst capacity)] ++ [.write (2 ^ 16)] ++ [.read]

theorem slotOf_lastFirst (hdvd : ¬ capacity ∣ 2 ^ 16) :
    slotOf capacity (2 ^ 16) = slotOf capacity (lastFirst capacity) := by
  have hlt : lastFirst capacity < 2 ^ 16 := by
    unfold lastFirst
    omega
  have hmod : lastFirst capacity % capacity = 0 := sub_mod_eq_zero_of_mod_eq (mod_mod _ _).symm
  apply Fin.ext
  rw [val_slotOf, val_slotOf, mod_eq_of_lt hlt, hmod, mod_self, zero_mod]

/-- Unless the capacity divides the range, a packet is lost at the wrap. -/
theorem overtaken_lossy (hcap : capacity < 2 ^ 15) (hdvd : ¬ capacity ∣ 2 ^ 16) (packet : Nat → π) :
    Admissible capacity (trace capacity packet (overtaken capacity)) ∧
      ¬ Lossless packet (trace capacity packet (overtaken capacity)) := by
  have hpos := pos_of_neZero capacity
  have hwindow : lastFirst capacity ≤ 2 ^ 16 ∧ 2 ^ 16 < lastFirst capacity + capacity := by
    have hrest := mod_lt (2 ^ 16) hpos
    unfold lastFirst
    omega
  have hne : lastFirst capacity ≠ 2 ^ 16 := by
    unfold lastFirst
    omega
  obtain ⟨hadmissible, hnext⟩ := admissible_inOrder hcap packet (lastFirst capacity)
  obtain ⟨a, hfirst, hadmissible⟩ := exists_trace_write hadmissible (i := lastFirst capacity) (by omega) (by omega)
  obtain ⟨b, hsecond, hadmissible⟩ := exists_trace_write hadmissible (i := 2 ^ 16)
    (by rw [hfirst, next_wrote]; omega) (by rw [hfirst, next_wrote]; omega)
  obtain ⟨result, hread, hadmissible, hresult⟩ := exists_trace_read hadmissible hcap
  refine ⟨hadmissible, fun hlossless => ?_⟩
  have hbefore : next (trace capacity packet
      (inOrder (lastFirst capacity) ++ [.write (lastFirst capacity)] ++ [.write (2 ^ 16)])) = lastFirst capacity := by
    rw [hsecond, next_wrote, hfirst, next_wrote, hnext]
  -- the slot of the next packet was given to packet `2 ^ 16`
  have hnone : result = none := by
    rw [hresult, hbefore, hsecond, latest_into_wrote, if_pos (slotOf_lastFirst hdvd)]
    simpa using hne.symm
  refine hlossless.patient _ (.read result) [] hread (by rw [hnone]) ?_
  rw [hbefore, hsecond, written_wrote, hfirst, written_wrote]
  exact .inl (.inr rfl)

/-! ## The theorem -/

/-- For every admissible run: nothing is lost exactly when no packet is put into the slot of the next one before that
is read.  And this is so in all admissible runs exactly when the capacity divides `2 ^ 16`. -/
theorem lossless_iff (capacity : Nat) [NeZero capacity] (hcap : capacity ≤ 32767) (packet : Nat → π) :
    (∀ ops, Admissible capacity (trace capacity packet ops) →
      (Lossless packet (trace capacity packet ops) ↔ Intact capacity (trace capacity packet ops))) ∧
    ((∀ ops, Admissible capacity (trace capacity packet ops) → Lossless packet (trace capacity packet ops)) ↔
      capacity ∣ 2 ^ 16) := by
  have hsmall : capacity < 2 ^ 15 := by omega
  refine ⟨fun ops hadmissible => lossless_iff_intact hsmall packet hadmissible, ?_, ?_⟩
  · intro hall
    by_contra hdvd
    obtain ⟨hadmissible, hlossy⟩ := overtaken_lossy hsmall hdvd packet
    exact hlossy (hall _ hadmissible)
  · intro hdvd ops hadmissible
    exact (lossless_iff_intact hsmall packet hadmissible).2 (intact_of_dvd hsmall hdvd packet hadmissible)

/-- Two packets change places, a read comes too early, and the first packet comes again. -/
def reordered : List Op :=
  [.write 1, .read, .write 0, .write 0, .read, .write 3, .read, .write 2, .read, .read]

theorem admissible_reordered : Admissible 16 (trace 16 (fun i => i) reordered) := by
  have hcap : 16 < 2 ^ 15 := by decide
  have h : Admissible 16 (trace 16 (fun i => i) []) := atEvery_nil
  obtain ⟨_, -, h⟩ := exists_trace_write h (i := 1) (by decide) (by decide)
  obtain ⟨_, -, h, -⟩ := exists_trace_read h hcap
  obtain ⟨_, -, h⟩ := exists_trace_write h (i := 0) (by decide) (by decide)
  obtain ⟨_, -, h⟩ := exists_trace_write h (i := 0) (by decide) (by decide)
  obtain ⟨_, -, h, -⟩ := exists_trace_read h hcap
  obtain ⟨_, -, h⟩ := exists_trace_write h (i := 3) (by decide) (by decide)
  obtain ⟨_, -, h, -⟩ := exists_trace_read h hcap
  obtain ⟨_, -, h⟩ := exists_trace_write h (i := 2) (by decide) (by decide)
  obtain ⟨_, -, h, -⟩ := exists_trace_read h hcap
  obtain ⟨_, -, h, -⟩ := exists_trace_read h hcap
  exact h

theorem lossless_sixteen : 16 ∣ 2 ^ 16 ∧ Lossless (fun i => i) (trace 16 (fun i => i) reordered) ∧
    delivered (trace 16 (fun i => i) reordered) = [0, 1, 2, 3] :=
  ⟨by decide, (lossless_iff 16 (by decide) fun i => i).2.2 (by decide) _ admissible_reordered, rfl⟩

/-- With three slots packet `2 ^ 16` takes the place of packet `2 ^ 16 - 1`. -/
theorem lossy_three :
    Admissible 3 (trace 3 (fun i => i) (overtaken 3)) ∧ ¬ Lossless (fun i => i) (trace 3 (fun i => i) (overtaken 3)) :=
  overtaken_lossy (by decide) (by decide) fun i => i

end LingVoice.Media.JitterBuffer

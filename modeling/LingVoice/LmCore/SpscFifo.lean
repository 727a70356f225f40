import LingVoice.LmCore.Spsc

/-!
# SpscFifo — the queue is a bounded FIFO under every interleaving

`Consistent` relates the cells, the positions and the two program counters to what has been seen.  A position that a
thread has read of the other one may be old; it can only be too small, so the producer sees fewer free cells and the
consumer fewer items than there are.
-/

namespace LingVoice.LmCore

open Lib Lib.Ring List Threads Nat

variable {τ : Type}

/-! ## The invariant -/

namespace Threads

/-- The item that is in its cell already while its position is not stored yet. -/
def written (s : Threads τ) : List τ :=
  match s.producer with
  | .storeWritePos item _ => [item]
  | _ => []

/-- The item whose position is stored while `try_push` has not returned yet. -/
def inFlight (s : Threads τ) : List τ :=
  match s.producer with
  | .countWritten item => [item]
  | _ => []

/-- The items that are out of their cells while the position is not stored yet. -/
def taken (s : Threads τ) : Nat :=
  match s.consumer with
  | .storeReadPos _ _ => 1
  | _ => 0

/-- The item whose cell is given back while `try_pop` has not returned yet. -/
def held (s : Threads τ) : List τ :=
  match s.consumer with
  | .countRead item => item.toList
  | _ => []

end Threads

def ProducerKnows (cap : Nat) (q : SpscQueue τ) : ProducerPc τ → Prop
  | .idle => True
  | .loadReadPos _ wpos => wpos = q.writePos
  | .countDropped _ => True
  | .writeCell _ wpos => wpos = q.writePos ∧ q.writePos.toNat < q.readPos.toNat + cap
  | .storeWritePos _ wpos => wpos = q.writePos ∧ q.writePos.toNat < q.readPos.toNat + cap
  | .countWritten _ => True

def ConsumerKnows (items : List τ) (q : SpscQueue τ) : ConsumerPc τ → Prop
  | .idle => True
  | .loadWritePos rpos => rpos = q.readPos
  | .takeCell rpos => rpos = q.readPos ∧ q.readPos.toNat < items.length
  | .storeReadPos item rpos => rpos = q.readPos ∧ ∃ x, item = some x ∧ items[q.readPos.toNat]? = some x
  | .countRead item => ∃ x, item = some x

/-- The threads after `items` have been pushed, `returned` have been accepted, `out` have been popped and `free` cells
have been given back. -/
structure Consistent (cap : Nat) (s : Threads τ) (items returned out : List τ) (free : Nat) : Prop where
  capacity : s.queue.capacity = cap
  mask : s.queue.mask = cap - 1
  writePos : s.queue.writePos.toNat = items.length
  readPos : s.queue.readPos.toNat = free
  le : free ≤ items.length
  room : items.length ≤ free + cap
  window : Window s.queue.buffer cap (free + s.taken) (items ++ s.written)
  producer : ProducerKnows cap s.queue s.producer
  consumer : ConsumerKnows items s.queue s.consumer
  accepted : returned ++ s.inFlight = items
  popped : out ++ s.held = items.take free

/-! ## Steps -/

namespace Threads

/-- A cell is written where the producer is about to do so; `try_pop` returns nothing at its second load, or with an
empty cell. -/
theorem step_event (s : Threads τ) (a : Action τ) :
    match (s.step a).2 with
    | .wrote old =>
      ∃ item wpos, s.producer = .writeCell item wpos ∧ old = s.queue.buffer[s.queue.index wpos]?.getD none
    | .popReturned none =>
      (∃ rpos, s.consumer = .loadWritePos rpos ∧ s.queue.writePos ≤ rpos) ∨ s.consumer = .countRead none
    | _ => True := by
  rcases s with ⟨q, producer, consumer⟩
  cases a with
  | tryPush item => cases producer <;> trivial
  | producer =>
    cases producer with
    | writeCell item wpos => exact ⟨item, wpos, rfl, rfl⟩
    | loadReadPos item wpos =>
      by_cases hfull : q.capacity ≤ (wpos - q.readPos).toNat
      · simp [step, producerStep, hfull]
      · simp [step, producerStep, hfull]
    | _ => trivial
  | tryPop => cases consumer <;> trivial
  | consumer =>
    cases consumer with
    | loadWritePos rpos =>
      by_cases hle : q.writePos ≤ rpos
      · simp [step, consumerStep, hle]
      · simp [step, consumerStep, hle]
    | countRead item =>
      cases item with
      | none => exact .inr rfl
      | some x => trivial
    | _ => trivial

end Threads

section Step

variable {cap free : Nat} {s : Threads τ} {items returned out : List τ}

theorem ProducerKnows.release {q : SpscQueue τ} {pc : ProducerPc τ} (h : ProducerKnows cap q pc) {rpos : UInt64}
    (hrpos : q.readPos.toNat ≤ rpos.toNat) : ProducerKnows cap { q with readPos := rpos } pc := by
  cases pc with
  | idle | countDropped item | countWritten item => trivial
  | loadReadPos item wpos => exact h
  | writeCell item wpos => exact ⟨h.1, Nat.lt_of_lt_of_le h.2 (Nat.add_le_add_right hrpos cap)⟩
  | storeWritePos item wpos => exact ⟨h.1, Nat.lt_of_lt_of_le h.2 (Nat.add_le_add_right hrpos cap)⟩

theorem ConsumerKnows.append {q : SpscQueue τ} {pc : ConsumerPc τ} (h : ConsumerKnows items q pc) (later : List τ) :
    ConsumerKnows (items ++ later) q pc := by
  cases pc with
  | idle => trivial
  | loadWritePos rpos | countRead item => exact h
  | takeCell rpos =>
    refine ⟨h.1, ?_⟩
    rw [length_append]
    exact Nat.lt_add_right _ h.2
  | storeReadPos item rpos =>
    obtain ⟨hpos, x, hitem, hx⟩ := h
    refine ⟨hpos, x, hitem, ?_⟩
    obtain ⟨hlt, -⟩ := List.getElem?_eq_some_iff.1 hx
    rw [getElem?_append_left hlt]
    exact hx

namespace Consistent

variable (h : Consistent cap s items returned out free)

include h

theorem index (hcap : cap.isPowerOfTwo) (pos : UInt64) : s.queue.index pos = pos.toNat % cap := by
  obtain ⟨k, hk⟩ := hcap
  rw [SpscQueue.index, h.mask, hk, and_two_pow_sub_one_eq_mod]

/-- The producer has seen an old position of the consumer at worst. -/
theorem used : (s.queue.writePos - s.queue.readPos).toNat = items.length - free := by
  have hle : s.queue.readPos ≤ s.queue.writePos := by
    rw [UInt64.le_iff_toNat_le, h.readPos, h.writePos]
    exact h.le
  rw [UInt64.toNat_sub_of_le _ _ hle, h.writePos, h.readPos]

theorem start_le : free + s.taken ≤ items.length := by
  have hle := h.le
  have hconsumer := h.consumer
  have hread := h.readPos
  unfold taken
  split
  · rename_i item rpos hpc
    rw [hpc] at hconsumer
    obtain ⟨-, x, -, hx⟩ := hconsumer
    obtain ⟨hlt, -⟩ := List.getElem?_eq_some_iff.1 hx
    omega
  · exact hle

/-- The item that is being written fits too. -/
theorem written_le : (items ++ s.written).length ≤ free + cap := by
  have hroom := h.room
  have hproducer := h.producer
  have hwrite := h.writePos
  have hread := h.readPos
  unfold written
  split
  · rename_i item wpos hpc
    rw [hpc] at hproducer
    have hlt := hproducer.2
    rw [length_append, length_singleton]
    omega
  · rw [append_nil]
    exact hroom

/-- A step at which nothing is pushed, accepted, popped or given back. -/
theorem quiet : Consistent cap s (items ++ []) (returned ++ []) (out ++ []) (free + 0) := by
  rw [append_nil, append_nil, append_nil, add_zero]
  exact h

section

variable (hcap : cap.isPowerOfTwo)

include hcap

theorem producerStep (hfew : (items ++ s.producerStep.2.pushed).length < 2 ^ 64) :
    Consistent cap s.producerStep.1 (items ++ s.producerStep.2.pushed) (returned ++ s.producerStep.2.accepted)
      (out ++ s.producerStep.2.popped) (free + s.producerStep.2.releases) := by
  have hindex := h.index hcap
  have hused := h.used
  have hstart := h.start_le
  rcases s with ⟨q, producer, consumer⟩
  have hwrite : q.writePos.toNat = items.length := h.writePos
  have hread : q.readPos.toNat = free := h.readPos
  cases producer with
  | idle => exact h.quiet
  | loadReadPos item wpos =>
    -- the consumer may go on after this load, but it only makes more room
    obtain rfl : wpos = q.writePos := h.producer
    have hcapacity : q.capacity = cap := h.capacity
    simp only [producerStep, hused, hcapacity]
    split
    · exact quiet { h with producer := trivial }
    · refine quiet { h with producer := ⟨rfl, ?_⟩ }
      dsimp only
      omega
  | countDropped item => exact quiet { h with producer := trivial }
  | writeCell item wpos =>
    obtain ⟨rfl, hlt⟩ : wpos = q.writePos ∧ q.writePos.toNat < q.readPos.toNat + cap := h.producer
    -- the item is in its cell before its position is stored: `written` takes it into the window
    have hwindow : Window q.buffer cap (free + taken ⟨q, .writeCell item q.writePos, consumer⟩) items := by
      have hcells := h.window
      rwa [written, append_nil] at hcells
    simp only [producerStep, hindex, hwrite]
    refine quiet { h with window := ?_, producer := ⟨rfl, hlt⟩ }
    exact hwindow.write hstart (by omega) item
  | storeWritePos item wpos =>
    obtain ⟨rfl, hlt⟩ : wpos = q.writePos ∧ q.writePos.toNat < q.readPos.toNat + cap := h.producer
    have hreturned : returned = items := by
      have haccepted := h.accepted
      rwa [inFlight, append_nil] at haccepted
    -- the only place at which the position could wrap
    simp only [producerStep, Event.pushed, length_append, length_singleton] at hfew
    have hnext : (q.writePos + 1).toNat = items.length + 1 := by
      rw [UInt64.toNat_add, hwrite]
      exact mod_eq_of_lt hfew
    simp only [producerStep, Event.pushed, Event.accepted, Event.popped, Event.releases, append_nil, add_zero]
    refine { h with writePos := ?_, le := ?_, room := ?_, window := ?_, producer := trivial,
                    consumer := h.consumer.append [item], accepted := ?_, popped := ?_ }
    · rw [length_append]
      exact hnext
    · rw [length_append]
      exact le_add_right_of_le h.le
    · rw [length_append, length_singleton]
      omega
    · rw [written, append_nil]
      exact h.window
    · rw [hreturned]
      rfl
    · rw [take_append_of_le_length h.le]
      exact h.popped
  | countWritten item =>
    simp only [producerStep, Event.pushed, Event.accepted, Event.popped, Event.releases, append_nil, add_zero]
    refine { h with producer := trivial, accepted := ?_ }
    rw [inFlight, append_nil]
    exact h.accepted

theorem consumerStep :
    Consistent cap s.consumerStep.1 (items ++ s.consumerStep.2.pushed) (returned ++ s.consumerStep.2.accepted)
      (out ++ s.consumerStep.2.popped) (free + s.consumerStep.2.releases) := by
  have hindex := h.index hcap
  rcases s with ⟨q, producer, consumer⟩
  have hwrite : q.writePos.toNat = items.length := h.writePos
  have hread : q.readPos.toNat = free := h.readPos
  have hroom := h.room
  cases consumer with
  | idle => exact h.quiet
  | loadWritePos rpos =>
    obtain rfl : rpos = q.readPos := h.consumer
    simp only [consumerStep]
    split
    · exact quiet { h with consumer := trivial }
    · rename_i hempty
      refine quiet { h with consumer := ⟨rfl, ?_⟩ }
      rw [UInt64.not_le, UInt64.lt_iff_toNat_lt, hwrite] at hempty
      exact hempty
  | takeCell rpos =>
    obtain ⟨rfl, hlt⟩ : rpos = q.readPos ∧ q.readPos.toNat < items.length := h.consumer
    rw [hread] at hlt
    -- the cell at the position the consumer has read holds the next item to pop
    have hcappos : 0 < cap := pos_of_isPowerOfTwo hcap
    obtain ⟨x, hx⟩ : ∃ x, items[free]? = some x := ⟨items[free], getElem?_eq_getElem hlt⟩
    have hcell : q.buffer[free % cap]? = some (some x) := by
      rw [h.window.cell free (Nat.le_refl _) (Nat.lt_add_of_pos_right hcappos), getElem?_append_left hlt, hx]
    simp only [consumerStep, hindex, hread, hcell, Option.getD_some]
    refine quiet { h with window := ?_, consumer := ⟨rfl, x, rfl, ?_⟩ }
    · exact h.window.take hcappos h.written_le
    · rw [h.readPos]
      exact hx
  | storeReadPos item rpos =>
    obtain ⟨rfl, x, rfl, hx⟩ : rpos = q.readPos ∧ ∃ x, item = some x ∧ items[q.readPos.toNat]? = some x := h.consumer
    rw [hread] at hx
    obtain ⟨hlt, -⟩ := List.getElem?_eq_some_iff.1 hx
    -- the read position stays behind the write position, so it does not wrap
    have hnext : (q.readPos + 1).toNat = free + 1 := by
      have hbound := q.writePos.toNat_lt
      rw [UInt64.toNat_add, hread]
      exact mod_eq_of_lt (by rw [UInt64.toNat_one]; omega)
    have hout : out = items.take free := by
      have hpopped := h.popped
      rwa [held, append_nil] at hpopped
    simp only [consumerStep, Event.pushed, Event.accepted, Event.popped, Event.releases, append_nil]
    refine { h with readPos := hnext, le := hlt, room := ?_, window := h.window,
                    producer := h.producer.release ?_, consumer := ⟨x, rfl⟩, popped := ?_ }
    · omega
    · rw [hnext, hread]
      exact le_succ free
    · rw [hout, take_add_one, hx]
      rfl
  | countRead item =>
    obtain ⟨x, rfl⟩ : ∃ x, item = some x := h.consumer
    simp only [consumerStep, Event.pushed, Event.accepted, Event.popped, Event.releases, append_nil, add_zero]
    refine { h with consumer := trivial, popped := ?_ }
    rw [held, append_nil]
    exact h.popped

theorem step (a : Action τ) (hfew : (items ++ (s.step a).2.pushed).length < 2 ^ 64) :
    Consistent cap (s.step a).1 (items ++ (s.step a).2.pushed) (returned ++ (s.step a).2.accepted)
      (out ++ (s.step a).2.popped) (free + (s.step a).2.releases) := by
  cases a with
  | tryPush item =>
    rcases s with ⟨q, producer, consumer⟩
    cases producer with
    | idle => exact quiet { h with producer := rfl }
    | _ => exact h.quiet
  | producer => exact h.producerStep hcap hfew
  | tryPop =>
    rcases s with ⟨q, producer, consumer⟩
    cases consumer with
    | idle => exact quiet { h with consumer := rfl }
    | _ => exact h.quiet
  | consumer => exact h.consumerStep hcap

/-- A cell is written only when it is empty. -/
theorem wrote {a : Action τ} {old : Option τ} (hevent : (s.step a).2 = .wrote old) : old = none := by
  have hwrite := s.step_event a
  rw [hevent] at hwrite
  obtain ⟨item, wpos, hpc, rfl⟩ := hwrite
  have hproducer := h.producer
  rw [hpc] at hproducer
  obtain ⟨rfl, hlt⟩ := hproducer
  have hwindow := h.window
  rw [written, hpc, append_nil] at hwindow
  rw [h.writePos, h.readPos] at hlt
  rw [h.index hcap, h.writePos, hwindow.cell _ h.start_le (by omega), getElem?_eq_none (le_refl _)]
  rfl

end

/-- `try_pop` returns nothing only when there is nothing. -/
theorem popReturned_none {a : Action τ} (hevent : (s.step a).2 = .popReturned none) :
    (∃ rpos, s.consumer = .loadWritePos rpos) ∧ out = items := by
  have hconsumer := h.consumer
  have hpopped := h.popped
  have hnone := s.step_event a
  rw [hevent] at hnone
  rcases hnone with ⟨rpos, hpc, hle⟩ | hpc
  · rw [hpc] at hconsumer
    obtain rfl : rpos = s.queue.readPos := hconsumer
    rw [UInt64.le_iff_toNat_le, h.writePos, h.readPos] at hle
    rw [held, hpc, append_nil, take_of_length_le hle] at hpopped
    exact ⟨⟨_, hpc⟩, hpopped⟩
  · -- an empty cell is never taken
    rw [hpc] at hconsumer
    obtain ⟨x, hx⟩ := hconsumer
    cases hx

end Consistent

end Step

/-! ## Runs -/

section Run

variable {capacity : Nat} {q : SpscQueue τ}

theorem consistent_start (hnew : SpscQueue.new capacity = some q) :
    Consistent capacity.nextPowerOfTwo (start q) [] [] [] 0 := by
  unfold SpscQueue.new at hnew
  dsimp only at hnew
  split at hnew
  · cases hnew
    exact
      { capacity := rfl
        mask := rfl
        writePos := rfl
        readPos := rfl
        le := le_refl 0
        room := zero_le _
        window := window_nil _
        producer := trivial
        consumer := trivial
        accepted := rfl
        popped := rfl }
  · cases hnew

/-- What holds of the threads and of everything that has been seen. -/
structure Reached (cap : Nat) (log : List (Event τ)) (s : Threads τ) : Prop where
  consistent : Consistent cap s (pushed log) (accepted log) (popped log) (releases log)
  wrote : ∀ old, .wrote old ∈ log → old = none

theorem Reached.step {cap : Nat} {log : List (Event τ)} {s : Threads τ} (h : Reached cap log s)
    (hcap : cap.isPowerOfTwo) (a : Action τ) (hfew : (pushed (log ++ [(s.step a).2])).length < 2 ^ 64) :
    Reached cap (log ++ [(s.step a).2]) (s.step a).1 where
  consistent := by
    rw [pushed, flatMap_append, flatMap_singleton] at hfew
    rw [pushed, accepted, popped, releases, flatMap_append, flatMap_append, flatMap_append,
      flatMap_singleton, flatMap_singleton, flatMap_singleton, map_append, List.sum_append,
      map_singleton, sum_singleton]
    exact h.consistent.step hcap a hfew
  wrote old hold := by
    rcases mem_append.1 hold with hold | hnew
    · exact h.wrote old hold
    · exact h.consistent.wrote hcap (mem_singleton.1 hnew).symm

theorem reached_after (hnew : SpscQueue.new capacity = some q) (actions : List (Action τ))
    (hfew : (pushed (after q actions).2).length < 2 ^ 64) :
    Reached capacity.nextPowerOfTwo (after q actions).2 (after q actions).1 := by
  revert hfew
  refine Mealy.run_answers ?_ ?_ actions
  · intro past s a hpast hlast
    -- the bound on the number of items holds of every shorter run
    have hle : (pushed past).length ≤ (pushed (past ++ [(s.step a).2])).length := by
      rw [pushed, pushed, flatMap_append, length_append]
      exact le_add_right _ _
    exact (hpast (lt_of_le_of_lt hle hlast)).step (isPowerOfTwo_nextPowerOfTwo capacity) a hlast
  · intro _
    exact ⟨consistent_start hnew, fun old hold => absurd hold not_mem_nil⟩

theorem pushed_after_append (q : SpscQueue τ) (past later : List (Action τ)) :
    (pushed (Threads.after q past).2).length ≤ (pushed (Threads.after q (past ++ later)).2).length := by
  rw [Threads.after, Threads.after, Mealy.run_append, pushed, pushed, flatMap_append, length_append]
  exact le_add_right _ _

namespace SpscQueue

/-- The queue is a bounded FIFO: what is popped has been pushed, in order; no item is overwritten; no more items are in
the queue than it has cells; and `try_pop` returns nothing only at a load of `write_pos` at which everything that was
pushed had been popped. -/
theorem boundedFifo (hnew : new capacity = some q) (actions : List (Action τ))
    (hfew : (pushed (Threads.after q actions).2).length < 2 ^ 64) :
    popped (Threads.after q actions).2 <+:
        accepted (Threads.after q actions).2 ++ (Threads.after q actions).1.inFlight ∧
      ((Threads.after q actions).1.producer = .idle →
        popped (Threads.after q actions).2 <+: accepted (Threads.after q actions).2) ∧
      (∀ old, .wrote old ∈ (Threads.after q actions).2 → old = none) ∧
      (pushed (Threads.after q actions).2).length ≤
        releases (Threads.after q actions).2 + capacity.nextPowerOfTwo ∧
      ∀ past a later, actions = past ++ a :: later →
        ((Threads.after q past).1.step a).2 = .popReturned none →
          (∃ rpos, (Threads.after q past).1.consumer = .loadWritePos rpos) ∧
            popped (Threads.after q past).2 = pushed (Threads.after q past).2 := by
  have hreached := reached_after hnew actions hfew
  have hfront : popped (after q actions).2 <+:
      accepted (after q actions).2 ++ (after q actions).1.inFlight := by
    rw [hreached.consistent.accepted]
    have hout := hreached.consistent.popped
    exact (hout ▸ prefix_append _ _ : _ <+: take _ _).trans ( take_prefix _ _)
  refine ⟨hfront, ?_, hreached.wrote, hreached.consistent.room, ?_⟩
  · intro hidle
    rwa [inFlight, hidle, append_nil] at hfront
  · rintro past a later rfl hevent
    have hpast := reached_after hnew past (lt_of_le_of_lt (pushed_after_append q past (a :: later)) hfew)
    exact hpast.consistent.popReturned_none hevent

def oneCell : SpscQueue Nat :=
  ⟨[none], 1, 0, 0, 0, 0, 0, 0⟩

/-- The `try_pop` returns before the `try_push` of its item. -/
def overtaking : List (Action Nat) :=
  [.tryPush 7, .producer, .producer, .tryPop, .producer, .consumer, .consumer, .consumer, .consumer]

theorem boundedFifo_pop_overtakes :
    popped (Threads.after oneCell overtaking).2 = [7] ∧
      popped (Threads.after oneCell overtaking).2 <+:
        accepted (Threads.after oneCell overtaking).2 ++ (Threads.after oneCell overtaking).1.inFlight := by
  have hnew : new 1 = some oneCell := by
    have hone : nextPowerOfTwo 1 = 1 := by decide +kernel
    rw [new, hone]
    rfl
  exact ⟨by decide, (boundedFifo hnew _ (by decide)).1⟩

end SpscQueue

end Run

end LingVoice.LmCore

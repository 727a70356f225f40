import LingVoice.Lib.Herald
import LingVoice.Lib.Mealy
import Mathlib.Algebra.GroupWithZero.Nat

/-!
# Jitter — the jitter buffer (`pkg/media/jitter.go`)

Packets are kept in `capacity` slots, each in the slot of its 16-bit sequence number modulo the capacity, and are read
in the order of their numbers.  The buffer is used here for a stream of packets `0, 1, 2, …` of any length; packet `i`
has the sequence number `i % 2 ^ 16`.
-/

namespace LingVoice.Media

open Lib Lib.Herald

structure JitterSlot (π : Type) where
  seq : UInt16 := 0
  packet : Option π := none
  filled : Bool := false
  deriving DecidableEq, Repr

/-- The buffer; the capacity is positive, so that every sequence number has a slot. -/
structure JitterBuffer (π : Type) (capacity : Nat) [NeZero capacity] where
  nextSeq : UInt16 := 0
  nextWriteSeq : UInt16 := 0
  slots : Fin capacity → JitterSlot π := fun _ => {}
  lateDrops : Nat := 0
  totalPackets : Nat := 0

namespace JitterBuffer

variable {π : Type} {capacity : Nat} [NeZero capacity]

def slotIndex (capacity : Nat) [NeZero capacity] (seq : UInt16) : Fin capacity :=
  Fin.ofNat capacity seq.toNat

def write (j : JitterBuffer π capacity) (seq : UInt16) (packet : π) : JitterBuffer π capacity × Bool :=
  let idx := slotIndex capacity seq
  if (j.slots idx).filled ∧ (j.slots idx).seq = seq then
    (j, false)
  else
    let diff := (seq - j.nextWriteSeq).toInt16
    if diff < -Int16.ofNat capacity then
      ({ j with lateDrops := j.lateDrops + 1 }, false)
    else
      ({ j with
          slots := Function.update j.slots idx ⟨seq, some packet, true⟩
          totalPackets := j.totalPackets + 1
          nextWriteSeq := if 0 ≤ diff then seq + 1 else j.nextWriteSeq }, true)

/-- The timeout is not used. -/
def read (j : JitterBuffer π capacity) : JitterBuffer π capacity × Option π :=
  let idx := slotIndex capacity j.nextSeq
  let slot := j.slots idx
  if slot.filled ∧ slot.seq = j.nextSeq then
    ({ j with
        slots := Function.update j.slots idx { slot with filled := false, packet := none }
        nextSeq := j.nextSeq + 1 }, slot.packet)
  else
    (j, none)

/-! ## Runs -/

inductive Op
  | write (index : Nat)
  | read
  deriving DecidableEq, Repr

/-- A call with its answer. -/
inductive Event (π : Type)
  | wrote (index : Nat) (accepted : Bool)
  | read (result : Option π)
  deriving DecidableEq, Repr

def step (packet : Nat → π) (j : JitterBuffer π capacity) : Op → JitterBuffer π capacity × Event π
  | .write i => let (j, accepted) := j.write (UInt16.ofNat i) (packet i); (j, .wrote i accepted)
  | .read => let (j, result) := j.read; (j, .read result)

def trace (capacity : Nat) [NeZero capacity] (packet : Nat → π) (ops : List Op) : List (Event π) :=
  (Mealy.run (step packet) ({} : JitterBuffer π capacity) ops).2

/-! ## What a run is to do -/

def Event.result : Event π → Option π
  | .read result => result
  | .wrote _ _ => none

def delivered (past : List (Event π)) : List π :=
  past.filterMap Event.result

def next (past : List (Event π)) : Nat :=
  (delivered past).length

def Written (past : List (Event π)) (i : Nat) : Prop :=
  ∃ accepted, .wrote i accepted ∈ past

/-- Only packets from the next one to be read on are written, and only `capacity` many of them. -/
def Admissible (capacity : Nat) (run : List (Event π)) : Prop :=
  AtEvery (fun past e => ∀ i accepted, e = .wrote i accepted → next past ≤ i ∧ i < next past + capacity) run

/-- The packets come out in order and each once, and reading waits for nothing but the next packet. -/
structure Lossless (packet : Nat → π) (run : List (Event π)) : Prop where
  accepted : AtEvery (fun past e => ∀ i accepted, e = .wrote i accepted → ¬ Written past i → accepted = true) run
  delivered : delivered run = (List.range (next run)).map packet
  patient : AtEvery (fun past e => e = .read none → ¬ Written past (next past)) run

def slotOf (capacity : Nat) [NeZero capacity] (i : Nat) : Fin capacity :=
  slotIndex capacity (UInt16.ofNat i)

/-- The packet that an event puts into the slot. -/
def into (idx : Fin capacity) : Event π → Option Nat
  | .wrote i _ => if slotOf capacity i = idx then some i else none
  | .read _ => none

/-- Whenever a packet is to be read that was written, no other one has been put into its slot since. -/
def Intact (capacity : Nat) [NeZero capacity] (run : List (Event π)) : Prop :=
  AtEvery (fun past e => ∀ result, e = .read result → Written past (next past) →
    latest (into (slotOf capacity (next past))) past = some (next past)) run

end JitterBuffer
end LingVoice.Media

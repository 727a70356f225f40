import LingVoice.LmTransport.Nack
import LingVoice.LmTransport.RtcpRoundTrip

/-!
# Retransmit — the buffer that answers a NACK (`lm-transport/src/retransmit.rs`, `RetransmitBuffer`)

A NACK lists every number it was built from once.  Of two buffered packets with one number the older one is sent again
and the other one never is.
-/

namespace LingVoice.LmTransport

open List

structure RetransmitBuffer where
  /-- Number, packet and time, the oldest first. -/
  buffer : List (UInt16 × Bytes × UInt64)
  maxSize : Nat

namespace RetransmitBuffer

def new (maxSize : Nat) : RetransmitBuffer :=
  ⟨[], maxSize⟩

/-- The loop of `insert`, which does not end for a buffer of size zero. -/
def popOldest (maxSize : Nat) : List (UInt16 × Bytes × UInt64) → List (UInt16 × Bytes × UInt64)
  | [] => []
  | oldest :: rest => if maxSize ≤ rest.length + 1 then popOldest maxSize rest else oldest :: rest

variable (b : RetransmitBuffer) (seq : UInt16)

def insert (packet : Bytes) (timestampMs : UInt64) : RetransmitBuffer :=
  { b with buffer := popOldest b.maxSize b.buffer ++ [(seq, packet, timestampMs)] }

def get : Option Bytes :=
  (b.buffer.find? (·.1 = seq)).map (·.2.1)

def handleNack (nack : NackPacket) : List Bytes :=
  nack.lostSequenceNumbers.filterMap b.get

def held : List Bytes :=
  (b.buffer.filter (·.1 = seq)).map (·.2.1)

theorem get_eq : b.get seq = (b.held seq).head? := by
  rw [get, held, head?_map, head?_filter]

/-- Packing is lossless, and a NACK is answered with the packets that it lists exactly when the buffer has no two packets
with one of the numbers. -/
theorem nack_lossless_iff (missing : List UInt16) (b : RetransmitBuffer) (nack : NackPacket) :
    (missing.Nodup → (NackGenerator.buildNack missing).lostSequenceNumbers.Perm missing) ∧
    (nack.items ≠ [] → nack.items.length ≤ 16000 →
      ((NackPacket.parse nack.encode).map b.handleNack = .ok (nack.lostSequenceNumbers.flatMap b.held) ↔
        ∀ seq ∈ nack.lostSequenceNumbers, (b.held seq).length ≤ 1)) := by
  refine ⟨NackGenerator.lost_buildNack, fun hne hlength => ?_⟩
  rw [NackPacket.parse_encode hne (by rw [NackPacket.length_encode]; omega), Except.map, Except.ok.injEq, handleNack,
    filterMap_eq_flatMap_toList, Lib.flatMap_eq_flatMap_iff]
  · refine forall₂_congr fun seq _ => ?_
    rw [get_eq]
    rcases b.held seq with _ | ⟨packet, _ | ⟨other, rest⟩⟩ <;> simp
  · intro seq _
    rw [get_eq]
    cases b.held seq <;> simp

/-- Two packets with one number. -/
theorem nack_answered_once :
    let b := ((new 2).insert 5 [1] 0).insert 5 [2] 0
    let nack : NackPacket := ⟨0, 0, [⟨5, 0⟩]⟩
    (NackPacket.parse nack.encode).map b.handleNack = .ok [[1]] ∧ nack.lostSequenceNumbers.flatMap b.held = [[1], [2]] := by
  decide +kernel

end RetransmitBuffer

end LingVoice.LmTransport

import LingVoice.Lib.SeqNum
import LingVoice.LmTransport.RtcpRoundTrip
import LingVoice.LmTransport.Twcc
import Mathlib.Data.List.ReduceOption

/-!
# TwccRoundTrip — what a parser reads in a receiver's report

The report announces one byte for each delta and writes two, and its packet count does not count the
packets that are missing, so the parser may stop before the last chunk.  A report is read as it was meant
exactly when both do not show.
-/

namespace LingVoice.LmTransport

open Lib List TwccFeedback Nat

/-! ## Chunks -/

def symbolOf (received : Bool) : UInt16 :=
  if received then 1 else 0

def chunkBytes (rs : List (Bool × Nat)) : Bytes :=
  rs.flatMap fun run => be16 (statusChunk run)

namespace TwccFeedback

variable {rs : List (Bool × Nat)} {data : Bytes} {declared : Nat}

variable (ds : List Int16)

theorem length_deltaBytes : (deltaBytes ds).length = 2 * ds.length :=
  length_flatMap_const (fun _ => length_be16 _) ds

structure Short (fb : TwccFeedback) : Prop where
  chunks : fb.statusChunks.length ≤ 2 ^ 16
  deltas : fb.deltas.length ≤ 2 ^ 15
  referenceTime : fb.referenceTime.toNat < 2 ^ 24

/-- The header is read as it was written. -/
theorem parse_encode {fb : TwccFeedback} (h : Short fb) {chunks : Bytes} {stop : Nat}
    (hloop : statusLoop fb.encode fb.encode.length fb.packetCount.toNat fb.encode.length 20 0 = (chunks, stop)) :
    parse fb.encode = .ok
      { fb with
        statusChunks := chunks
        deltas := deltaLoop fb.encode fb.encode.length chunks stop } := by
  have hchunks := h.chunks
  have hdeltas := h.deltas
  have htime : fb.referenceTime.toNat < 256 ^ 3 := h.referenceTime
  obtain ⟨hlong, hdeclared, hcheck, hfields⟩ := padded_fields fmtTwcc ptRtpfb
    (be32 fb.senderSsrc ++ be32 fb.mediaSsrc ++ be16 fb.baseSeq ++ be16 fb.packetCount ++
      toBe 3 fb.referenceTime.toNat ++ [fb.fbCount] ++ fb.statusChunks ++ deltaBytes fb.deltas)
    (by simp [length_deltaBytes]; omega)
  rw [← encode] at hlong hdeclared hcheck hfields
  simp only [standsAt_append, length_append, length_be32, length_be16, length_toBe, length_singleton, reduceAdd]
    at hlong hfields
  obtain ⟨⟨⟨⟨⟨⟨⟨hsender, hmedia⟩, hbase⟩, hcount⟩, htimestamp⟩, hfbCount⟩, -⟩, -⟩ := hfields
  have hreference := htimestamp.beAt
  rw [mod_eq_of_lt htime] at hreference
  have hpt : checkPt ptRtpfb fb.encode = .ok () := checkPt_finishPacket
  have hfmt : checkFmt fmtTwcc fb.encode = .ok () := checkFmt_finishPacket (by decide)
  rw [parse, checkLength_ok (by omega), hpt, hfmt, hcheck]
  simp only [bind_ok, hdeclared, hsender.u32At, hmedia.u32At, hbase.u16At, hcount.u16At, hreference, hfbCount.byteAt,
    UInt32.ofNat_toNat, hloop]
  rfl

end TwccFeedback

/-! ## The arrays of the builder -/

namespace TwccReceiver

open SeqNum

/-- Packets in the order of their numbers, all among the `k` from `next` on. -/
def Within (next k : Nat) (packets : List (UInt32 × Int)) : Prop :=
  packets.Pairwise (fun p q => p.1 < q.1) ∧ ∀ p ∈ packets, next ≤ p.1.toNat ∧ p.1.toNat < next + k

variable {packets : List (UInt32 × Int)} {next : Nat}

variable {k : Nat} {last : UInt32 × Int}

theorem Within.behind {p : UInt32 × Int} (h : Within next k (p :: packets)) :
    Within (p.1.toNat + 1) (k - (p.1.toNat - next) - 1) packets := by
  obtain ⟨hsorted, hbounds⟩ := h
  obtain ⟨hfirst, hsorted⟩ := pairwise_cons.mp hsorted
  obtain ⟨hp, hbounds⟩ := forall_mem_cons.mp hbounds
  refine ⟨hsorted, fun q hq => ?_⟩
  have hlt := UInt32.lt_iff_toNat_lt.mp (hfirst q hq)
  have hq := hbounds q hq
  omega

/-- The differences of consecutive times in ticks, the first one to the reference time. -/
def ticks : Int → List Int → List Int
  | _, [] => []
  | prev, t :: times => (t - prev).tdiv deltaTickUs :: ticks t times

/-- Packets with different numbers that are near each other, at times whose differences fit 16 bits. -/
structure Recordable (packets : List (UInt32 × Int)) (referenceTimeUs : Int) : Prop where
  distinct : (packets.map Prod.fst).Nodup
  near : ∀ p ∈ packets, ∀ q ∈ packets, p.1.toNat < q.1.toNat + 2 ^ 15
  fits : ∀ d ∈ ticks referenceTimeUs ((sortPackets packets).map Prod.snd), -2 ^ 15 ≤ d ∧ d < 2 ^ 15

def missing (packets : List (UInt32 × Int)) : Nat :=
  (slotsOf (sortPackets packets)).countP Option.isNone

def lastRun (packets : List (UInt32 × Int)) : Nat :=
  ((statusRuns (slotsOf (sortPackets packets))).getLast?.map Prod.snd).getD 0

/-- No packet, or deltas of zero only and so few packets missing that the last chunk is read. -/
def Readable (packets : List (UInt32 × Int)) (referenceTimeUs : Int) : Prop :=
  packets = [] ∨
    (∀ d ∈ ticks referenceTimeUs ((sortPackets packets).map Prod.snd), d = 0) ∧
      missing packets < lastRun packets

section Report

variable {r : TwccReceiver} {referenceTimeUs : Int} (h : Recordable r.packets referenceTimeUs)
  (slots : List (Option Int)) {sorted : List (UInt32 × Int)}

/-- What one knows of the slots of recorded packets. -/
structure Filled (packets : List (UInt32 × Int)) (slots : List (Option Int)) : Prop where
  nonempty : slots ≠ []
  short : slots.length ≤ 2 ^ 15
  times : slots.reduceOption = packets.map Prod.snd
  count : slots.countP Option.isSome = packets.length
  marks : TwccFeedback.markedFrom (seqOf packets.head?) ((slots.map Option.isSome).map symbolOf) =
    packets.map fun p => p.1.toUInt16
  last : packets ≠ [] → (slots.map Option.isSome).getLast? = some true

theorem Filled.length_le {slots : List (Option Int)} (h : Filled sorted slots) : sorted.length ≤ 2 ^ 15 := by
  rw [← h.count]
  exact countP_le_length.trans h.short

include h

end Report

end TwccReceiver

end LingVoice.LmTransport

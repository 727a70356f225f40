import LingVoice.Lib.Fragment
import LingVoice.Lib.SeqNum
import LingVoice.LmCore.Media
import Mathlib.Algebra.Order.Ring.Nat

/-!
# Receive — RTP packets from a packetizer to a depacketizer (`lm-depacketizer/src/lib.rs`, `packetizer.rs`)

What the three video codecs share: the trait `Packetizer`, the check for repeated and late packets, a
network that numbers the packets and drops some of them, and a receiver that calls `take_frame` after
every `FrameComplete`.
-/

namespace LingVoice.LmDepacketizer

open LmCore List Lib Depacketizer

structure RtpPacketOut where
  payload : Bytes
  marker : Bool
  timestamp : UInt32
  deriving DecidableEq, Repr

def rtpMtu : Nat := 1200

/-- The arguments of one call of `packetize`. -/
structure EncodedFrame where
  frameData : Bytes
  timestamp : UInt32
  keyframe : Bool
  deriving DecidableEq, Repr

/-- The trait `Packetizer` for an implementation with state `π`. -/
class Packetizer (π : Type) where
  packetize : π → EncodedFrame → π × List RtpPacketOut

def packetizeAll {π : Type} [Packetizer π] (p : π) (frames : List EncodedFrame) :
    List (List RtpPacketOut) :=
  (Lib.Mealy.run Packetizer.packetize p frames).2

/-- Is the packet a repetition of the last one or older than it?  More than half the range ahead
counts as behind. -/
def isStale (lastSeq : Option UInt16) (sequenceNumber : UInt16) : Bool :=
  match lastSeq with
  | some prev => sequenceNumber - prev == 0 || decide (0x8000 < sequenceNumber - prev)
  | none => false

/-! ## The network and the receiver -/

/-- Packet `n` of the stream travels under the sequence number `n` modulo `2 ^ 16`, when it is kept. -/
def deliver (keep : Nat → Bool) : Nat → List RtpPacketOut → List (UInt16 × RtpPacketOut)
  | _, [] => []
  | n, packet :: rest =>
    if keep n then
      (UInt16.ofNat n, packet) :: deliver keep (n + 1) rest
    else
      deliver keep (n + 1) rest

/-- The answer to a packet, and what `take_frame` returned when the frame was complete. -/
structure Reply where
  result : DepacketizeResult
  frame : Option MediaFrame
  deriving DecidableEq, Repr

def Reply.needMore : Reply := ⟨.needMore, none⟩

def Reply.complete (frame : MediaFrame) : Reply := ⟨.frameComplete, some frame⟩

variable {δ : Type} [Depacketizer δ]

/-- Push a packet, and take the frame when it is complete. -/
def receivePacket (d : δ) (packet : UInt16 × RtpPacketOut) : δ × Reply :=
  match Depacketizer.pushPacket d packet.2.payload packet.2.marker packet.1 packet.2.timestamp with
  | (d, .frameComplete) => ((Depacketizer.takeFrame d).1, ⟨.frameComplete, (Depacketizer.takeFrame d).2⟩)
  | (d, result) => (d, ⟨result, none⟩)

def receiveAll (d : δ) (packets : List (UInt16 × RtpPacketOut)) : δ × List Reply :=
  Lib.Mealy.run receivePacket d packets

variable {d d' : δ} {packet : UInt16 × RtpPacketOut} {n : Nat}

theorem receivePacket_of_frameComplete
    (h : pushPacket d packet.2.payload packet.2.marker packet.1 packet.2.timestamp =
      (d', .frameComplete)) :
    receivePacket d packet = ((takeFrame d').1, ⟨.frameComplete, (takeFrame d').2⟩) := by
  simp only [receivePacket, h]

theorem receivePacket_of_needMore
    (h : pushPacket d packet.2.payload packet.2.marker packet.1 packet.2.timestamp =
      (d', .needMore)) : receivePacket d packet = (d', Reply.needMore) := by
  simp only [receivePacket, h, Reply.needMore]

theorem receivePacket_of_error {message : String}
    (h : pushPacket d packet.2.payload packet.2.marker packet.1 packet.2.timestamp =
      (d', .error message)) : receivePacket d packet = (d', ⟨.error message, none⟩) := by
  simp only [receivePacket, h]

theorem receiveAll_append (d : δ) (before after : List (UInt16 × RtpPacketOut)) :
    receiveAll d (before ++ after) =
      ((receiveAll (receiveAll d before).1 after).1,
        (receiveAll d before).2 ++ (receiveAll (receiveAll d before).1 after).2) :=
  Mealy.run_append receivePacket d before after

/-! ## Delivery -/

section Deliver

variable (keep : Nat → Bool)

theorem deliver_append (n : Nat) (before after : List RtpPacketOut) :
    deliver keep n (before ++ after) = deliver keep n before ++ deliver keep (n + before.length) after := by
  induction before generalizing n with
  | nil => rfl
  | cons packet rest ih =>
    simp only [cons_append, deliver, ih, length_cons]
    rw [show n + 1 + rest.length = n + (rest.length + 1) by omega]
    split <;> rfl

variable {keep}

/-- Packets that all arrive are numbered one after the other. -/
theorem deliver_of_forall {n : Nat} {packets : List RtpPacketOut} (h : ∀ i < packets.length, keep (n + i) = true) :
    deliver keep n packets = (packets.zipIdx n).map fun p => (UInt16.ofNat p.2, p.1) := by
  induction packets generalizing n with
  | nil => rfl
  | cons packet rest ih =>
    have hn : keep n = true := h 0 (by simp)
    have hrest : ∀ i < rest.length, keep (n + 1 + i) = true := by
      intro i hi
      have := h (i + 1) (by simpa using hi)
      rwa [show n + (i + 1) = n + 1 + i by omega] at this
    rw [deliver, if_pos hn, ih hrest]
    rfl

end Deliver

/-! ## Sequence numbers on the receiving side -/

/-- The packet before place `n` was the last one taken. -/
def JustBefore (n : Nat) (lastSeq : Option UInt16) : Prop :=
  ∃ m, n = m + 1 ∧ lastSeq = some (UInt16.ofNat m)

/-- The packet at place `n` is neither a repetition nor late. -/
def Timely (n : Nat) (lastSeq : Option UInt16) : Prop :=
  isStale lastSeq (UInt16.ofNat n) = false

theorem timely_none (n : Nat) : Timely n none :=
  rfl

theorem timely_some {m : Nat} (hlt : m < n) (hle : n ≤ m + 2 ^ 15) : Timely n (some (UInt16.ofNat m)) := by
  have hdiff := SeqNum.toNat_sub_of_le (Nat.le_of_lt hlt) (by omega)
  have hzero : UInt16.ofNat n - UInt16.ofNat m ≠ 0 := by
    intro h
    rw [h, UInt16.toNat_zero] at hdiff
    omega
  have hhalf : ¬ 0x8000 < UInt16.ofNat n - UInt16.ofNat m := by
    rw [UInt16.lt_iff_toNat_lt, hdiff]
    have : (0x8000 : UInt16).toNat = 2 ^ 15 := rfl
    omega
  simp only [Timely, isStale, beq_eq_false_iff_ne.mpr hzero, decide_eq_false hhalf, Bool.or_self]

theorem JustBefore.timely {lastSeq : Option UInt16} (h : JustBefore n lastSeq) : Timely n lastSeq := by
  obtain ⟨m, rfl, rfl⟩ := h
  exact timely_some (Nat.lt_succ_self m) (by omega)

theorem justBefore_succ (n : Nat) : JustBefore (n + 1) (some (UInt16.ofNat n)) :=
  ⟨n, rfl, rfl⟩

/-! ## Frame by frame -/

/-- The answers to the packets of one frame: it is complete with the last one. -/
def frameReplies (packets : List RtpPacketOut) (frame : MediaFrame) : List Reply :=
  Lib.answers Reply.needMore (Reply.complete frame) packets.length

def deliverAll (n : Nat) (packets : List RtpPacketOut) : List (UInt16 × RtpPacketOut) :=
  deliver (fun _ => true) n packets

def numbered (packet : Lib.Fragment UInt8 → RtpPacketOut) (n : Nat) (piece : Lib.Fragment UInt8) :
    UInt16 × RtpPacketOut :=
  (UInt16.ofNat n, packet piece)

/-- All packets of a string in pieces arrive at a depacketizer that puts them together. -/
theorem receiveAll_pieces {packet : Fragment UInt8 → RtpPacketOut} {Ready : Nat → δ → Prop}
    {Holds Done : Nat → Bytes → δ → Prop} {reply : Bytes → Reply}
    (h : Reassembles receivePacket (numbered packet) Ready Holds Done Reply.needMore reply)
    {max start : Nat} (hmax : 0 < max) {data : Bytes} (hstart : start < data.length)
    {keep : Nat → Bool} (hd : Ready n d) {packets : List RtpPacketOut}
    (hpackets : packets = (fragments max start data data.length start).map packet)
    (hkeep : ∀ i < packets.length, keep (n + i) = true) :
    0 < packets.length ∧
      (receiveAll d (deliver keep n packets)).2 =
        answers Reply.needMore (reply (data.drop start)) packets.length ∧
      Done (n + packets.length) (data.drop start) (receiveAll d (deliver keep n packets)).1 := by
  have hinputs : deliver keep n packets =
      ((fragments max start data data.length start).zipIdx n).map
        fun p => numbered packet p.2 p.1 := by
    rw [deliver_of_forall hkeep, hpackets, zipIdx_map, map_map]
    rfl
  have hlength : packets.length = (fragments max start data data.length start).length := by
    rw [hpackets, length_map]
  rw [hinputs, hlength]
  exact h.run_fragments hmax hstart n d hd

/-- A packetizer and a depacketizer undo each other on `frames`: with the last packet of a frame, and
with no other one, the frame comes out; no payload is longer than the limit. -/
structure RoundTrip {π : Type} [Packetizer π] (p : π) (d : δ) (frames : List EncodedFrame)
    (media : List MediaFrame) (n : Nat) : Prop where
  packets_ne_nil : ∀ packets ∈ packetizeAll p frames, packets ≠ []
  payload_le : ∀ packets ∈ packetizeAll p frames, ∀ packet ∈ packets, packet.payload.length ≤ 1200
  replies : (receiveAll d (deliverAll n (packetizeAll p frames).flatten)).2 =
    (List.zipWith frameReplies (packetizeAll p frames) media).flatten

/-- When every frame is answered as it should from a ready state and leaves a ready state behind, so is
a run of frames. -/
theorem roundTrip_of_frame {π : Type} [Packetizer π] (Valid : π → Prop) (Good : EncodedFrame → Prop)
    (Ready : Nat → δ → Prop) {media : EncodedFrame → MediaFrame}
    (hframe : ∀ p frame n d, Valid p → Good frame → Ready n d →
      let packets := (Packetizer.packetize p frame).2
      Valid (Packetizer.packetize p frame).1 ∧ 0 < packets.length ∧
        (∀ packet ∈ packets, packet.payload.length ≤ 1200) ∧
        (receiveAll d (deliverAll n packets)).2 = frameReplies packets (media frame) ∧
        Ready (n + packets.length) (receiveAll d (deliverAll n packets)).1)
    (frames : List EncodedFrame) (hgood : ∀ frame ∈ frames, Good frame) (p : π) (hp : Valid p) (n : Nat)
    (d : δ) (hd : Ready n d) : RoundTrip p d frames (frames.map media) n := by
  induction frames generalizing p n d with
  | nil => exact ⟨by simp [packetizeAll], by simp [packetizeAll], rfl⟩
  | cons frame rest ih =>
    obtain ⟨hfirst, hrest⟩ := forall_mem_cons.mp hgood
    obtain ⟨hvalid, hpos, hle, hout, hready⟩ := hframe p frame n d hp hfirst hd
    obtain ⟨hnes, hles, houts⟩ := ih hrest _ hvalid _ _ hready
    have hall : packetizeAll p (frame :: rest) =
        (Packetizer.packetize p frame).2 :: packetizeAll (Packetizer.packetize p frame).1 rest := rfl
    refine ⟨?_, ?_, ?_⟩
    · rw [hall]
      exact forall_mem_cons.mpr ⟨ne_nil_of_length_pos hpos, hnes⟩
    · rw [hall]
      exact forall_mem_cons.mpr ⟨hle, hles⟩
    · rw [hall, map_cons, zipWith_cons_cons, flatten_cons, flatten_cons, deliverAll, deliver_append, receiveAll_append]
      exact congrArg₂ (· ++ ·) hout houts

end LingVoice.LmDepacketizer

import LingVoice.Lib.Endian
import LingVoice.LmDepacketizer.Receive
import Mathlib.Data.List.Basic

/-!
# Vp9 — VP9 over RTP (`lm-depacketizer/src/lib.rs`, `packetizer.rs`)

The descriptor holds the marks of the first and the last packet of a frame, the keyframe flag and a
picture id of one or two bytes.
-/

namespace LingVoice.LmDepacketizer

open LmCore List Lib

structure Vp9Descriptor where
  descriptorLen : Nat
  beginningOfFrame : Bool
  endOfFrame : Bool
  isKeyframe : Bool
  deriving DecidableEq, Repr

/-- The offset behind the picture id; only its first byte has to be there yet. -/
def vp9PictureIdEnd (payload : Bytes) : Option Nat :=
  match payload[1]? with
  | none => none
  | some picIdByte => some (if picIdByte &&& 0x80 != 0 then 3 else 2)

def vp9ParseDescriptor (payload : Bytes) : Option Vp9Descriptor :=
  match payload with
  | [] => none
  | flags :: _ =>
    match if flags &&& 0x80 != 0 then vp9PictureIdEnd payload else some 1 with
    | none => none
    | some offset =>
      -- the layer indices: one byte in flexible mode, else two
      let offset :=
        if flags &&& 0x20 != 0 then
          if flags &&& 0x10 != 0 then offset + 1 else offset + 2
        else
          offset
      if payload.length < offset then
        none
      else
        some
          { descriptorLen := offset
            beginningOfFrame := flags &&& 0x04 != 0
            endOfFrame := flags &&& 0x02 != 0
            isKeyframe := flags &&& 0x01 == 0 }

/-! ## The depacketizer -/

structure Vp9Depacketizer where
  frameBuffer : Bytes
  lastSeq : Option UInt16
  currentTimestamp : UInt32
  currentSsrc : UInt32
  frameStarted : Bool
  isKeyframe : Bool
  deriving DecidableEq, Repr

namespace Vp9Depacketizer

def new : Vp9Depacketizer :=
  { frameBuffer := []
    lastSeq := none
    currentTimestamp := 0
    currentSsrc := 0
    frameStarted := false
    isKeyframe := false }

def beginFrame (d : Vp9Depacketizer) (desc : Vp9Descriptor) (timestamp : UInt32) : Vp9Depacketizer :=
  { d with
    frameBuffer := []
    currentTimestamp := timestamp
    frameStarted := true
    isKeyframe := desc.isKeyframe }

def acceptPacket (d : Vp9Depacketizer) (desc : Vp9Descriptor) (payload : Bytes) (marker : Bool)
    (sequenceNumber : UInt16) (timestamp : UInt32) : Vp9Depacketizer × DepacketizeResult :=
  let d := { d with lastSeq := some sequenceNumber }
  let d := if desc.beginningOfFrame then d.beginFrame desc timestamp else d
  if !d.frameStarted then
    (d, .error "VP9: packet before frame start")
  else
    let d := { d with frameBuffer := d.frameBuffer ++ payload.drop desc.descriptorLen }
    if (desc.endOfFrame || marker) && !d.frameBuffer.isEmpty then
      (d, .frameComplete)
    else
      (d, .needMore)

def pushPacket (d : Vp9Depacketizer) (payload : Bytes) (marker : Bool) (sequenceNumber : UInt16)
    (timestamp : UInt32) : Vp9Depacketizer × DepacketizeResult :=
  match vp9ParseDescriptor payload with
  | none => (d, .error "failed to parse VP9 descriptor")
  | some desc =>
    if isStale d.lastSeq sequenceNumber then
      (d, .needMore)
    else
      d.acceptPacket desc payload marker sequenceNumber timestamp

def takeFrame (d : Vp9Depacketizer) : Vp9Depacketizer × Option MediaFrame :=
  if d.frameBuffer.isEmpty || !d.frameStarted then
    (d, none)
  else
    ({ d with frameBuffer := [], frameStarted := false },
      some (MediaFrame.video .vp9 d.currentTimestamp d.frameBuffer d.currentSsrc d.isKeyframe))

def reset (_ : Vp9Depacketizer) : Vp9Depacketizer :=
  new

instance : Depacketizer Vp9Depacketizer where
  pushPacket := pushPacket
  takeFrame := takeFrame
  reset := reset

end Vp9Depacketizer

/-! ## The packetizer -/

structure Vp9Packetizer where
  mtu : Nat
  pictureId : UInt16
  deriving DecidableEq, Repr

namespace Vp9Packetizer

def new : Vp9Packetizer := { mtu := rtpMtu, pictureId := 0 }

/-- The first byte of the descriptor: I always, P and V for an inter frame, B and E. -/
def descriptorFlags (keyframe beginning ending : Bool) : UInt8 :=
  0x80 ||| (if keyframe then 0 else 0x40) ||| (if beginning then 0x04 else 0) |||
    (if ending then 0x02 else 0) ||| (if keyframe then 0 else 0x01)

def buildDescriptor (keyframe beginning ending : Bool) (pictureId : UInt16) : Bytes :=
  descriptorFlags keyframe beginning ending ::
    if 127 < pictureId then
      [(pictureId >>> 8).toUInt8 ||| 0x80, (pictureId &&& 0xFF).toUInt8]
    else
      [(pictureId &&& 0x7F).toUInt8]

def packet (keyframe : Bool) (pictureId : UInt16) (timestamp : UInt32) (piece : Lib.Fragment UInt8) :
    RtpPacketOut :=
  { payload := buildDescriptor keyframe piece.isFirst piece.isLast pictureId ++ piece.chunk
    marker := piece.isLast
    timestamp := timestamp }

def packetize (p : Vp9Packetizer) (frame : EncodedFrame) : Vp9Packetizer × List RtpPacketOut :=
  let p' := { p with pictureId := (p.pictureId + 1) &&& 0x7FFF }
  -- room for the longest descriptor is left in every packet
  let maxPayload := p.mtu - 4
  if frame.frameData.length ≤ maxPayload then
    (p', [{ payload := buildDescriptor frame.keyframe true true p.pictureId ++ frame.frameData
            marker := true
            timestamp := frame.timestamp }])
  else
    (p', (Lib.fragments maxPayload 0 frame.frameData frame.frameData.length 0).map
      (packet frame.keyframe p.pictureId frame.timestamp))

instance : Packetizer Vp9Packetizer where
  packetize := packetize

variable (p : Vp9Packetizer)

@[simp] theorem packetize_mtu (frame : EncodedFrame) : (p.packetize frame).1.mtu = p.mtu := by
  rw [packetize]
  split <;> rfl

/-- A frame that fits in one packet is the case of one piece. -/
theorem packetize_eq (frame : EncodedFrame) (h : frame.frameData ≠ []) :
    (p.packetize frame).2 =
      (fragments (p.mtu - 4) 0 frame.frameData frame.frameData.length 0).map
        (packet frame.keyframe p.pictureId frame.timestamp) := by
  rw [packetize]
  split
  next hfits =>
    rw [fragments_whole h hfits]
    rfl
  next => rfl

theorem exists_piece_of_mem (hmtu : 4 < p.mtu) (frame : EncodedFrame)
    (h : frame.frameData ≠ []) {out : RtpPacketOut} (hout : out ∈ (p.packetize frame).2) :
    ∃ piece : Fragment UInt8, piece.chunk ≠ [] ∧ out = packet frame.keyframe p.pictureId frame.timestamp piece ∧
      out.payload.length ≤ p.mtu := by
  rw [p.packetize_eq frame h] at hout
  obtain ⟨piece, hpiece, rfl⟩ := mem_map.mp hout
  obtain ⟨hshort, hchunk⟩ := chunk_of_mem hpiece
  have hdescriptor : (buildDescriptor frame.keyframe piece.isFirst piece.isLast p.pictureId).length ≤ 3 := by
    rw [buildDescriptor]
    split <;> simp
  refine ⟨piece, hchunk (by omega), rfl, ?_⟩
  simp only [packet, length_append]
  omega

/-! ### The depacketizer strips exactly the descriptor -/

theorem descriptorFlags_bits (keyframe beginning ending : Bool) :
    let flags := descriptorFlags keyframe beginning ending
    (flags &&& 0x80 != 0) = true ∧ (flags &&& 0x20 != 0) = false ∧ (flags &&& 0x04 != 0) = beginning ∧
      (flags &&& 0x02 != 0) = ending ∧ (flags &&& 0x01 == 0) = keyframe := by
  revert keyframe beginning ending
  decide

theorem marked_byte (b : UInt8) : ((b ||| 0x80) &&& 0x80 != 0) = true := by
  revert b
  exact forall_byte (by decide +kernel)

theorem unmarked_byte (b : UInt8) : b &&& 0x7F &&& 0x80 = 0 := by
  revert b
  exact forall_byte (by decide +kernel)

theorem vp9ParseDescriptor_buildDescriptor (keyframe beginning ending : Bool) (pictureId : UInt16)
    (chunk : Bytes) :
    vp9ParseDescriptor (buildDescriptor keyframe beginning ending pictureId ++ chunk) =
      some
        { descriptorLen := (buildDescriptor keyframe beginning ending pictureId).length
          beginningOfFrame := beginning
          endOfFrame := ending
          isKeyframe := keyframe } := by
  obtain ⟨hi, hl, hb, he, hv⟩ := descriptorFlags_bits keyframe beginning ending
  rw [buildDescriptor]
  split
  next hlong =>
    simp [vp9ParseDescriptor, vp9PictureIdEnd, hi, hl, hb, he, hv, marked_byte]
  next hshort =>
    simp [vp9ParseDescriptor, vp9PictureIdEnd, hi, hl, hb, he, hv, unmarked_byte]

end Vp9Packetizer

/-! ## One frame through both -/

namespace Vp9Depacketizer

def mediaFrame (keyframe : Bool) (timestamp : UInt32) (data : Bytes) : MediaFrame :=
  MediaFrame.video .vp9 timestamp data 0 keyframe

def collect (d : Vp9Depacketizer) (keyframe : Bool) (timestamp : UInt32) (n : Nat)
    (piece : Lib.Fragment UInt8) : Vp9Depacketizer :=
  { d with
    lastSeq := some (UInt16.ofNat n)
    frameBuffer := (if piece.isFirst then [] else d.frameBuffer) ++ piece.chunk
    currentTimestamp := if piece.isFirst then timestamp else d.currentTimestamp
    frameStarted := true
    isKeyframe := if piece.isFirst then keyframe else d.isKeyframe }

section Packet

variable {d : Vp9Depacketizer} {n : Nat} (h : Timely n d.lastSeq) (keyframe : Bool) (pictureId : UInt16)
  (timestamp : UInt32)

include h

theorem pushPacket_packet (piece : Fragment UInt8) :
    d.pushPacket (Vp9Packetizer.packet keyframe pictureId timestamp piece).payload piece.isLast
        (UInt16.ofNat n) timestamp =
      d.acceptPacket
        { descriptorLen :=
            (Vp9Packetizer.buildDescriptor keyframe piece.isFirst piece.isLast pictureId).length
          beginningOfFrame := piece.isFirst
          endOfFrame := piece.isLast
          isKeyframe := keyframe }
        (Vp9Packetizer.packet keyframe pictureId timestamp piece).payload piece.isLast (UInt16.ofNat n)
        timestamp := by
  have hstale : isStale d.lastSeq (UInt16.ofNat n) = false := h
  rw [pushPacket]
  simp only [Vp9Packetizer.packet, Vp9Packetizer.vp9ParseDescriptor_buildDescriptor, hstale,
    Bool.false_eq_true, if_false]

theorem pushPacket_started {piece : Fragment UInt8} (hchunk : piece.chunk ≠ [])
    (hstarted : piece.isFirst = true ∨ d.frameStarted = true) :
    d.pushPacket (Vp9Packetizer.packet keyframe pictureId timestamp piece).payload piece.isLast
        (UInt16.ofNat n) timestamp =
      (d.collect keyframe timestamp n piece, if piece.isLast then .frameComplete else .needMore) := by
  rw [pushPacket_packet h]
  obtain ⟨first, last, chunk⟩ := piece
  have hne : chunk ≠ [] := hchunk
  cases first with
  | true =>
    cases last <;> simp [acceptPacket, beginFrame, collect, Vp9Packetizer.packet, hne]
  | false =>
    have hd : d.frameStarted = true := by simpa using hstarted
    cases last <;> simp [acceptPacket, collect, Vp9Packetizer.packet, hne, hd]

variable {first : Bool} {chunk : Bytes}

theorem receivePacket_more (hchunk : chunk ≠ []) (hstarted : first = true ∨ d.frameStarted = true) :
    receivePacket d (numbered (Vp9Packetizer.packet keyframe pictureId timestamp) n
        ⟨first, false, chunk⟩) = (d.collect keyframe timestamp n ⟨first, false, chunk⟩, Reply.needMore) :=
  receivePacket_of_needMore (pushPacket_started h keyframe pictureId timestamp hchunk hstarted)

/-- The last piece of a frame that has begun gives the frame out. -/
theorem receivePacket_last (hchunk : chunk ≠ []) (hstarted : first = true ∨ d.frameStarted = true) :
    let d' := d.collect keyframe timestamp n ⟨first, true, chunk⟩
    receivePacket d (numbered (Vp9Packetizer.packet keyframe pictureId timestamp) n ⟨first, true, chunk⟩) =
      ({ d' with frameBuffer := [], frameStarted := false },
        Reply.complete (MediaFrame.video .vp9 d'.currentTimestamp d'.frameBuffer d'.currentSsrc
          d'.isKeyframe)) := by
  intro d'
  have hbuffer : d'.frameBuffer.isEmpty = false := by simp [d', collect, hchunk]
  have htake : Depacketizer.takeFrame d' = d'.takeFrame := rfl
  rw [receivePacket_of_frameComplete (pushPacket_started h keyframe pictureId timestamp hchunk hstarted),
    htake, takeFrame, hbuffer]
  rfl

end Packet

structure Ready (n : Nat) (d : Vp9Depacketizer) : Prop where
  timely : Timely n d.lastSeq
  ssrc : d.currentSsrc = 0

structure Holds (keyframe : Bool) (timestamp : UInt32) (n : Nat) (held : Bytes)
    (d : Vp9Depacketizer) : Prop where
  justBefore : JustBefore n d.lastSeq
  ssrc : d.currentSsrc = 0
  buffer : d.frameBuffer = held
  timestamp : d.currentTimestamp = timestamp
  isKeyframe : d.isKeyframe = keyframe
  started : d.frameStarted = true

structure Done (n : Nat) (_data : Bytes) (d : Vp9Depacketizer) : Prop where
  justBefore : JustBefore n d.lastSeq
  ssrc : d.currentSsrc = 0
  stopped : d.frameStarted = false

variable {n : Nat} {d : Vp9Depacketizer}

theorem Done.ready {data : Bytes} (h : Done n data d) : Ready n d :=
  ⟨h.justBefore.timely, h.ssrc⟩

theorem reassembles (keyframe : Bool) (pictureId : UInt16) (timestamp : UInt32) :
    Reassembles receivePacket (numbered (Vp9Packetizer.packet keyframe pictureId timestamp)) Ready
      (Holds keyframe timestamp) Done Reply.needMore
      (fun data => Reply.complete (mediaFrame keyframe timestamp data)) where
  first n d chunk hchunk hd := by
    rw [receivePacket_more hd.timely keyframe pictureId timestamp hchunk (.inl rfl)]
    exact ⟨rfl, justBefore_succ n, hd.ssrc, rfl, rfl, rfl, rfl⟩
  whole n d chunk hchunk hd := by
    rw [receivePacket_last hd.timely keyframe pictureId timestamp hchunk (.inl rfl)]
    refine ⟨?_, justBefore_succ n, hd.ssrc, rfl⟩
    simp only [collect, if_true, nil_append, hd.ssrc, mediaFrame]
  inner n held d chunk hchunk hd := by
    rw [receivePacket_more hd.justBefore.timely keyframe pictureId timestamp hchunk (.inr hd.started)]
    refine ⟨rfl, justBefore_succ n, hd.ssrc, ?_, hd.timestamp, hd.isKeyframe, rfl⟩
    exact congrArg (· ++ chunk) hd.buffer
  last n held d chunk hchunk hd := by
    rw [receivePacket_last hd.justBefore.timely keyframe pictureId timestamp hchunk (.inr hd.started)]
    refine ⟨?_, justBefore_succ n, hd.ssrc, rfl⟩
    simp only [collect, Bool.false_eq_true, if_false, hd.ssrc, hd.buffer, hd.timestamp, hd.isKeyframe, mediaFrame]

theorem ready_new (n : Nat) : Ready n new :=
  ⟨timely_none n, rfl⟩

/-- A frame whose packets all arrive is given out with the last one. -/
theorem receiveAll_packetize {frame : EncodedFrame} (hne : frame.frameData ≠ [])
    (hd : Ready n d) (p : Vp9Packetizer) (keep : Nat → Bool) (hmtu : 4 < p.mtu)
    (hkeep : ∀ i < (p.packetize frame).2.length, keep (n + i) = true) :
    let packets := (p.packetize frame).2
    0 < packets.length ∧
      (receiveAll d (deliver keep n packets)).2 =
        frameReplies packets (mediaFrame frame.keyframe frame.timestamp frame.frameData) ∧
      Done (n + packets.length) frame.frameData (receiveAll d (deliver keep n packets)).1 := by
  intro packets
  exact receiveAll_pieces (reassembles frame.keyframe p.pictureId frame.timestamp) (by omega)
    (length_pos_of_ne_nil hne) hd (p.packetize_eq frame hne) hkeep

end Vp9Depacketizer

end LingVoice.LmDepacketizer

import LingVoice.Lib.Field
import LingVoice.LmDepacketizer.Receive

/-!
# Vp8 — VP8 over RTP (`lm-depacketizer/src/lib.rs`, `packetizer.rs`)

A payload is a descriptor and a piece of the frame.  The packetizer writes a descriptor of one byte; the
depacketizer also reads the extended ones.
-/

namespace LingVoice.LmDepacketizer

open LmCore List Lib

structure Vp8Descriptor where
  descriptorLen : Nat
  startOfPartition : Bool
  partitionIndex : UInt8
  deriving DecidableEq, Repr

/-- Step over the byte at `i` when `present`; `none` when the payload ends before it. -/
def skipByte (payload : Bytes) (present : Bool) (i : Nat) : Option Nat :=
  if present then
    if payload.length ≤ i then none else some (i + 1)
  else
    some i

/-- The extension byte at `1` and what it announces: the length of the descriptor. -/
def vp8ExtensionLen (payload : Bytes) : Option Nat := do
  let ext ← payload[1]?
  let i ←
    if ext &&& 0x80 != 0 then do
      -- the picture id has a second byte when its first one says so
      let picIdFirst ← payload[2]?
      skipByte payload (picIdFirst &&& 0x80 != 0) 3
    else
      some 2
  let i ← skipByte payload (ext &&& 0x40 != 0) i
  skipByte payload (ext &&& 0x20 != 0 || ext &&& 0x10 != 0) i

def vp8ParseDescriptor (payload : Bytes) : Option Vp8Descriptor :=
  match payload with
  | [] => none
  | first :: _ => do
      let len ← if first &&& 0x80 != 0 then vp8ExtensionLen payload else some 1
      some
        { descriptorLen := len
          startOfPartition := first &&& 0x10 != 0
          partitionIndex := first &&& 0x0f }

/-! ## The depacketizer -/

structure Vp8Depacketizer where
  frameBuffer : Bytes
  lastSeq : Option UInt16
  currentTimestamp : UInt32
  currentSsrc : UInt32
  frameStarted : Bool
  deriving DecidableEq, Repr

/-- The frame tag says whether the frame is a keyframe: the low bit of its first byte. -/
def vp8IsKeyframe (data : Bytes) : Bool :=
  match data with
  | [] => false
  | tag :: _ => tag &&& 0x01 == 0

/-- Width and height in the header of a keyframe. -/
def vp8ExtractDimensions (frame : Bytes) : Option (UInt16 × UInt16) :=
  if frame.length < 10 then
    none
  else if Lib.byteAt frame 0 &&& 0x01 ≠ 0 then
    none
  else if Lib.byteAt frame 3 ≠ 0x9d ∨ Lib.byteAt frame 4 ≠ 0x01 ∨ Lib.byteAt frame 5 ≠ 0x2a then
    none
  else
    let width := UInt16.ofNat (Lib.ofLe ((frame.drop 6).take 2)) &&& 0x3fff
    let height := UInt16.ofNat (Lib.ofLe ((frame.drop 8).take 2)) &&& 0x3fff
    if width = 0 ∨ height = 0 then none else some (width, height)

namespace Vp8Depacketizer

def new : Vp8Depacketizer :=
  { frameBuffer := [], lastSeq := none, currentTimestamp := 0, currentSsrc := 0, frameStarted := false }

def beginFrame (d : Vp8Depacketizer) (timestamp : UInt32) : Vp8Depacketizer :=
  { d with frameBuffer := [], currentTimestamp := timestamp, frameStarted := true }

def acceptPacket (d : Vp8Depacketizer) (desc : Vp8Descriptor) (payload : Bytes) (marker : Bool)
    (sequenceNumber : UInt16) (timestamp : UInt32) : Vp8Depacketizer × DepacketizeResult :=
  let d := { d with lastSeq := some sequenceNumber }
  let d := if desc.startOfPartition && desc.partitionIndex == 0 then d.beginFrame timestamp else d
  let d := { d with frameBuffer := d.frameBuffer ++ payload.drop desc.descriptorLen }
  if marker && !d.frameBuffer.isEmpty then
    (d, .frameComplete)
  else
    (d, .needMore)

def pushPacket (d : Vp8Depacketizer) (payload : Bytes) (marker : Bool) (sequenceNumber : UInt16)
    (timestamp : UInt32) : Vp8Depacketizer × DepacketizeResult :=
  match vp8ParseDescriptor payload with
  | none => (d, .error "failed to parse VP8 descriptor")
  | some desc =>
    if isStale d.lastSeq sequenceNumber then
      (d, .needMore)
    else
      d.acceptPacket desc payload marker sequenceNumber timestamp

def takeFrame (d : Vp8Depacketizer) : Vp8Depacketizer × Option MediaFrame :=
  if d.frameBuffer.isEmpty || !d.frameStarted then
    (d, none)
  else
    ({ d with frameBuffer := [], frameStarted := false },
      some (MediaFrame.video .vp8 d.currentTimestamp d.frameBuffer d.currentSsrc
        (vp8IsKeyframe d.frameBuffer)))

def reset (d : Vp8Depacketizer) : Vp8Depacketizer :=
  { d with frameBuffer := [], frameStarted := false, lastSeq := none }

instance : Depacketizer Vp8Depacketizer where
  pushPacket := pushPacket
  takeFrame := takeFrame
  reset := reset

end Vp8Depacketizer

/-! ## The packetizer -/

structure Vp8Packetizer where
  mtu : Nat
  deriving DecidableEq, Repr

namespace Vp8Packetizer

def new : Vp8Packetizer := { mtu := rtpMtu }

/-- One turn of the loop: the S bit stands in the first packet only, the marker in the last. -/
def packet (timestamp : UInt32) (piece : Lib.Fragment UInt8) : RtpPacketOut :=
  { payload := (if piece.isFirst then 0x10 else 0x00) :: piece.chunk
    marker := piece.isLast
    timestamp := timestamp }

def packetize (p : Vp8Packetizer) (frame : EncodedFrame) : Vp8Packetizer × List RtpPacketOut :=
  let maxPayload := p.mtu - 1
  if frame.frameData.length ≤ maxPayload then
    (p, [{ payload := 0x10 :: frame.frameData, marker := true, timestamp := frame.timestamp }])
  else
    (p, (Lib.fragments maxPayload 0 frame.frameData frame.frameData.length 0).map
      (packet frame.timestamp))

instance : Packetizer Vp8Packetizer where
  packetize := packetize

variable (p : Vp8Packetizer)

/-- A frame that fits in one packet is the case of one piece. -/
theorem packetize_eq (frame : EncodedFrame) (h : frame.frameData ≠ []) :
    p.packetize frame =
      (p, (fragments (p.mtu - 1) 0 frame.frameData frame.frameData.length 0).map (packet frame.timestamp)) := by
  rw [packetize]
  split
  next hfits =>
    rw [fragments_whole h hfits]
    rfl
  next => rfl

theorem vp8ParseDescriptor_packet (timestamp : UInt32) (piece : Fragment UInt8) :
    vp8ParseDescriptor (packet timestamp piece).payload =
      some { descriptorLen := 1, startOfPartition := piece.isFirst, partitionIndex := 0 } := by
  obtain ⟨first, last, chunk⟩ := piece
  have hs : ((0x10 : UInt8) &&& 0x80 != 0) = false ∧ ((0x10 : UInt8) &&& 0x10 != 0) = true ∧
      (0x10 : UInt8) &&& 0x0f = 0 := by decide
  have hc : ((0x00 : UInt8) &&& 0x80 != 0) = false ∧ ((0x00 : UInt8) &&& 0x10 != 0) = false ∧
      (0x00 : UInt8) &&& 0x0f = 0 := by decide
  cases first with
  | false => simp only [vp8ParseDescriptor, packet, Bool.false_eq_true, if_false, hc]; rfl
  | true => simp only [vp8ParseDescriptor, packet, if_true, Bool.false_eq_true, if_false, hs]; rfl

theorem exists_piece_of_mem (hmtu : 1 < p.mtu) (frame : EncodedFrame)
    (h : frame.frameData ≠ []) {out : RtpPacketOut} (hout : out ∈ (p.packetize frame).2) :
    ∃ piece : Fragment UInt8, piece.chunk ≠ [] ∧ out = packet frame.timestamp piece ∧ out.payload.length ≤ p.mtu := by
  rw [p.packetize_eq frame h] at hout
  obtain ⟨piece, hpiece, rfl⟩ := mem_map.mp hout
  obtain ⟨hshort, hchunk⟩ := chunk_of_mem hpiece
  refine ⟨piece, hchunk (by omega), rfl, ?_⟩
  simp only [packet, length_cons]
  omega

end Vp8Packetizer

/-! ## One frame through both -/

namespace Vp8Depacketizer

def mediaFrame (timestamp : UInt32) (data : Bytes) : MediaFrame :=
  MediaFrame.video .vp8 timestamp data 0 (vp8IsKeyframe data)

def collect (d : Vp8Depacketizer) (timestamp : UInt32) (n : Nat) (piece : Lib.Fragment UInt8) :
    Vp8Depacketizer :=
  { d with
    lastSeq := some (UInt16.ofNat n)
    frameBuffer := (if piece.isFirst then [] else d.frameBuffer) ++ piece.chunk
    currentTimestamp := if piece.isFirst then timestamp else d.currentTimestamp
    frameStarted := piece.isFirst || d.frameStarted }

variable {n : Nat} {d : Vp8Depacketizer}

theorem pushPacket_packet (h : Timely n d.lastSeq) (timestamp : UInt32)
    {piece : Fragment UInt8} (hchunk : piece.chunk ≠ []) :
    d.pushPacket (Vp8Packetizer.packet timestamp piece).payload piece.isLast (UInt16.ofNat n) timestamp =
      (d.collect timestamp n piece, if piece.isLast then .frameComplete else .needMore) := by
  have hstale : isStale d.lastSeq (UInt16.ofNat n) = false := h
  obtain ⟨first, last, chunk⟩ := piece
  have hne : chunk ≠ [] := hchunk
  rw [pushPacket, Vp8Packetizer.vp8ParseDescriptor_packet]
  simp only [hstale, acceptPacket, Vp8Packetizer.packet, drop_one, tail_cons]
  cases first <;> cases last <;> simp [beginFrame, collect, hne]

theorem receivePacket_more (h : Timely n d.lastSeq) (timestamp : UInt32)
    (first : Bool) {chunk : Bytes} (hchunk : chunk ≠ []) :
    receivePacket d (numbered (Vp8Packetizer.packet timestamp) n ⟨first, false, chunk⟩) =
      (d.collect timestamp n ⟨first, false, chunk⟩, Reply.needMore) :=
  receivePacket_of_needMore (pushPacket_packet h timestamp hchunk)

/-- The last piece of a frame that has begun gives the frame out. -/
theorem receivePacket_last (h : Timely n d.lastSeq) (timestamp : UInt32)
    (first : Bool) {chunk : Bytes} (hchunk : chunk ≠ [])
    (hstarted : (d.collect timestamp n ⟨first, true, chunk⟩).frameStarted = true) :
    let d' := d.collect timestamp n ⟨first, true, chunk⟩
    receivePacket d (numbered (Vp8Packetizer.packet timestamp) n ⟨first, true, chunk⟩) =
      ({ d' with frameBuffer := [], frameStarted := false },
        Reply.complete (MediaFrame.video .vp8 d'.currentTimestamp d'.frameBuffer d'.currentSsrc
          (vp8IsKeyframe d'.frameBuffer))) := by
  intro d'
  have hbuffer : d'.frameBuffer.isEmpty = false := by simp [d', collect, hchunk]
  have htake : Depacketizer.takeFrame d' = d'.takeFrame := rfl
  have hstarted' : d'.frameStarted = true := hstarted
  rw [receivePacket_of_frameComplete (pushPacket_packet h timestamp hchunk), htake, takeFrame, hbuffer, hstarted']
  rfl

structure Ready (n : Nat) (d : Vp8Depacketizer) : Prop where
  timely : Timely n d.lastSeq
  ssrc : d.currentSsrc = 0

structure Holds (timestamp : UInt32) (n : Nat) (held : Bytes) (d : Vp8Depacketizer) : Prop where
  justBefore : JustBefore n d.lastSeq
  ssrc : d.currentSsrc = 0
  buffer : d.frameBuffer = held
  timestamp : d.currentTimestamp = timestamp
  started : d.frameStarted = true

structure Done (n : Nat) (_data : Bytes) (d : Vp8Depacketizer) : Prop where
  justBefore : JustBefore n d.lastSeq
  ssrc : d.currentSsrc = 0

theorem Done.ready {data : Bytes} (h : Done n data d) : Ready n d :=
  ⟨h.justBefore.timely, h.ssrc⟩

theorem reassembles (timestamp : UInt32) :
    Reassembles receivePacket (numbered (Vp8Packetizer.packet timestamp)) Ready (Holds timestamp) Done
      Reply.needMore (fun data => Reply.complete (mediaFrame timestamp data)) where
  first n d chunk hchunk hd := by
    rw [receivePacket_more hd.timely timestamp true hchunk]
    exact ⟨rfl, justBefore_succ n, hd.ssrc, rfl, rfl, rfl⟩
  whole n d chunk hchunk hd := by
    rw [receivePacket_last hd.timely timestamp true hchunk rfl]
    refine ⟨?_, justBefore_succ n, hd.ssrc⟩
    simp only [collect, if_true, nil_append, hd.ssrc, mediaFrame]
  inner n held d chunk hchunk hd := by
    rw [receivePacket_more hd.justBefore.timely timestamp false hchunk]
    refine ⟨rfl, justBefore_succ n, hd.ssrc, ?_, hd.timestamp, hd.started⟩
    exact congrArg (· ++ chunk) hd.buffer
  last n held d chunk hchunk hd := by
    rw [receivePacket_last hd.justBefore.timely timestamp false hchunk hd.started]
    refine ⟨?_, justBefore_succ n, hd.ssrc⟩
    simp only [collect, Bool.false_eq_true, if_false, hd.ssrc, hd.buffer, hd.timestamp, mediaFrame]

theorem ready_new (n : Nat) : Ready n new :=
  ⟨timely_none n, rfl⟩

/-- A frame whose packets all arrive is given out with the last one. -/
theorem receiveAll_packetize {frame : EncodedFrame} (hne : frame.frameData ≠ [])
    (hd : Ready n d) (p : Vp8Packetizer) (keep : Nat → Bool) (hmtu : 1 < p.mtu)
    (hkeep : ∀ i < (p.packetize frame).2.length, keep (n + i) = true) :
    let packets := (p.packetize frame).2
    0 < packets.length ∧
      (receiveAll d (deliver keep n packets)).2 =
        frameReplies packets (mediaFrame frame.timestamp frame.frameData) ∧
      Done (n + packets.length) frame.frameData (receiveAll d (deliver keep n packets)).1 := by
  intro packets
  have hpackets := congrArg Prod.snd (p.packetize_eq frame hne)
  exact receiveAll_pieces (reassembles frame.timestamp) (by omega) (length_pos_of_ne_nil hne) hd
    hpackets hkeep

end Vp8Depacketizer

end LingVoice.LmDepacketizer

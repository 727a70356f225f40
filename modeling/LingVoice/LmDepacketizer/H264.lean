import LingVoice.Lib.AnnexB
import LingVoice.Lib.Field
import LingVoice.LmDepacketizer.Receive

/-!
# H264 — H.264 over RTP (`lm-depacketizer/src/lib.rs`, `packetizer.rs`)

The packetizer cuts an Annex B frame into NAL units; a unit that does not fit in a packet goes out as
FU-A fragments.  The depacketizer takes single units, STAP-A aggregates and FU-A fragments.
-/

namespace LingVoice.LmDepacketizer

open LmCore List

def h264NaluType (nalu : Bytes) : UInt8 :=
  match nalu with
  | [] => 0
  | b :: _ => b &&& 0x1f

/-! ## The start code scanner -/

/-- The inner loop of `split_annexb_nalus`: the bytes before the next start code, or all of them. -/
def naluEnd : Bytes → Nat
  | 0 :: 0 :: 1 :: _ => 0
  | 0 :: 0 :: 0 :: 1 :: _ => 0
  | _ :: rest => naluEnd rest + 1
  | [] => 0

/-- The outer loop of `split_annexb_nalus`: bytes before a start code are passed over, an empty unit is
dropped. -/
def splitNalus : Nat → Bytes → List Bytes
  | 0, _ => []
  | fuel + 1, 0 :: 0 :: 0 :: 1 :: rest =>
    if 0 < naluEnd rest then
      rest.take (naluEnd rest) :: splitNalus fuel (rest.drop (naluEnd rest))
    else
      splitNalus fuel rest
  | fuel + 1, 0 :: 0 :: 1 :: rest =>
    if 0 < naluEnd rest then
      rest.take (naluEnd rest) :: splitNalus fuel (rest.drop (naluEnd rest))
    else
      splitNalus fuel rest
  | fuel + 1, _ :: rest => splitNalus fuel rest
  | _ + 1, [] => []

/-- `split_annexb_nalus`; every turn of the loop moves on. -/
def splitAnnexbNalus (data : Bytes) : List Bytes :=
  splitNalus data.length data

/-! ## The packetizer -/

structure H264Packetizer where
  mtu : Nat
  deriving DecidableEq, Repr

namespace H264Packetizer

def new : H264Packetizer := { mtu := rtpMtu }

/-- FU header: S, E and the type of the unit. -/
def fuHeader (naluType : UInt8) (first last : Bool) : UInt8 :=
  naluType ||| (if first then 0x80 else 0) ||| (if last then 0x40 else 0)

def fuPacket (nalu : Bytes) (isLastNalu : Bool) (timestamp : UInt32) (piece : Lib.Fragment UInt8) :
    RtpPacketOut :=
  { payload := ((nalu.headD 0 &&& 0xe0) ||| 28) ::
      fuHeader (h264NaluType nalu) piece.isFirst piece.isLast :: piece.chunk
    marker := isLastNalu && piece.isLast
    timestamp := timestamp }

/-- The packets of one unit: itself, or fragments behind its header byte. -/
def packetizeNalu (maxPayload : Nat) (nalu : Bytes) (isLastNalu : Bool) (timestamp : UInt32) :
    List RtpPacketOut :=
  if nalu.length ≤ maxPayload then
    [{ payload := nalu, marker := isLastNalu, timestamp := timestamp }]
  else
    (Lib.fragments (maxPayload - 2) 1 nalu nalu.length 1).map (fuPacket nalu isLastNalu timestamp)

def packetizeNalus (maxPayload : Nat) (timestamp : UInt32) : List Bytes → List RtpPacketOut
  | [] => []
  | nalu :: rest =>
    packetizeNalu maxPayload nalu rest.isEmpty timestamp ++ packetizeNalus maxPayload timestamp rest

def packetize (p : H264Packetizer) (frame : EncodedFrame) : H264Packetizer × List RtpPacketOut :=
  (p, packetizeNalus p.mtu frame.timestamp (splitAnnexbNalus frame.frameData))

instance : Packetizer H264Packetizer where
  packetize := packetize

end H264Packetizer

/-! ## The depacketizer -/

inductive H264NaluType
  | single (naluType : UInt8)
  | stapA
  | fuA
  | other (naluType : UInt8)
  deriving DecidableEq, Repr

def H264NaluType.fromByte (naluByte : UInt8) : H264NaluType :=
  let naluType := naluByte &&& 0x1f
  if 1 ≤ naluType ∧ naluType ≤ 23 then .single naluType
  else if naluType = 24 then .stapA
  else if naluType = 28 then .fuA
  else .other naluType

/-- Is some window of five bytes a start code and the header of an IDR unit? -/
def containsIdr : Bytes → Bool
  | a :: b :: c :: d :: e :: rest =>
    ([a, b, c, d] == [0, 0, 0, 1] && e &&& 0x1f == 5) || containsIdr (b :: c :: d :: e :: rest)
  | _ => false

structure H264Depacketizer where
  frameBuffer : Bytes
  lastSeq : Option UInt16
  currentTimestamp : UInt32
  frameStarted : Bool
  fuBuffer : Bytes
  fuStarted : Bool
  deriving DecidableEq, Repr

namespace H264Depacketizer

def new : H264Depacketizer :=
  { frameBuffer := []
    lastSeq := none
    currentTimestamp := 0
    frameStarted := false
    fuBuffer := []
    fuStarted := false }

/-- A packet of another timestamp, or the first one, begins a frame. -/
def openFrame (d : H264Depacketizer) (timestamp : UInt32) : H264Depacketizer :=
  if !d.frameStarted || timestamp != d.currentTimestamp then
    { d with frameBuffer := [], currentTimestamp := timestamp, frameStarted := true }
  else
    d

def appendNalu (d : H264Depacketizer) (nalu : Bytes) : H264Depacketizer :=
  { d with frameBuffer := d.frameBuffer ++ [0, 0, 0, 1] ++ nalu }

def completeOn (marker : Bool) : DepacketizeResult :=
  if marker then .frameComplete else .needMore

/-- The loop over an aggregate behind its header: size, unit, size, unit; a size that is too large ends
it. -/
def appendStapA : Nat → H264Depacketizer → Bytes → H264Depacketizer
  | fuel + 1, d, high :: low :: rest =>
    let naluSize := Lib.ofBe [high, low]
    if rest.length < naluSize then
      d
    else
      appendStapA fuel (d.appendNalu (rest.take naluSize)) (rest.drop naluSize)
  | _, d, _ => d

def finishFu (d : H264Depacketizer) : H264Depacketizer :=
  { d.appendNalu d.fuBuffer with fuBuffer := [], fuStarted := false }

def acceptFuA (d : H264Depacketizer) (fuIndicator header : UInt8) (fuPayload : Bytes)
    (marker : Bool) (timestamp : UInt32) : H264Depacketizer × DepacketizeResult :=
  let isEnd := header &&& 0x40 != 0
  if header &&& 0x80 != 0 then
    let d := { d.openFrame timestamp with
      fuBuffer := ((fuIndicator &&& 0xe0) ||| (header &&& 0x1f)) :: fuPayload
      fuStarted := true }
    (if isEnd then d.finishFu else d, completeOn marker)
  else if d.fuStarted then
    let d := { d with fuBuffer := d.fuBuffer ++ fuPayload }
    (if isEnd then d.finishFu else d, completeOn marker)
  else
    -- the start was lost: the fragment is dropped
    (d, .needMore)

/-- A packet that is neither empty nor stale. -/
def acceptPacket (d : H264Depacketizer) (payload : Bytes) (marker : Bool)
    (timestamp : UInt32) : H264Depacketizer × DepacketizeResult :=
  match H264NaluType.fromByte (payload.headD 0) with
  | .single _ => ((d.openFrame timestamp).appendNalu payload, completeOn marker)
  | .stapA => (appendStapA payload.length (d.openFrame timestamp) payload.tail, completeOn marker)
  | .fuA =>
    match payload with
    | fuIndicator :: header :: fuPayload => d.acceptFuA fuIndicator header fuPayload marker timestamp
    | _ => (d, .error "FU-A payload too short")
  | .other _ => (d, .needMore)

def pushPacket (d : H264Depacketizer) (payload : Bytes) (marker : Bool) (sequenceNumber : UInt16)
    (timestamp : UInt32) : H264Depacketizer × DepacketizeResult :=
  if payload.isEmpty then
    (d, .error "empty H264 payload")
  else if isStale d.lastSeq sequenceNumber then
    (d, .needMore)
  else
    { d with lastSeq := some sequenceNumber }.acceptPacket payload marker timestamp

def takeFrame (d : H264Depacketizer) : H264Depacketizer × Option MediaFrame :=
  if d.frameBuffer.isEmpty || !d.frameStarted then
    (d, none)
  else
    ({ d with frameBuffer := [], frameStarted := false },
      some (MediaFrame.video .h264 d.currentTimestamp d.frameBuffer 0 (containsIdr d.frameBuffer)))

def reset (d : H264Depacketizer) : H264Depacketizer :=
  { d with frameBuffer := [], fuBuffer := [], frameStarted := false, fuStarted := false, lastSeq := none }

instance : Depacketizer H264Depacketizer where
  pushPacket := pushPacket
  takeFrame := takeFrame
  reset := reset

end H264Depacketizer

/-! ## The scanner finds the units -/

section Scanner

open Lib.AnnexB

variable {rest : Bytes}

theorem naluEnd_cons {a : UInt8} (hshort : ¬ [0, 0, 1] <+: a :: rest)
    (hlong : ¬ [0, 0, 0, 1] <+: a :: rest) : naluEnd (a :: rest) = naluEnd rest + 1 := by
  rw [naluEnd]
  · rintro tail rfl rfl
    exact hshort (prefix_append [0, 0, 1] tail)
  · rintro tail rfl rfl
    exact hlong (prefix_append [0, 0, 0, 1] tail)

variable (units : List (Bool × NalUnit))

/-- The scanner stands still at the end of the data and at a start code. -/
theorem naluEnd_assemble : naluEnd (assemble units) = 0 := by
  match units with
  | [] | (true, _) :: _ | (false, _) :: _ => rfl

theorem naluEnd_unit (unit : NalUnit) {bytes : Bytes} (hbytes : bytes <:+ unit.bytes)
    (hrest : naluEnd rest = 0) : naluEnd (bytes ++ rest) = bytes.length := by
  induction bytes with
  | nil => exact hrest
  | cons a tail ih =>
    have hcodes := unit.no_code (cons_ne_nil a tail) hbytes rest
    rw [cons_append] at hcodes ⊢
    rw [naluEnd_cons hcodes.1 hcodes.2, ih ((suffix_cons a tail).trans hbytes), length_cons]

/-- A start code in front of a unit: the unit is cut off. -/
theorem splitNalus_unit (long : Bool) (unit : NalUnit) (hrest : naluEnd rest = 0) (fuel : Nat) :
    splitNalus (fuel + 1) (startCode long ++ unit.bytes ++ rest) = unit.bytes :: splitNalus fuel rest := by
  have hend := naluEnd_unit unit (suffix_refl _) hrest
  have hpos : 0 < unit.bytes.length := length_pos_of_ne_nil unit.ne_nil
  cases long with
  | true =>
    simp only [startCode, if_true, cons_append, nil_append, splitNalus, hend, if_pos hpos, take_left, drop_left]
  | false =>
    simp only [startCode, Bool.false_eq_true, if_false, cons_append, nil_append, splitNalus,
      hend, if_pos hpos, take_left, drop_left]

theorem splitAnnexbNalus_assemble : splitAnnexbNalus (assemble units) = units.map fun u => u.2.bytes := by
  refine loop_assemble (fun fuel => ?_) (fun long unit units => ?_) units (Nat.le_refl _)
  · cases fuel <;> rfl
  · exact splitNalus_unit long unit (naluEnd_assemble units)

end Scanner

/-! ## One unit through both -/

namespace H264Depacketizer

section OpenFrame

variable (d : H264Depacketizer) (timestamp : UInt32)

@[simp] theorem openFrame_lastSeq : (d.openFrame timestamp).lastSeq = d.lastSeq := by
  rw [openFrame]
  split <;> rfl

@[simp] theorem openFrame_fuStarted : (d.openFrame timestamp).fuStarted = d.fuStarted := by
  rw [openFrame]
  split <;> rfl

@[simp] theorem openFrame_frameStarted : (d.openFrame timestamp).frameStarted = true := by
  rw [openFrame]
  split
  next => rfl
  next h =>
    have hopen : d.frameStarted = true ∧ timestamp = d.currentTimestamp := by simpa using h
    exact hopen.1

@[simp] theorem openFrame_currentTimestamp : (d.openFrame timestamp).currentTimestamp = timestamp := by
  rw [openFrame]
  split
  next => rfl
  next h =>
    have hopen : d.frameStarted = true ∧ timestamp = d.currentTimestamp := by simpa using h
    exact hopen.2.symm

@[simp] theorem openFrame_setLastSeq (seq : Option UInt16) :
    { d with lastSeq := seq }.openFrame timestamp = { d.openFrame timestamp with lastSeq := seq } := by
  rw [openFrame, openFrame]
  split <;> rfl

end OpenFrame

def mediaFrame (timestamp : UInt32) (data : Bytes) : MediaFrame :=
  MediaFrame.video .h264 timestamp data 0 (containsIdr data)

def naluReply (isLastNalu : Bool) (timestamp : UInt32) (data : Bytes) : Reply :=
  if isLastNalu then Reply.complete (mediaFrame timestamp data) else Reply.needMore

/-- The next packet is in time, and the bytes of its frame so far are `data`.  A fragmented unit of an
earlier frame may be open only when `fu` says so. -/
structure AtNalu (timestamp : UInt32) (data : Bytes) (fu : Bool) (n : Nat) (d : H264Depacketizer) :
    Prop where
  timely : Timely n d.lastSeq
  buffer : (d.openFrame timestamp).frameBuffer = data
  fuStarted : d.fuStarted = true → fu = true

/-- Right behind the last packet of a unit: the frame goes on or was given out. -/
structure AfterNalu (isLastNalu : Bool) (timestamp : UInt32) (fu : Bool) (n : Nat) (data : Bytes)
    (d : H264Depacketizer) : Prop where
  justBefore : JustBefore n d.lastSeq
  fuStarted : d.fuStarted = true → fu = true
  frame : if isLastNalu then d.frameStarted = false
    else d.frameStarted = true ∧ d.currentTimestamp = timestamp ∧ d.frameBuffer = data

variable {fu : Bool} {d : H264Depacketizer} {data : Bytes} {n : Nat} {timestamp : UInt32}

/-- A unit was appended and the packet answered with its marker. -/
theorem receivePacket_appended {d' : H264Depacketizer} {packet : UInt16 × RtpPacketOut} {isLastNalu : Bool}
    (hpush : Depacketizer.pushPacket d packet.2.payload packet.2.marker packet.1 packet.2.timestamp =
      (d', completeOn isLastNalu)) (hseq : d'.lastSeq = some (UInt16.ofNat n)) (hstarted : d'.frameStarted = true)
    (htimestamp : d'.currentTimestamp = timestamp) (hbuffer : d'.frameBuffer = data) (hne : data ≠ [])
    (hfu : d'.fuStarted = true → fu = true) :
    (receivePacket d packet).2 = naluReply isLastNalu timestamp data ∧
      AfterNalu isLastNalu timestamp fu (n + 1) data (receivePacket d packet).1 := by
  cases isLastNalu with
  | false =>
    rw [receivePacket_of_needMore hpush]
    exact ⟨rfl, ⟨n, rfl, hseq⟩, hfu, hstarted, htimestamp, hbuffer⟩
  | true =>
    have htake : Depacketizer.takeFrame d' =
        ({ d' with frameBuffer := [], frameStarted := false }, some (mediaFrame timestamp data)) := by
      have hempty : d'.frameBuffer.isEmpty = false := by
        rw [hbuffer]
        exact isEmpty_eq_false_iff.mpr hne
      change d'.takeFrame = _
      rw [takeFrame, hempty, hstarted, hbuffer, htimestamp]
      rfl
    rw [receivePacket_of_frameComplete hpush, htake]
    exact ⟨rfl, ⟨n, rfl, hseq⟩, hfu, rfl⟩

theorem pushPacket_eq (h : Timely n d.lastSeq) {payload : Bytes}
    (hne : payload ≠ []) (marker : Bool) (timestamp : UInt32) :
    d.pushPacket payload marker (UInt16.ofNat n) timestamp =
      { d with lastSeq := some (UInt16.ofNat n) }.acceptPacket payload marker timestamp := by
  have hstale : isStale d.lastSeq (UInt16.ofNat n) = false := h
  have hempty : payload.isEmpty = false := isEmpty_eq_false_iff.mpr hne
  rw [pushPacket, hempty, hstale]
  rfl

variable {nalu : Bytes} {maxPayload : Nat} {packets : List RtpPacketOut}

theorem receivePacket_single (hne : nalu ≠ [])
    (htype : 1 ≤ h264NaluType nalu ∧ h264NaluType nalu ≤ 23) (isLastNalu : Bool) (hd : AtNalu timestamp data fu n d) :
    let packet := (UInt16.ofNat n, RtpPacketOut.mk nalu isLastNalu timestamp)
    let data' := data ++ [0, 0, 0, 1] ++ nalu
    (receivePacket d packet).2 = naluReply isLastNalu timestamp data' ∧
      AfterNalu isLastNalu timestamp fu (n + 1) data' (receivePacket d packet).1 := by
  intro packet data'
  obtain ⟨b, tail, rfl⟩ := exists_cons_of_ne_nil hne
  have hsingle : H264NaluType.fromByte b = .single (b &&& 0x1f) := by
    exact if_pos htype
  let d' := { (d.openFrame timestamp).appendNalu (b :: tail) with lastSeq := some (UInt16.ofNat n) }
  have hpush : d.pushPacket packet.2.payload packet.2.marker packet.1 packet.2.timestamp =
      (d', completeOn packet.2.marker) := by
    rw [pushPacket_eq hd.timely hne]
    simp only [acceptPacket, packet, headD_cons, hsingle, openFrame_setLastSeq]
    rfl
  have hdata : d'.frameBuffer = data' := by
    simp only [d', appendNalu, hd.buffer, data']
  exact receivePacket_appended hpush rfl (openFrame_frameStarted d timestamp)
    (openFrame_currentTimestamp d timestamp) hdata (by simp [data'])
    (by simpa [d', appendNalu] using hd.fuStarted)

/-! ### Fragmented units -/

theorem fuIndicator_fromByte (b : UInt8) : H264NaluType.fromByte ((b &&& 0xe0) ||| 28) = .fuA := by
  revert b
  exact Lib.forall_byte (by decide +kernel)

theorem fuHeader_bits (b : UInt8) (first last : Bool) :
    let header := H264Packetizer.fuHeader (b &&& 0x1f) first last
    (header &&& 0x80 != 0) = first ∧ (header &&& 0x40 != 0) = last ∧
      (((b &&& 0xe0) ||| 28) &&& 0xe0) ||| (header &&& 0x1f) = b := by
  revert b
  cases first <;> cases last <;> exact Lib.forall_byte (by decide +kernel)

section Fu

variable (b : UInt8) (tail : Bytes) (isLastNalu : Bool) (timestamp : UInt32)

def startFu (d : H264Depacketizer) (n : Nat) (chunk : Bytes) : H264Depacketizer :=
  { d.openFrame timestamp with
    lastSeq := some (UInt16.ofNat n), fuBuffer := b :: chunk, fuStarted := true }

def continueFu (d : H264Depacketizer) (n : Nat) (chunk : Bytes) : H264Depacketizer :=
  { d with lastSeq := some (UInt16.ofNat n), fuBuffer := d.fuBuffer ++ chunk }

variable {n : Nat} {d : H264Depacketizer} (h : Timely n d.lastSeq)

include h

theorem pushPacket_fuPacket (piece : Lib.Fragment UInt8) :
    let packet := H264Packetizer.fuPacket (b :: tail) isLastNalu timestamp piece
    d.pushPacket packet.payload packet.marker (UInt16.ofNat n) packet.timestamp =
      { d with lastSeq := some (UInt16.ofNat n) }.acceptFuA ((b &&& 0xe0) ||| 28)
        (H264Packetizer.fuHeader (b &&& 0x1f) piece.isFirst piece.isLast) piece.chunk packet.marker
        timestamp := by
  intro packet
  rw [pushPacket_eq h (by simp [packet, H264Packetizer.fuPacket])]
  simp only [acceptPacket, packet, H264Packetizer.fuPacket, headD_cons, fuIndicator_fromByte, h264NaluType]

theorem pushPacket_firstFu (isLast : Bool) (chunk : Bytes) :
    let packet := H264Packetizer.fuPacket (b :: tail) isLastNalu timestamp ⟨true, isLast, chunk⟩
    d.pushPacket packet.payload packet.marker (UInt16.ofNat n) packet.timestamp =
      (if isLast then (startFu b timestamp d n chunk).finishFu else startFu b timestamp d n chunk,
        completeOn packet.marker) := by
  intro packet
  obtain ⟨hs, he, hb⟩ := fuHeader_bits b true isLast
  rw [pushPacket_fuPacket b tail isLastNalu timestamp h]
  simp only [acceptFuA, hs, he, hb, if_true, openFrame_setLastSeq, startFu, packet]

theorem pushPacket_nextFu (hfu : d.fuStarted = true) (isLast : Bool) (chunk : Bytes) :
    let packet := H264Packetizer.fuPacket (b :: tail) isLastNalu timestamp ⟨false, isLast, chunk⟩
    d.pushPacket packet.payload packet.marker (UInt16.ofNat n) packet.timestamp =
      (if isLast then (d.continueFu n chunk).finishFu else d.continueFu n chunk,
        completeOn packet.marker) := by
  intro packet
  obtain ⟨hs, he, -⟩ := fuHeader_bits b false isLast
  rw [pushPacket_fuPacket b tail isLastNalu timestamp h]
  simp only [acceptFuA, hs, he, hfu, Bool.false_eq_true, if_false, if_true, continueFu, packet]

end Fu

theorem receivePacket_of_completeOn {packet : UInt16 × RtpPacketOut} {d d' : H264Depacketizer} {marker : Bool}
    (h : d.pushPacket packet.2.payload packet.2.marker packet.1 packet.2.timestamp = (d', completeOn marker))
    (hmarker : marker = false) : receivePacket d packet = (d', Reply.needMore) := by
  subst hmarker
  exact receivePacket_of_needMore h

/-- Inside a fragmented unit with header `b`: its frame has the bytes `data` so far. -/
structure HoldsFu (b : UInt8) (timestamp : UInt32) (data : Bytes) (n : Nat) (held : Bytes)
    (d : H264Depacketizer) : Prop where
  justBefore : JustBefore n d.lastSeq
  started : d.frameStarted = true
  timestamp : d.currentTimestamp = timestamp
  buffer : d.frameBuffer = data
  fuStarted : d.fuStarted = true
  fuBuffer : d.fuBuffer = b :: held

theorem reassembles (b : UInt8) (tail : Bytes) (isLastNalu : Bool) (timestamp : UInt32)
    (data : Bytes) (fu : Bool) :
    Lib.Reassembles receivePacket (numbered (H264Packetizer.fuPacket (b :: tail) isLastNalu timestamp))
      (AtNalu timestamp data fu) (HoldsFu b timestamp data)
      (fun n held => AfterNalu isLastNalu timestamp fu n (data ++ [0, 0, 0, 1] ++ b :: held)) Reply.needMore
      (fun held => naluReply isLastNalu timestamp (data ++ [0, 0, 0, 1] ++ b :: held)) where
  first n d chunk hchunk hd := by
    have hpush := pushPacket_firstFu b tail isLastNalu timestamp hd.timely false chunk
    rw [receivePacket_of_completeOn hpush (Bool.and_false _)]
    refine ⟨rfl, justBefore_succ n, ?_, ?_, hd.buffer, rfl, rfl⟩
    · exact openFrame_frameStarted d timestamp
    · exact openFrame_currentTimestamp d timestamp
  whole n d chunk hchunk hd := by
    have hpush := pushPacket_firstFu b tail isLastNalu timestamp hd.timely true chunk
    have hmarker : completeOn (isLastNalu && true) = completeOn isLastNalu := by rw [Bool.and_true]
    have hdata : (startFu b timestamp d n chunk).finishFu.frameBuffer =
        data ++ [0, 0, 0, 1] ++ b :: chunk := congrArg (· ++ [0, 0, 0, 1] ++ b :: chunk) hd.buffer
    exact receivePacket_appended (hpush.trans (congrArg _ hmarker)) rfl (openFrame_frameStarted d timestamp)
      (openFrame_currentTimestamp d timestamp) hdata (by simp) (by simp [finishFu])
  inner n held d chunk hchunk hd := by
    have hpush := pushPacket_nextFu b tail isLastNalu timestamp hd.justBefore.timely hd.fuStarted false chunk
    rw [receivePacket_of_completeOn hpush (Bool.and_false _)]
    refine ⟨rfl, justBefore_succ n, hd.started, hd.timestamp, hd.buffer, hd.fuStarted, ?_⟩
    exact congrArg (· ++ chunk) hd.fuBuffer
  last n held d chunk hchunk hd := by
    have hpush := pushPacket_nextFu b tail isLastNalu timestamp hd.justBefore.timely hd.fuStarted true chunk
    have hmarker : completeOn (isLastNalu && true) = completeOn isLastNalu := by rw [Bool.and_true]
    have hdata : (d.continueFu n chunk).finishFu.frameBuffer = data ++ [0, 0, 0, 1] ++ b :: (held ++ chunk) := by
      simp only [continueFu, finishFu, appendNalu, hd.buffer, hd.fuBuffer, cons_append]
    exact receivePacket_appended (hpush.trans (congrArg _ hmarker)) rfl hd.started hd.timestamp hdata
      (by simp) (by simp [finishFu])

/-! ### Whole frames -/

theorem receiveAll_packetizeNalu (hmax : 2 < maxPayload)
    (hne : nalu ≠ []) (htype : 1 ≤ h264NaluType nalu ∧ h264NaluType nalu ≤ 23) (isLastNalu : Bool) {keep : Nat → Bool}
    (hd : AtNalu timestamp data fu n d)
    (hpackets : packets = H264Packetizer.packetizeNalu maxPayload nalu isLastNalu timestamp)
    (hkeep : ∀ i < packets.length, keep (n + i) = true) :
    let result := receiveAll d (deliver keep n packets)
    let data' := data ++ [0, 0, 0, 1] ++ nalu
    0 < packets.length ∧
      result.2 = Lib.answers Reply.needMore (naluReply isLastNalu timestamp data') packets.length ∧
      AfterNalu isLastNalu timestamp fu (n + packets.length) data' result.1 := by
  intro result data'
  obtain ⟨b, tail, rfl⟩ := exists_cons_of_ne_nil hne
  rw [H264Packetizer.packetizeNalu] at hpackets
  split at hpackets
  next =>
    subst hpackets
    have hkept : keep n = true := hkeep 0 Nat.one_pos
    obtain ⟨hout, hafter⟩ := receivePacket_single hne htype isLastNalu hd
    simp only [result, deliver, if_pos hkept]
    exact ⟨Nat.one_pos, congrArg (fun reply => [reply]) hout, hafter⟩
  next hlong =>
    have hlength : 1 < (b :: tail).length := by omega
    exact receiveAll_pieces (reassembles b tail isLastNalu timestamp data fu) (by omega) hlength hd hpackets
      hkeep

def annexbData (nalus : List Bytes) : Bytes :=
  nalus.flatMap fun nalu => [0, 0, 0, 1] ++ nalu

/-- The rest of a frame, from a unit on: the marker stands in its last packet. -/
theorem receiveAll_packetizeNalus (hmax : 2 < maxPayload) (nalus : List Bytes)
    (hnalus : ∀ nalu ∈ nalus, nalu ≠ [] ∧ 1 ≤ h264NaluType nalu ∧ h264NaluType nalu ≤ 23) (hne : nalus ≠ [])
    (hd : AtNalu timestamp data fu n d) (keep : Nat → Bool)
    (hpackets : packets = H264Packetizer.packetizeNalus maxPayload timestamp nalus)
    (hkeep : ∀ i < packets.length, keep (n + i) = true) :
    let result := receiveAll d (deliver keep n packets)
    let data' := data ++ annexbData nalus
    0 < packets.length ∧ result.2 = frameReplies packets (mediaFrame timestamp data') ∧
      AfterNalu true timestamp fu (n + packets.length) data' result.1 := by
  intro result data'
  induction nalus generalizing data n d packets with
  | nil => exact absurd rfl hne
  | cons nalu rest ih =>
    obtain ⟨⟨hnalu, htype⟩, hrest⟩ := forall_mem_cons.mp hnalus
    rw [H264Packetizer.packetizeNalus] at hpackets
    generalize hunit : H264Packetizer.packetizeNalu maxPayload nalu rest.isEmpty timestamp = first
      at hpackets
    generalize hothers : H264Packetizer.packetizeNalus maxPayload timestamp rest = others at hpackets
    subst hpackets
    have hfirst : ∀ i < first.length, keep (n + i) = true := by
      intro i hi
      exact hkeep i (by rw [length_append]; omega)
    obtain ⟨hpos, hout, hafter⟩ :=
      receiveAll_packetizeNalu hmax hnalu htype rest.isEmpty hd hunit.symm hfirst
    by_cases hnil : rest = []
    · subst hnil
      obtain rfl : [] = others := hothers
      have hdata : data' = data ++ [0, 0, 0, 1] ++ nalu := by simp [data', annexbData]
      simp only [result, frameReplies, hdata, append_nil]
      exact ⟨hpos, hout, hafter⟩
    · -- the frame goes on: the next unit finds this one collected
      have hmore : rest.isEmpty = false := isEmpty_eq_false_iff.mpr hnil
      rw [hmore] at hout hafter
      obtain ⟨hstarted, htimestamp, hbuffer⟩ := hafter.frame
      have hnext : AtNalu timestamp (data ++ [0, 0, 0, 1] ++ nalu) fu (n + first.length)
          (receiveAll d (deliver keep n first)).1 := by
        refine ⟨hafter.justBefore.timely, ?_, hafter.fuStarted⟩
        rw [openFrame, hstarted, htimestamp]
        simpa using hbuffer
      have hkeepRest : ∀ i < others.length, keep (n + first.length + i) = true := by
        intro i hi
        rw [Nat.add_assoc]
        exact hkeep (first.length + i) (by rw [length_append]; omega)
      obtain ⟨hposRest, houtRest, hdone⟩ := ih hrest hnil hnext hothers.symm hkeepRest
      have hdata : data' = data ++ [0, 0, 0, 1] ++ nalu ++ annexbData rest := by simp [data', annexbData]
      simp only [result, frameReplies, deliver_append, receiveAll_append, length_append, hdata, hout,
        houtRest, ← Nat.add_assoc]
      exact ⟨by omega, Lib.answers_append_answers _ _ hpos hposRest, hdone⟩

end H264Depacketizer

/-! ## Frames of the sender -/

/-- A frame in Annex B form: units of types 1 to 23, each behind a short or a long start code. -/
structure AccessUnit where
  units : List (Bool × Lib.AnnexB.NalUnit)
  ne_nil : units ≠ []
  single : ∀ u ∈ units, 1 ≤ h264NaluType u.2.bytes ∧ h264NaluType u.2.bytes ≤ 23
  timestamp : UInt32
  keyframe : Bool

namespace AccessUnit

def encoded (frame : AccessUnit) : EncodedFrame :=
  { frameData := Lib.AnnexB.assemble frame.units
    timestamp := frame.timestamp
    keyframe := frame.keyframe }

def nalus (frame : AccessUnit) : List Bytes :=
  frame.units.map fun u => u.2.bytes

def media (frame : AccessUnit) : MediaFrame :=
  H264Depacketizer.mediaFrame frame.timestamp (H264Depacketizer.annexbData frame.nalus)

variable (frame : AccessUnit)

theorem nalus_ne_nil : frame.nalus ≠ [] := by
  simpa [nalus] using frame.ne_nil

theorem nalus_single : ∀ nalu ∈ frame.nalus, nalu ≠ [] ∧ 1 ≤ h264NaluType nalu ∧ h264NaluType nalu ≤ 23 := by
  intro nalu hnalu
  obtain ⟨u, hu, rfl⟩ := mem_map.mp hnalu
  exact ⟨u.2.ne_nil, frame.single u hu⟩

theorem packetize_encoded (p : H264Packetizer) :
    p.packetize frame.encoded = (p, H264Packetizer.packetizeNalus p.mtu frame.timestamp frame.nalus) := by
  rw [H264Packetizer.packetize, encoded, splitAnnexbNalus_assemble]
  rfl

end AccessUnit

namespace H264Packetizer

variable {maxPayload : Nat} {out : RtpPacketOut} {timestamp : UInt32} {nalus : List Bytes}

theorem payload_length_le_of_mem_nalu (hmax : 2 ≤ maxPayload) {nalu : Bytes} {isLastNalu : Bool}
    (hout : out ∈ packetizeNalu maxPayload nalu isLastNalu timestamp) : out.payload.length ≤ maxPayload := by
  rw [packetizeNalu] at hout
  split at hout
  next hfits =>
    obtain rfl := mem_singleton.mp hout
    exact hfits
  next =>
    obtain ⟨piece, hpiece, rfl⟩ := mem_map.mp hout
    have hchunk := (Lib.chunk_of_mem hpiece).1
    simp only [fuPacket, length_cons]
    omega

/-- No payload exceeds the limit, whatever the units are. -/
theorem payload_length_le (hmax : 2 ≤ maxPayload) (hout : out ∈ packetizeNalus maxPayload timestamp nalus) :
    out.payload.length ≤ maxPayload := by
  induction nalus with
  | nil => simp [packetizeNalus] at hout
  | cons nalu rest ih =>
    rcases mem_append.mp hout with hfirst | hrest
    · exact payload_length_le_of_mem_nalu hmax hfirst
    · exact ih hrest

variable (hnalus : ∀ nalu ∈ nalus, nalu ≠ [] ∧ 1 ≤ h264NaluType nalu ∧ h264NaluType nalu ≤ 23)

include hnalus

variable (hout : out ∈ packetizeNalus maxPayload timestamp nalus)

include hout

theorem exists_unit_of_mem :
    ∃ b tail isLastNalu, (1 ≤ h264NaluType (b :: tail) ∧ h264NaluType (b :: tail) ≤ 23) ∧
      (out = ⟨b :: tail, isLastNalu, timestamp⟩ ∨ ∃ piece, out = fuPacket (b :: tail) isLastNalu timestamp piece) := by
  induction nalus with
  | nil => simp [packetizeNalus] at hout
  | cons nalu rest ih =>
    obtain ⟨⟨hne, htype⟩, hrest⟩ := forall_mem_cons.mp hnalus
    obtain ⟨b, tail, rfl⟩ := exists_cons_of_ne_nil hne
    rcases mem_append.mp hout with hfirst | hlater
    · refine ⟨b, tail, rest.isEmpty, htype, ?_⟩
      rw [packetizeNalu] at hfirst
      split at hfirst
      next => exact .inl (mem_singleton.mp hfirst)
      next =>
        obtain ⟨piece, -, rfl⟩ := mem_map.mp hfirst
        exact .inr ⟨piece, rfl⟩
    · exact ih hrest hlater

theorem timestamp_of_mem : out.timestamp = timestamp := by
  obtain ⟨b, tail, isLastNalu, -, rfl | ⟨piece, rfl⟩⟩ := exists_unit_of_mem hnalus hout <;> rfl

end H264Packetizer

end LingVoice.LmDepacketizer

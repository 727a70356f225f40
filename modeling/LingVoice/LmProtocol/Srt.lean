import LingVoice.Lib.Field
import LingVoice.LmProtocol.Remuxer

/-!
# Srt — the SRT demuxer and remuxer (`lm-protocol/src/srt.rs`)

`SrtDemuxer::push_data` takes one SRT data packet.  A payload that looks like MPEG-TS goes through
`demux_ts`, which collects a PES packet per track and gives a frame out when the next PES packet of
the track begins; anything else goes to the RTP depacketizer, which is a parameter here.
`SrtRemuxer` puts every frame behind a 16-byte header.
-/

namespace LingVoice.LmProtocol

open Lib LmCore

def tsPktSize : Nat := 188
def tsVideoPid : UInt16 := 0x0100
def tsAudioPid : UInt16 := 0x0101

def isMpegTs (payload : Bytes) : Bool :=
  match payload with
  | [] => false
  | b :: _ => b == 0x47 && payload.length % tsPktSize == 0

/-- A PTS or DTS from its five bytes. -/
def decodePts (b : Bytes) : UInt64 :=
  ((((b.getD 0 0).toUInt64 >>> 1) &&& 0x07) <<< 30) ||| ((b.getD 1 0).toUInt64 <<< 22) |||
    ((((b.getD 2 0).toUInt64 >>> 1) &&& 0x7F) <<< 15) ||| ((b.getD 3 0).toUInt64 <<< 7) |||
    (((b.getD 4 0).toUInt64 >>> 1) &&& 0x7F)

def ptsAt (present : Bool) (data : Bytes) (offset : Nat) : Option UInt64 :=
  if present && decide (offset + 5 ≤ data.length) then
    some (decodePts ((data.drop offset).take 5))
  else
    none

/-- `parse_pes`: the payload of a PES packet and its PTS, for the standard header layout and for the
shorter one of the muxer in `ts.rs`. -/
def parsePes (data : Bytes) : Bytes × Option UInt64 :=
  if data.length < 8 then
    ([], none)
  else if data.getD 0 0 ≠ 0x00 ∨ data.getD 1 0 ≠ 0x00 ∨ data.getD 2 0 ≠ 0x01 then
    ([], none)
  else
    -- byte 7 holds flags in the standard layout and a small length in the other
    let isStandard := data.getD 7 0 &&& 0xC0 != 0
    let pts :=
      if isStandard then ptsAt (decide ((2 : UInt8) ≤ data.getD 7 0 >>> 6)) data 9
      else ptsAt (data.getD 6 0 &&& 0x80 != 0) data 8
    let payloadStart :=
      if isStandard then 9 + (if 8 < data.length then (data.getD 8 0).toNat else 0)
      else 8 + (data.getD 7 0).toNat
    if data.length < payloadStart then ([], pts) else (data.drop payloadStart, pts)

def skipPointerField (payload : Bytes) : Bytes :=
  if 3 ≤ payload.length ∧ payload.getD 0 0 = 0x00 ∧ payload.getD 1 0 = 0x00 ∧
      payload.getD 2 0 = 0x01 then
    payload
  else
    match payload with
    | [] => []
    | pointer :: _ =>
      if 1 + pointer.toNat < payload.length then payload.drop (1 + pointer.toNat) else []

def scanKeyframe : Nat → Bytes → Bool
  | 0, _ => false
  | n + 1, data =>
    match data with
    | 0 :: 0 :: 0 :: 1 :: nal :: rest =>
      if nal &&& 0x1F = 5 then true else scanKeyframe n (nal :: rest)
    | 0 :: 0 :: 1 :: nal :: rest =>
      if nal &&& 0x1F = 5 then true else scanKeyframe n (nal :: rest)
    | _ :: b1 :: b2 :: b3 :: rest => scanKeyframe n (b1 :: b2 :: b3 :: rest)
    | _ => false

def isH264Keyframe (data : Bytes) : Bool :=
  scanKeyframe data.length data

/-! ## The demuxer -/

structure SrtDemuxer (δ : Type) where
  videoDepacketizer : δ
  audioDepacketizer : δ
  videoCodec : CodecType
  audioCodec : CodecType
  buffer : Bytes
  videoPes : Bytes
  videoPts : Option UInt64
  audioPes : Bytes
  audioPts : Option UInt64

namespace SrtDemuxer

variable {δ : Type}

def new (createDepacketizer : CodecType → δ) (videoCodec audioCodec : CodecType) : SrtDemuxer δ :=
  { videoDepacketizer := createDepacketizer videoCodec
    audioDepacketizer := createDepacketizer audioCodec
    videoCodec := videoCodec
    audioCodec := audioCodec
    buffer := []
    videoPes := []
    videoPts := none
    audioPes := []
    audioPts := none }

def flushVideoPes (d : SrtDemuxer δ) : SrtDemuxer δ × List MediaFrame :=
  if d.videoPes = [] then
    (d, [])
  else
    ({ d with videoPes := [], videoPts := none },
      [MediaFrame.video d.videoCodec (d.videoPts.getD 0).toUInt32 d.videoPes 0
        (isH264Keyframe d.videoPes)])

def flushAudioPes (d : SrtDemuxer δ) : SrtDemuxer δ × List MediaFrame :=
  if d.audioPes = [] then
    (d, [])
  else
    ({ d with audioPes := [], audioPts := none },
      [MediaFrame.audio d.audioCodec (d.audioPts.getD 0).toUInt32 d.audioPes 0])

/-- One turn of the loop of `demux_ts`. -/
def demuxPacket (d : SrtDemuxer δ) (pkt : Bytes) : SrtDemuxer δ × List MediaFrame :=
  if pkt.getD 0 0 ≠ 0x47 then
    (d, [])
  else
    let pusi := pkt.getD 1 0 &&& 0x40 != 0
    let pid := (pkt.getD 1 0 &&& 0x1F).toUInt16 <<< 8 ||| (pkt.getD 2 0).toUInt16
    let adaptationControl := (pkt.getD 3 0 >>> 4) &&& 0x03
    let payloadOffset :=
      if adaptationControl = 0x02 ∨ adaptationControl = 0x03 then 5 + (pkt.getD 4 0).toNat else 4
    if adaptationControl = 0x02 then
      (d, [])
    else if tsPktSize ≤ payloadOffset then
      (d, [])
    else
      let tsPayload := pkt.drop payloadOffset
      if pid ≠ tsVideoPid ∧ pid ≠ tsAudioPid then
        (d, [])
      -- a frame is given out only when the next one of its track begins
      else if pusi then
        if pid = tsVideoPid then
          let (d, frames) := d.flushVideoPes
          let (pesData, pts) := parsePes tsPayload
          ({ d with videoPts := pts, videoPes := pesData }, frames)
        else
          let (d, frames) := d.flushAudioPes
          let (pesData, pts) := parsePes (skipPointerField tsPayload)
          ({ d with audioPts := pts, audioPes := pesData }, frames)
      else if pid = tsVideoPid then
        ({ d with videoPes := d.videoPes ++ tsPayload }, [])
      else
        ({ d with audioPes := d.audioPes ++ tsPayload }, [])

def demuxLoop : Nat → SrtDemuxer δ → Bytes → SrtDemuxer δ × List MediaFrame
  | 0, d, _ => (d, [])
  | n + 1, d, payload =>
    if tsPktSize ≤ payload.length then
      let (d, frames) := d.demuxPacket (payload.take tsPktSize)
      let (d, more) := demuxLoop n d (payload.drop tsPktSize)
      (d, frames ++ more)
    else
      (d, [])

/-- `demux_ts`: every whole packet of the payload, in order. -/
def demuxTs (d : SrtDemuxer δ) (payload : Bytes) : SrtDemuxer δ × List MediaFrame :=
  demuxLoop payload.length d payload

variable [Depacketizer δ]

/-- `demux_rtp`: the payload as an RTP packet for the video depacketizer. -/
def demuxRtp (d : SrtDemuxer δ) (payload : Bytes) : SrtDemuxer δ × List MediaFrame :=
  if payload.length < 12 then
    (d, [])
  else
    let timestamp := UInt32.ofNat (ofBe ((payload.drop 4).take 4))
    let sequenceNumber := UInt16.ofNat (ofBe ((payload.drop 2).take 2))
    let marker := payload.getD 1 0 &&& 0x80 != 0
    -- audio over RTP goes to the video depacketizer too
    let (depacketizer, result) :=
      Depacketizer.pushPacket d.videoDepacketizer (payload.drop 12) marker sequenceNumber timestamp
    let d := { d with videoDepacketizer := depacketizer }
    if result = .frameComplete then
      let (depacketizer, frame) := Depacketizer.takeFrame d.videoDepacketizer
      ({ d with videoDepacketizer := depacketizer }, frame.toList)
    else
      (d, [])

/-- `push_data`: one SRT data packet, with its 16-byte header. -/
def pushData (d : SrtDemuxer δ) (data : Bytes) : SrtDemuxer δ × List MediaFrame :=
  if data.length < 16 then
    (d, [])
  else if isMpegTs (data.drop 16) then
    d.demuxTs (data.drop 16)
  else
    d.demuxRtp (data.drop 16)

def reset (d : SrtDemuxer δ) : SrtDemuxer δ :=
  { d with
    buffer := []
    videoDepacketizer := Depacketizer.reset d.videoDepacketizer
    audioDepacketizer := Depacketizer.reset d.audioDepacketizer
    videoPes := []
    videoPts := none
    audioPes := []
    audioPts := none }

end SrtDemuxer

/-! ## The remuxer -/

structure SrtRemuxer where
  sequence : UInt32
  outputBuffer : Bytes
  deriving DecidableEq, Repr

namespace SrtRemuxer

def new : SrtRemuxer :=
  { sequence := 0, outputBuffer := [] }

def pushFrame (r : SrtRemuxer) (frame : MediaFrame) : SrtRemuxer × Bytes :=
  let tsUs := (frame.timestamp.toUInt64 * 1000000 / 90000).toUInt32
  -- the message number is always 1, the destination socket 0
  let packet := be32 r.sequence ++ be32 1 ++ be32 tsUs ++ be32 0 ++ frame.data
  ({ sequence := r.sequence + 1, outputBuffer := [] }, r.outputBuffer ++ packet)

def flush (r : SrtRemuxer) : SrtRemuxer × Bytes :=
  ({ r with outputBuffer := [] }, r.outputBuffer)

def reset (_ : SrtRemuxer) : SrtRemuxer :=
  { sequence := 0, outputBuffer := [] }

def remuxer : Remuxer SrtRemuxer :=
  { pushFrame := fun r frame => .ok (r.pushFrame frame)
    flush := fun r => .ok r.flush
    reset := reset }

end SrtRemuxer

end LingVoice.LmProtocol

import LingVoice.Lib.Field
import LingVoice.Lib.Fragment
import LingVoice.LmProtocol.Remuxer

/-!
# Rtsp — interleaved RTP (`lm-protocol/src/rtsp.rs`)

`RtspRemuxer` puts the bytes of a frame into RTP packets of at most 1400 bytes, and every packet behind `$`, a
channel and a length.  `RtspDemuxer` keeps the bytes it was given in a buffer, takes complete packets off it, skips
a byte where no packet begins, and hands payloads to the depacketizer of the channel.  The depacketizer is a
parameter.
-/

namespace LingVoice.LmProtocol

open Lib (Fault be16 be32 byteAt u16At u32At)
open LmCore

/-! ## The remuxer -/

def mtu : Nat := 1400
def rtpHeaderLen : Nat := 12
def maxRtpPayload : Nat := mtu - rtpHeaderLen

structure RtspRemuxer where
  videoChannel : UInt8
  audioChannel : UInt8
  videoSeq : UInt16
  audioSeq : UInt16
  outputBuffer : Bytes
  deriving DecidableEq, Repr

namespace RtspRemuxer

def new : RtspRemuxer :=
  { videoChannel := 0
    audioChannel := 1
    videoSeq := 0
    audioSeq := 0
    outputBuffer := [] }

def createRtpPacket (payloadType : UInt8) (marker : Bool) (seq : UInt16) (timestamp ssrc : UInt32)
    (payload : Bytes) : Bytes :=
  [0x80, (if marker then 0x80 else 0x00) ||| (payloadType &&& 0x7f)] ++ be16 seq ++ be32 timestamp ++ be32 ssrc ++
    payload

def createRtpPackets (payloadType : UInt8) (startSeq : UInt16) (timestamp ssrc : UInt32) (payload : Bytes) :
    List Bytes :=
  if payload.length ≤ maxRtpPayload then
    [createRtpPacket payloadType true startSeq timestamp ssrc payload]
  else
    -- raw pieces of the frame, whatever the codec
    let chunks := Lib.chunks maxRtpPayload payload
    chunks.zipIdx.map fun (chunk, i) =>
      createRtpPacket payloadType (i == chunks.length - 1) (startSeq + UInt16.ofNat i) timestamp ssrc chunk

def createInterleaved (channel : UInt8) (data : Bytes) : Bytes :=
  [0x24, channel] ++ be16 (UInt16.ofNat data.length) ++ data

def pushFrame (r : RtspRemuxer) (frame : MediaFrame) : RtspRemuxer × Bytes :=
  let channel := match frame.kind with
    | .video => r.videoChannel
    | .audio => r.audioChannel
  let payloadType : UInt8 := match frame.kind with
    | .video => 96
    | .audio => 97
  let seq := match frame.kind with
    | .video => r.videoSeq
    | .audio => r.audioSeq
  let rtpPackets := createRtpPackets payloadType seq frame.timestamp frame.ssrc frame.data
  let seq := seq + UInt16.ofNat rtpPackets.length
  let r := match frame.kind with
    | .video => { r with videoSeq := seq }
    | .audio => { r with audioSeq := seq }
  let outputBuffer := r.outputBuffer ++ rtpPackets.flatMap (createInterleaved channel)
  ({ r with outputBuffer := [] }, outputBuffer)

def flush (r : RtspRemuxer) : RtspRemuxer × Bytes :=
  ({ r with outputBuffer := [] }, r.outputBuffer)

def reset (r : RtspRemuxer) : RtspRemuxer :=
  { r with
    outputBuffer := []
    videoSeq := 0
    audioSeq := 0 }

def remuxer : Remuxer RtspRemuxer :=
  { pushFrame := fun r frame => .ok (r.pushFrame frame)
    flush := fun r => .ok r.flush
    reset := reset }

end RtspRemuxer

/-! ## The demuxer -/

structure RtspDemuxer (δ : Type) where
  videoDepacketizer : δ
  audioDepacketizer : δ
  videoCodec : CodecType
  audioCodec : CodecType
  buffer : Bytes

namespace RtspDemuxer

variable {δ : Type} [Depacketizer δ]

def new (createDepacketizer : CodecType → δ) (videoCodec audioCodec : CodecType) : RtspDemuxer δ :=
  { videoDepacketizer := createDepacketizer videoCodec
    audioDepacketizer := createDepacketizer audioCodec
    videoCodec := videoCodec
    audioCodec := audioCodec
    buffer := [] }

/-- One packet at a depacketizer: the frame that it completes gets the SSRC of the packet. -/
def depacketize (depacketizer : δ) (rtpData : Bytes) : δ × List MediaFrame :=
  let sequenceNumber := u16At rtpData 2
  let timestamp := u32At rtpData 4
  let ssrc := u32At rtpData 8
  let marker := byteAt rtpData 1 &&& 0x80 != 0
  let (depacketizer, result) :=
    Depacketizer.pushPacket depacketizer (rtpData.drop 12) marker sequenceNumber timestamp
  if result = .frameComplete then
    let (depacketizer, frame) := Depacketizer.takeFrame depacketizer
    (depacketizer, frame.toList.map fun frame => { frame with ssrc := ssrc })
  else
    (depacketizer, [])

/-- The body of the loop for one interleaved packet.  Channel 0 is video, all others are audio. -/
def handlePacket (d : RtspDemuxer δ) (channel : UInt8) (rtpData : Bytes) : RtspDemuxer δ × List MediaFrame :=
  if 12 ≤ rtpData.length then
    if channel = 0 then
      let (depacketizer, frames) := depacketize d.videoDepacketizer rtpData
      ({ d with videoDepacketizer := depacketizer }, frames)
    else
      let (depacketizer, frames) := depacketize d.audioDepacketizer rtpData
      ({ d with audioDepacketizer := depacketizer }, frames)
  else
    (d, [])

/-- The loop of `push_data`.  Every turn takes at least one byte off the buffer. -/
def demuxLoop : Nat → RtspDemuxer δ → RtspDemuxer δ × List MediaFrame
  | 0, d => (d, [])
  | fuel + 1, d =>
    if 4 ≤ d.buffer.length then
      if byteAt d.buffer 0 ≠ 0x24 then
        demuxLoop fuel { d with buffer := d.buffer.drop 1 }
      else
        let channel := byteAt d.buffer 1
        let length := (u16At d.buffer 2).toNat
        if d.buffer.length < 4 + length then
          (d, [])
        else
          let rtpData := (d.buffer.take (4 + length)).drop 4
          let (d, frames) := d.handlePacket channel rtpData
          let (d, more) := demuxLoop fuel { d with buffer := d.buffer.drop (4 + length) }
          (d, frames ++ more)
    else
      (d, [])

def pushData (d : RtspDemuxer δ) (data : Bytes) : RtspDemuxer δ × List MediaFrame :=
  let d := { d with buffer := d.buffer ++ data }
  demuxLoop d.buffer.length d

def reset (d : RtspDemuxer δ) : RtspDemuxer δ :=
  { d with
    buffer := []
    videoDepacketizer := Depacketizer.reset d.videoDepacketizer
    audioDepacketizer := Depacketizer.reset d.audioDepacketizer }

end RtspDemuxer

end LingVoice.LmProtocol

import LingVoice.LmDepacketizer.H264

/-!
# Gb28181 — pushing and receiving PS streams (`lm-protocol/src/gb28181_push.rs`, `gb28181.rs`)

`Gb28181Pusher` wraps each frame into a PS stream and cuts it into RTP packets; `Gb28181Demuxer` collects the
payloads of RTP packets and parses what it has when a packet has the marker bit.  The pusher sets the marker
bit of no packet.
-/

namespace LingVoice.LmProtocol

open Lib (beAt byteAt u32At be16 be32 chunks flatten_chunks Mealy.run)
open LmCore List Lib.Mealy

/-! ## The pusher -/

def psPackStartCode : Bytes := [0x00, 0x00, 0x01, 0xBA]
def systemHeaderStartCode : Bytes := [0x00, 0x00, 0x01, 0xBB]

structure PsMuxer where
  headerSent : Bool
  deriving DecidableEq, Repr

namespace PsMuxer

def new : PsMuxer :=
  { headerSent := false }

/-- The pack header has 9 bytes behind the start code, and the system header 10 behind a length of 12. -/
def packHeader : Bytes :=
  psPackStartCode ++ [0x00, 0x00, 0x00, 0x00, 0x00, 0x00, 0x00, 0x00, 0x00]

def systemHeader : Bytes :=
  systemHeaderStartCode ++ [0x00, 0x0C] ++ [0x80, 0x00, 0x00, 0x00, 0x00, 0x00, 0x00, 0x00, 0x00, 0x00]

def streamId : TrackKind → UInt8
  | .video => 0xE0
  | .audio => 0xC0

/-- The length field has 16 bits. -/
def pesPacket (frame : MediaFrame) : Bytes :=
  [0x00, 0x00, 0x01, streamId frame.kind] ++ be16 (UInt16.ofNat (frame.data.length + 3)) ++
    [0x80, 0x00, 0x00] ++ frame.data

def muxFrame (m : PsMuxer) (frame : MediaFrame) : PsMuxer × Bytes :=
  ({ headerSent := true },
    packHeader ++ (if m.headerSent then [] else systemHeader) ++ pesPacket frame)

end PsMuxer

def buildRtpPacket (seq : UInt16) (timestamp ssrc : UInt32) (pt : UInt8) (payload : Bytes)
    (marker : Bool) : Bytes :=
  [(2 : UInt8) <<< 6, ((if marker then 1 else 0 : UInt8) <<< 7) ||| pt] ++ be16 seq ++ be32 timestamp ++
    be32 ssrc ++ payload

def rtpPayloadSize : Nat := 1400

/-- The pusher once it is connected. -/
structure Gb28181Pusher where
  psMuxer : PsMuxer
  rtpSeq : UInt16
  ssrc : UInt32
  rtpTimestamp : UInt32
  deriving DecidableEq, Repr

namespace Gb28181Pusher

def new (ssrc : UInt32) : Gb28181Pusher :=
  { psMuxer := PsMuxer.new, rtpSeq := 0, ssrc := ssrc, rtpTimestamp := 0 }

def packetLoop (timestamp ssrc : UInt32) : UInt16 → List Bytes → UInt16 × List Bytes
  | seq, [] => (seq, [])
  | seq, chunk :: rest =>
    let (next, packets) := packetLoop timestamp ssrc (seq + 1) rest
    (next, buildRtpPacket seq timestamp ssrc 96 chunk false :: packets)

def sendFrame (p : Gb28181Pusher) (frame : MediaFrame) : Gb28181Pusher × List Bytes :=
  let (psMuxer, psData) := p.psMuxer.muxFrame frame
  let (rtpSeq, packets) := packetLoop p.rtpTimestamp p.ssrc p.rtpSeq (chunks rtpPayloadSize psData)
  ({ p with psMuxer := psMuxer, rtpSeq := rtpSeq, rtpTimestamp := p.rtpTimestamp + 9000 }, packets)

end Gb28181Pusher

/-! ## The demuxer -/

/-- The video depacketizer of the demuxer is not used. -/
structure Gb28181Demuxer where
  psBuffer : Bytes
  ssrc : UInt32
  deriving DecidableEq, Repr

namespace Gb28181Demuxer

def new : Gb28181Demuxer :=
  { psBuffer := [], ssrc := 0 }

def videoFrame (ssrc : UInt32) (pesData : Bytes) : MediaFrame :=
  MediaFrame.video .h264 0 pesData ssrc (LmDepacketizer.containsIdr pesData)

def psLoop (ssrc : UInt32) (data : Bytes) : Nat → Nat → List MediaFrame
  | 0, _ => []
  | fuel + 1, offset =>
    if data.length < offset + 4 then []
    else if u32At data offset = 0x000001BA then
      let stuffingLength := (byteAt data (offset + 13) &&& 0x07).toNat
      if data.length < offset + 14 ∨ data.length < offset + 14 + stuffingLength then []
      else psLoop ssrc data fuel (offset + 14 + stuffingLength)
    else if u32At data offset = 0x000001BB ∨ u32At data offset = 0x000001BC then
      if data.length < offset + 6 then []
      else psLoop ssrc data fuel (offset + 6 + beAt 2 data (offset + 4))
    else if u32At data offset &&& 0xFFFFFFF0 = 0x000001E0 then
      let headerLength := (byteAt data (offset + 8)).toNat
      if data.length < offset + 9 ∨ data.length < offset + 9 + headerLength then []
      else
        let payloadStart := offset + 9 + headerLength
        let payloadEnd := min (payloadStart + (beAt 2 data (offset + 4) - (3 + headerLength))) data.length
        if payloadStart < payloadEnd then
          videoFrame ssrc ((data.take payloadEnd).drop payloadStart) :: psLoop ssrc data fuel payloadEnd
        else psLoop ssrc data fuel payloadEnd
    else psLoop ssrc data fuel (offset + 1)

/-- Every turn of the loop moves the offset. -/
def parsePs (d : Gb28181Demuxer) (data : Bytes) : List MediaFrame :=
  psLoop d.ssrc data data.length 0

def pushData (d : Gb28181Demuxer) (data : Bytes) : Gb28181Demuxer × List MediaFrame :=
  if data.length < 12 then (d, [])
  else
    let d := { d with
      ssrc := if d.ssrc = 0 then u32At data 8 else d.ssrc
      psBuffer := d.psBuffer ++ data.drop 12 }
    if byteAt data 1 &&& 0x80 ≠ 0 then ({ d with psBuffer := [] }, d.parsePs d.psBuffer)
    else (d, [])

end Gb28181Demuxer

/-! ## What the demuxer makes of the pusher's packets -/

def ingest (ssrc : UInt32) (frames : List MediaFrame) : List MediaFrame :=
  (Mealy.run Gb28181Demuxer.pushData Gb28181Demuxer.new
    (Mealy.run Gb28181Pusher.sendFrame (Gb28181Pusher.new ssrc) frames).2.flatten).2.flatten

def psStream (m : PsMuxer) (frames : List MediaFrame) : Bytes :=
  (Mealy.run PsMuxer.muxFrame m frames).2.flatten

open Gb28181Demuxer

/-- A packet without the marker bit is only collected. -/
theorem pushData_buildRtpPacket (d : Gb28181Demuxer) (seq : UInt16) (timestamp ssrc : UInt32) (payload : Bytes) :
    d.pushData (buildRtpPacket seq timestamp ssrc 96 payload false) =
      ({ ssrc := if d.ssrc = 0 then ssrc else d.ssrc, psBuffer := d.psBuffer ++ payload }, []) := by
  generalize hdata : buildRtpPacket seq timestamp ssrc 96 payload false = data
  rw [buildRtpPacket] at hdata
  have hlength : ¬ data.length < 12 := by
    rw [← hdata]
    simp
    omega
  have hmarker : byteAt data 1 &&& 0x80 = 0 := by
    have hbyte : ((0 : UInt8) <<< 7 ||| 96) &&& 0x80 = 0 := by decide
    rw [← hdata]
    exact hbyte
  have hssrc : u32At data 8 = ssrc := by
    apply Lib.StandsAt.u32At
    rw [← hdata, append_assoc]
    exact ⟨payload, (drop_left' (by simp)).symm⟩
  have hpayload : data.drop 12 = payload := by
    rw [← hdata]
    exact drop_left' (by simp)
  rw [pushData, if_neg hlength]
  simp only [hmarker, ne_eq, not_true_eq_false, if_false, hssrc, hpayload]

open Lib.Mealy (run_cons run_append)

open Gb28181Pusher

theorem run_packetLoop (timestamp ssrc : UInt32) (pieces : List Bytes) (seq : UInt16) (d : Gb28181Demuxer) :
    (run pushData d (packetLoop timestamp ssrc seq pieces).2).1.psBuffer =
        d.psBuffer ++ pieces.flatten ∧
      (run pushData d (packetLoop timestamp ssrc seq pieces).2).2.flatten = [] := by
  induction pieces generalizing seq d with
  | nil => exact ⟨(append_nil _).symm, rfl⟩
  | cons piece pieces ih =>
    obtain ⟨hbuffer, hframes⟩ := ih (seq + 1)
      { ssrc := if d.ssrc = 0 then ssrc else d.ssrc, psBuffer := d.psBuffer ++ piece }
    rw [packetLoop]
    simp only [run_cons, pushData_buildRtpPacket]
    rw [hbuffer, flatten_cons, flatten_cons, hframes, append_assoc]
    exact ⟨rfl, rfl⟩

/-- The demuxer collects the whole PS stream and returns nothing. -/
theorem run_sendFrame (frames : List MediaFrame) (p : Gb28181Pusher) (d : Gb28181Demuxer) :
    (run pushData d (run sendFrame p frames).2.flatten).1.psBuffer =
        d.psBuffer ++ psStream p.psMuxer frames ∧
      (run pushData d (run sendFrame p frames).2.flatten).2.flatten = [] := by
  induction frames generalizing p d with
  | nil => exact ⟨(append_nil _).symm, rfl⟩
  | cons frame frames ih =>
    obtain ⟨hbuffer, hframes⟩ := run_packetLoop p.rtpTimestamp p.ssrc
      (chunks rtpPayloadSize (p.psMuxer.muxFrame frame).2) p.rtpSeq d
    rw [flatten_chunks (by decide)] at hbuffer
    obtain ⟨hrestBuffer, hrestFrames⟩ := ih (p.sendFrame frame).1
      (run pushData d (p.sendFrame frame).2).1
    have hpackets : (p.sendFrame frame).2 = (packetLoop p.rtpTimestamp p.ssrc p.rtpSeq
      (chunks rtpPayloadSize (p.psMuxer.muxFrame frame).2)).2 := rfl
    rw [run_cons, flatten_cons, run_append]
    constructor
    · rw [hrestBuffer, hpackets, hbuffer, append_assoc]
      rfl
    · rw [flatten_append, hrestFrames, hpackets, hframes]
      rfl

/-- The frames that went in come out only when there are none. -/
theorem ingest_data_iff (ssrc : UInt32) (frames : List MediaFrame) :
    (ingest ssrc frames).map MediaFrame.data = frames.map MediaFrame.data ↔ frames = [] := by
  have hnone : ingest ssrc frames = [] :=
    (run_sendFrame frames (new ssrc) new).2
  rw [hnone]
  constructor
  · intro h
    exact map_eq_nil_iff.mp h.symm
  · rintro rfl
    rfl

/-- One key frame is lost. -/
theorem ingest_one_frame :
    (ingest 1 [MediaFrame.video .h264 9000 [0, 0, 0, 1, 0x65] 1 true]).map MediaFrame.data ≠
      [[0, 0, 0, 1, 0x65]] := by
  decide +kernel

end LingVoice.LmProtocol

import LingVoice.Common.Media
import LingVoice.Lib.Field
import LingVoice.Lib.Mealy
import LingVoice.Lib.Scan

/-!
# PsReceiver — PS streams in RTP packets (`pkg/protocol/gb28181/ps_receiver.go`)

`PSReceiver` parses the payload of every packet on its own: it looks for start codes, skips headers and hands the
NAL units of video PES packets and the payloads of audio PES packets to its handler.  The buffers for PES packets that
span several packets (`pesBuf`) are made and never used.

A position in the data is modelled by the data from there on, so `findStartCode` returns what is left at the start
code, and a function that is given a position is given what is left there and returns how far it goes.  What the handler
is told is the output; its errors are only logged.
-/

namespace LingVoice.Gb28181

open Lib (byteAt u16At firstSuffix Mealy.run)
open Common

/-! ## Start codes -/

def AtStartCode (rest : Bytes) : Prop :=
  4 ≤ rest.length ∧ byteAt rest 0 = 0x00 ∧ byteAt rest 1 = 0x00 ∧ byteAt rest 2 = 0x01

instance (rest : Bytes) : Decidable (AtStartCode rest) :=
  inferInstanceAs (Decidable (_ ∧ _))

def findStartCode (rest : Bytes) : Option Bytes :=
  firstSuffix AtStartCode rest

/-! ## Headers and sections -/

def skipPackHeader (rest : Bytes) : Except String Nat :=
  if rest.length < 14 then
    .error "gb28181 ps: pack header too short"
  else
    let stuffingLen := (byteAt rest 13 &&& 0x07).toNat
    if rest.length < 14 + stuffingLen then
      .error "gb28181 ps: pack header stuffing overflow"
    else
      .ok (14 + stuffingLen)

/-- A length of 0 and one that is too large go to the end of the data. -/
def skipSection (rest : Bytes) : Except String Nat :=
  if rest.length < 6 then
    .error "gb28181 ps: section too short"
  else
    let length := (u16At rest 4).toNat
    if length = 0 then
      .ok rest.length
    else if rest.length < 6 + length then
      .ok rest.length
    else
      .ok (6 + length)

structure PesPacket where
  streamID : UInt8
  payloadLen : Nat
  pts : Nat
  dts : Nat
  hasPTS : Bool
  hasDTS : Bool
  payload : Bytes
  deriving DecidableEq, Repr

def parsePTS (b : Bytes) : Nat :=
  if b.length < 5 then
    0
  else
    ((byteAt b 0 &&& 0x0E).toNat <<< 29) ||| ((byteAt b 1).toNat <<< 22) ||| ((byteAt b 2 &&& 0xFE).toNat <<< 14) |||
      ((byteAt b 3).toNat <<< 7) ||| ((byteAt b 4 &&& 0xFE).toNat >>> 1)

/-- The packet and where it ends.  What is missing of the packet is not waited for; the flags for the timestamps are
taken from the length of the optional header. -/
def parsePES (rest : Bytes) : Except String (PesPacket × Nat) :=
  if rest.length < 9 then
    .error "gb28181 pes: header too short"
  else
    let length := (u16At rest 4).toNat
    let flags2 := byteAt rest 8
    let pesHeaderDataLen := if rest.length < 9 + (byteAt rest 8).toNat then 0 else (byteAt rest 8).toNat
    let hasPTS := 5 ≤ pesHeaderDataLen ∧ flags2 &&& 0xC0 = 0x80
    let hasBoth := 10 ≤ pesHeaderDataLen ∧ flags2 &&& 0xC0 = 0xC0
    let payloadEnd := min (if length = 0 then rest.length else 6 + length) rest.length
    let payloadStart := min (9 + pesHeaderDataLen) payloadEnd
    .ok ({ streamID := byteAt rest 3
           payloadLen := length
           pts := if hasPTS ∨ hasBoth then parsePTS (rest.drop 9) else 0
           dts := if hasPTS then 0 else if hasBoth then parsePTS (rest.drop 14) else 0
           hasPTS := hasPTS ∨ hasBoth
           hasDTS := ¬ hasPTS ∧ hasBoth
           payload := (rest.take payloadEnd).drop payloadStart },
      payloadEnd)

/-- The switch of `parsePSStream`: the PES packet at the start code, if it is one, and where to go on. -/
def parseStartCode (rest : Bytes) : Except String (Option (TrackKind × PesPacket) × Nat) :=
  let streamCode := byteAt rest 3
  if streamCode = 0xBA then do
    return (none, ← skipPackHeader rest)
  else if streamCode = 0xBB then do
    return (none, ← skipSection rest)
  else if streamCode = 0xBC then do
    return (none, ← skipSection rest)
  else if streamCode = 0xE0 ∨ (0xE0 ≤ streamCode ∧ streamCode ≤ 0xEF) then do
    let (pes, stop) ← parsePES rest
    return (some (.trackVideo, pes), stop)
  else if streamCode = 0xC0 ∨ (0xC0 ≤ streamCode ∧ streamCode ≤ 0xDF) then do
    let (pes, stop) ← parsePES rest
    return (some (.trackAudio, pes), stop)
  else if streamCode = 0xBE then do
    return (none, ← skipSection rest)
  else do
    return (none, ← skipSection rest)

/-! ## NAL units -/

def startCodeLen (rest : Bytes) : Nat :=
  if 4 ≤ rest.length ∧ byteAt rest 0 = 0 ∧ byteAt rest 1 = 0 ∧ byteAt rest 2 = 0 ∧ byteAt rest 3 = 1 then
    4
  else if 3 ≤ rest.length ∧ byteAt rest 0 = 0 ∧ byteAt rest 1 = 0 ∧ byteAt rest 2 = 1 then
    3
  else
    0

/-- Every turn takes at least one byte. -/
def splitLoop : Nat → Bytes → List Bytes
  | 0, _ => []
  | _, [] => []
  | fuel + 1, b :: rest =>
    if startCodeLen (b :: rest) = 0 then
      splitLoop fuel rest
    else
      let nal := (b :: rest).drop (startCodeLen (b :: rest))
      -- the next start code is looked for behind the first byte of the unit
      match findStartCode (nal.drop 1) with
      | some next => nal.take (nal.length - next.length) :: splitLoop fuel next
      | none => [nal]

def splitAnnexB (data : Bytes) : List Bytes :=
  splitLoop data.length data

/-! ## The receiver -/

structure TrackInfo where
  id : String
  kind : TrackKind
  codec : CodecType
  sampleRate : UInt32
  channels : UInt16 := 0
  streamID : String
  deriving DecidableEq, Repr

inductive Output
  | trackAdded (track : TrackInfo)
  | mediaFrame (trackID : String) (frame : MediaFrame)
  deriving DecidableEq, Repr

structure PSReceiver where
  deviceID : String
  rtpSSRC : UInt32
  videoReported : Bool := false
  audioReported : Bool := false
  videoSeq : UInt16 := 0
  audioSeq : UInt16 := 0
  deriving DecidableEq, Repr

/-- A packet as `rtp.Packet.Unmarshal` returns it. -/
structure RtpPacket where
  timestamp : UInt32
  sequenceNumber : UInt16
  marker : Bool
  payload : Bytes
  deriving DecidableEq, Repr

inductive Datagram
  | rtp (pkt : RtpPacket)
  | other (data : Bytes)
  deriving DecidableEq, Repr

namespace PSReceiver

def reportVideoTrack (r : PSReceiver) : PSReceiver × List Output :=
  if r.videoReported then
    (r, [])
  else
    ({ r with videoReported := true },
      [.trackAdded
        { id := "video", kind := .trackVideo, codec := .h264, sampleRate := 90000, streamID := r.deviceID }])

def reportAudioTrack (r : PSReceiver) : PSReceiver × List Output :=
  if r.audioReported then
    (r, [])
  else
    ({ r with audioReported := true },
      [.trackAdded
        { id := "audio", kind := .trackAudio, codec := .g711u, sampleRate := 8000, channels := 1,
          streamID := r.deviceID }])

def videoLoop (rtpTS : UInt32) (rtpMarker : Bool) : PSReceiver → List Bytes → PSReceiver × List Output
  | r, [] => (r, [])
  | r, nal :: nalus =>
    if nal.length = 0 then
      videoLoop rtpTS rtpMarker r nalus
    else
      let frame : MediaFrame :=
        { type := .frameVideo
          codec := .h264
          payload := nal
          timestamp := rtpTS
          sequence := r.videoSeq
          sampleRate := 90000
          ssrc := r.rtpSSRC
          -- only the last unit of the list has the marker of the packet
          marker := rtpMarker && nalus.isEmpty }
      let (r, rest) := videoLoop rtpTS rtpMarker { r with videoSeq := r.videoSeq + 1 } nalus
      (r, .mediaFrame "video" frame :: rest)

def handleVideoPES (r : PSReceiver) (pes : PesPacket) (rtpTS : UInt32) (rtpMarker : Bool) :
    PSReceiver × List Output :=
  if pes.payload.length = 0 then
    (r, [])
  else
    let (r, reported) := r.reportVideoTrack
    let (r, frames) := videoLoop rtpTS rtpMarker r (splitAnnexB pes.payload)
    (r, reported ++ frames)

def handleAudioPES (r : PSReceiver) (pes : PesPacket) (rtpTS : UInt32) : PSReceiver × List Output :=
  if pes.payload.length = 0 then
    (r, [])
  else
    let (r, reported) := r.reportAudioTrack
    let frame : MediaFrame :=
      { type := .frameAudio
        codec := .g711u
        payload := pes.payload
        timestamp := rtpTS
        sequence := r.audioSeq
        sampleRate := 8000
        channels := 1
        ssrc := r.rtpSSRC
        marker := true }
    ({ r with audioSeq := r.audioSeq + 1 }, reported ++ [.mediaFrame "audio" frame])

def handlePES (r : PSReceiver) (rtpTS : UInt32) (rtpMarker : Bool) :
    Option (TrackKind × PesPacket) → PSReceiver × List Output
  | none => (r, [])
  | some (.trackVideo, pes) => r.handleVideoPES pes rtpTS rtpMarker
  | some (.trackAudio, pes) => r.handleAudioPES pes rtpTS

/-- The loop of `parsePSStream`.  Every turn goes behind the start code it has found.  An error ends it. -/
def parseLoop (rtpTS : UInt32) (rtpMarker : Bool) : Nat → PSReceiver → Bytes → PSReceiver × List Output
  | 0, r, _ => (r, [])
  | fuel + 1, r, rest =>
    match findStartCode rest with
    | none => (r, [])
    | some found =>
      match parseStartCode found with
      | .error _ => (r, [])
      | .ok (pes, stop) =>
        let (r, handed) := r.handlePES rtpTS rtpMarker pes
        let (r, later) := parseLoop rtpTS rtpMarker fuel r (found.drop stop)
        (r, handed ++ later)

/-- The sequence number of the packet is passed on and not used. -/
def parsePSStream (r : PSReceiver) (data : Bytes) (rtpTS : UInt32) (_rtpSeq : UInt16) (rtpMarker : Bool) :
    PSReceiver × List Output :=
  parseLoop rtpTS rtpMarker data.length r data

def processPacket (r : PSReceiver) : Datagram → PSReceiver × List Output
  | .rtp pkt =>
    if pkt.payload.length = 0 then
      (r, [])
    else
      r.parsePSStream pkt.payload pkt.timestamp pkt.sequenceNumber pkt.marker
  | .other data =>
    if data.length = 0 then
      (r, [])
    else
      r.parsePSStream data 0 0 false

end PSReceiver

end LingVoice.Gb28181

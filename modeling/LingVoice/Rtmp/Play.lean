import LingVoice.Common.Media
import LingVoice.Lib.Field
import LingVoice.Rtmp.Chunk

/-!
# Play — frames sent to an RTMP player (`pkg/protocol/rtmp/handler_play.go`)

A `playSession` turns frames into audio and video messages.  It sends a sequence header with the decoder
configuration in front of the first frame, and again after the configuration was set anew.

The connection is the list of the messages that are written to it, and every write succeeds.  A Go panic is an
`Except` error; an error that a function returns is part of its result.
-/

namespace LingVoice.Rtmp

open Lib
open Common (MediaFrame)

/-- What ends the program. -/
inductive Panic
  | indexOutOfRange
  | divideByZero
  deriving DecidableEq, Repr

structure AvcDecoderConfig where
  sps : Bytes
  pps : Bytes
  deriving DecidableEq, Repr

structure AacDecoderConfig where
  sampleRate : UInt32
  channels : UInt16
  deriving DecidableEq, Repr

structure PlaySession where
  /-- `conn.streamID` -/
  streamID : UInt32
  avcConfig : Option AvcDecoderConfig
  aacConfig : Option AacDecoderConfig
  /-- `none` is the nil slice, which is not the same as an empty one. -/
  aacASC : Option Bytes
  videoSeqHeaderSent : Bool
  audioSeqHeaderSent : Bool
  deriving DecidableEq, Repr

/-- What a call leaves behind: the session, the messages that are written and the error that is returned. -/
structure Outcome where
  session : PlaySession
  written : List Message
  err : Option String
  deriving DecidableEq, Repr

/-! ## Annex B -/

def isStartCode (data : Bytes) : Bool :=
  [0, 0, 0, 1].isPrefixOf data || [0, 0, 1].isPrefixOf data

def startCodeLen (data : Bytes) : Nat :=
  if [0, 0, 0, 1].isPrefixOf data then 4
  else if [0, 0, 1].isPrefixOf data then 3
  else 0

def findNextStartCode : Bytes → Option Nat
  | [] => none
  | b :: rest => if isStartCode (b :: rest) then some 0 else (findNextStartCode rest).map (· + 1)

def annexBUnits (data : Bytes) : List Bytes :=
  if _h : data = [] then
    []
  else if _hcode : startCodeLen data = 0 then
    annexBUnits (data.drop 1)
  else
    let body := data.drop (startCodeLen data)
    match findNextStartCode body with
    | none => [body]
    | some next => body.take next :: annexBUnits (body.drop next)
termination_by data.length
decreasing_by
  · simp only [List.length_drop]
    have := List.length_pos_of_ne_nil _h
    omega
  · simp only [List.length_drop]
    have := List.length_pos_of_ne_nil _h
    omega

def parseAnnexB (data : Bytes) : List Bytes :=
  if data.length < 3 then []
  else if !isStartCode data then []
  else annexBUnits data

/-- The units behind their lengths, and whether there is an IDR slice. -/
def frameToAVC (payload : Bytes) : Bytes × Bool :=
  if payload = [] then
    ([], false)
  else
    let nalus := if parseAnnexB payload = [] then [payload] else parseAnnexB payload
    let units := nalus.filter (· ≠ [])
    (units.flatMap fun nal => be32 (UInt32.ofNat nal.length) ++ nal,
      units.any fun nal => nal.headD 0 &&& 0x1F = 5)

/-! ## The session -/

namespace PlaySession

def new (streamID : UInt32) : PlaySession where
  streamID := streamID
  avcConfig := none
  aacConfig := none
  aacASC := none
  videoSeqHeaderSent := false
  audioSeqHeaderSent := false

def setVideoConfig (ps : PlaySession) (sps pps : Bytes) : PlaySession :=
  { ps with avcConfig := some ⟨sps, pps⟩, videoSeqHeaderSent := false }

def setAudioConfig (ps : PlaySession) (asc : Option Bytes) (sampleRate : UInt32) (channels : UInt16) :
    PlaySession :=
  { ps with aacASC := asc, aacConfig := some ⟨sampleRate, channels⟩, audioSeqHeaderSent := false }

/-- `conn.writeMediaMessage` -/
def mediaMessage (ps : PlaySession) (type : UInt8) (timestamp : UInt32) (payload : Bytes) : Message :=
  { type := type, streamID := ps.streamID, csid := 6, timestamp := timestamp, payload := payload }

def avcRecord (profile compatibility level : UInt8) (config : AvcDecoderConfig) : Bytes :=
  [1, profile, compatibility, level, 0xFF, 0xE1] ++ be16 (UInt16.ofNat config.sps.length) ++ config.sps ++
    [1] ++ be16 (UInt16.ofNat config.pps.length) ++ config.pps

/-- The sequence header to write, or the error that is returned. -/
def sendAVCSequenceHeader (ps : PlaySession) : Except Panic (Except String Message) :=
  match ps.avcConfig with
  | none => .ok (.error "avc config not set (sps/pps missing)")
  | some config =>
    if config.sps = [] ∨ config.pps = [] then
      .ok (.error "avc config not set (sps/pps missing)")
    else
      -- the record copies `sps[1]`, `sps[2]` and `sps[3]`
      match config.sps with
      | _ :: profile :: compatibility :: level :: _ =>
        .ok (.ok (ps.mediaMessage 9 0 ([0x17, 0, 0, 0, 0] ++ avcRecord profile compatibility level config)))
      | _ => .error .indexOutOfRange

/-- The part of `sendVideoFrame` behind the sequence header; `before` is what has been written so far. -/
def sendNalus (ps : PlaySession) (frame : MediaFrame) (before : List Message) : Outcome :=
  let (avcData, isKeyframe) := frameToAVC frame.payload
  if avcData = [] then
    ⟨ps, before, none⟩
  else
    let frameType : UInt8 := if isKeyframe then 1 else 2
    let payload := [(frameType <<< 4) ||| 7, 1, 0, 0, 0] ++ avcData
    ⟨ps, before ++ [ps.mediaMessage 9 (frame.timestamp / 90) payload], none⟩

def sendVideoFrame (ps : PlaySession) (frame : MediaFrame) : Except Panic Outcome :=
  if frame.codec ≠ .h264 then
    .ok ⟨ps, [], none⟩
  else if !ps.videoSeqHeaderSent && ps.avcConfig.isSome then
    match ps.sendAVCSequenceHeader with
    | .error panic => .error panic
    | .ok (.error e) => .ok ⟨ps, [], some ("send avc seq header: " ++ e)⟩
    | .ok (.ok header) => .ok ({ ps with videoSeqHeaderSent := true }.sendNalus frame [header])
  else
    .ok (ps.sendNalus frame [])

def audioFirstByte (ps : PlaySession) : UInt8 :=
  let channelType : UInt8 :=
    match ps.aacConfig with
    | some config => if config.channels = 1 then 0 else 1
    | none => 1
  0xA0 ||| 0x0E ||| channelType

def sendAACSequenceHeader (ps : PlaySession) : Except String Message :=
  if ps.aacASC.getD [] = [] then
    .error "aac audio specific config not set"
  else
    .ok (ps.mediaMessage 8 0 ([ps.audioFirstByte, 0] ++ ps.aacASC.getD []))

/-- The rate of the frame's timestamp: the frame's own one, the configured one or 44100. -/
def clockRate (ps : PlaySession) (frame : MediaFrame) : UInt32 :=
  let configured : UInt32 :=
    match ps.aacConfig with
    | some config => config.sampleRate
    | none => 44100
  if 0 < frame.sampleRate then frame.sampleRate else configured

def sendRaw (ps : PlaySession) (frame : MediaFrame) (before : List Message) : Except Panic Outcome :=
  if frame.payload = [] then
    .ok ⟨ps, before, none⟩
  else if ps.clockRate frame = 0 then
    -- an integer division by zero ends the program
    .error .divideByZero
  else
    let ts := UInt32.ofNat (frame.timestamp.toNat * 1000 / (ps.clockRate frame).toNat)
    .ok ⟨ps, before ++ [ps.mediaMessage 8 ts ([ps.audioFirstByte, 1] ++ frame.payload)], none⟩

def sendAudioFrame (ps : PlaySession) (frame : MediaFrame) : Except Panic Outcome :=
  if frame.codec ≠ .aac then
    .ok ⟨ps, [], none⟩
  else if !ps.audioSeqHeaderSent && ps.aacASC.isSome then
    match ps.sendAACSequenceHeader with
    | .error e => .ok ⟨ps, [], some ("send aac seq header: " ++ e)⟩
    | .ok header => { ps with audioSeqHeaderSent := true }.sendRaw frame [header]
  else
    ps.sendRaw frame []

def processFrame (ps : PlaySession) (frame : MediaFrame) : Except Panic Outcome :=
  match frame.type with
  | .frameVideo => ps.sendVideoFrame frame
  | .frameAudio => ps.sendAudioFrame frame

/-! ## Runs -/

inductive Call
  | setVideoConfig (sps pps : Bytes)
  | setAudioConfig (asc : Option Bytes) (sampleRate : UInt32) (channels : UInt16)
  | processFrame (frame : MediaFrame)
  deriving DecidableEq, Repr

/-- What is seen of a run: configurations that are set and messages that are written. -/
inductive Event
  | setVideo (sps pps : Bytes)
  | setAudio (asc : Bytes)
  | wrote (message : Message)
  deriving DecidableEq, Repr

def call (ps : PlaySession) : Call → Except Panic (PlaySession × List Event)
  | .setVideoConfig sps pps => .ok (ps.setVideoConfig sps pps, [.setVideo sps pps])
  | .setAudioConfig asc sampleRate channels =>
    .ok (ps.setAudioConfig asc sampleRate channels, [.setAudio (asc.getD [])])
  | .processFrame frame =>
    (ps.processFrame frame).map fun outcome => (outcome.session, outcome.written.map .wrote)

end PlaySession
end LingVoice.Rtmp

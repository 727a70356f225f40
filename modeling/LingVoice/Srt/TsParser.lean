import LingVoice.Common.Media
import LingVoice.Lib.Slice

/-!
# TsParser — the MPEG-TS demuxer of the SRT package (`pkg/protocol/srt/ts_parser.go`)

`feedTSData` buffers what arrives, cuts it into 188-byte packets at sync bytes, learns the PMT PID from
the PAT and the elementary streams from the PMT, and collects PES packets per PID; a PES packet is
handed to the event handler when the next one of its PID begins.  Every index and slice expression of
the source is one of `Slice.index` and `Slice.slice` here, and every loop has a number of turns, so that
a panic or an endless loop is a fault.
-/

namespace LingVoice.Srt

open Lib Lib.Slice Common

def tsPacketSize : Nat := 188
def tsSyncByte : UInt8 := 0x47
def pidPAT : UInt16 := 0x0000

def afcPayloadOnly : UInt8 := 0x01
def afcAdaptationOnly : UInt8 := 0x02
def afcBoth : UInt8 := 0x03

def streamTypeMPEG2Video : UInt8 := 0x02
def streamTypeMPEG2Audio : UInt8 := 0x04
def streamTypeH264 : UInt8 := 0x1B
def streamTypeH265 : UInt8 := 0x24
def streamTypeAACADTS : UInt8 := 0x0F
def streamTypeG711U : UInt8 := 0x90

def codecFromStreamType (st : UInt8) : Option (CodecType × TrackKind) :=
  if st = streamTypeH264 then some (.h264, .trackVideo)
  else if st = streamTypeH265 then some (.h265, .trackVideo)
  else if st = streamTypeMPEG2Video then some (.h264, .trackVideo)
  else if st = streamTypeAACADTS then some (.aac, .trackAudio)
  else if st = streamTypeMPEG2Audio then some (.aac, .trackAudio)
  else if st = streamTypeG711U then some (.g711u, .trackAudio)
  else none

/-! ## One packet -/

structure TsPacket where
  pid : UInt16
  payloadUnitStart : Bool
  transportError : Bool
  adaptationFieldControl : UInt8
  continuityCounter : UInt8
  payload : Bytes
  deriving DecidableEq, Repr

/-- Where the payload begins, behind an adaptation field if there is one. -/
def payloadOffset (buf : Bytes) (afc : UInt8) : Except Fault Nat :=
  if afc = afcAdaptationOnly ∨ afc = afcBoth then do
    let afLen ← index buf 4
    return min (5 + afLen.toNat) buf.length
  else
    return 4

def packetPayload (buf : Bytes) (afc : UInt8) (off : Nat) : Except Fault Bytes :=
  if afc = afcPayloadOnly ∨ afc = afcBoth then slice buf off tsPacketSize else return []

/-- `parseTSPacket`; `none` when the buffer is too short or does not begin with a sync byte. -/
def parseTSPacket (buf : Bytes) : Except Fault (Option TsPacket) :=
  if buf.length < tsPacketSize then
    return none
  else do
    let sync ← index buf 0
    if sync ≠ tsSyncByte then
      return none
    else
      let b1 ← index buf 1
      let b2 ← index buf 2
      let b3 ← index buf 3
      let afc := (b3 >>> 4) &&& 0x03
      let off ← payloadOffset buf afc
      let payload ← packetPayload buf afc off
      return some
        { transportError := b1 &&& 0x80 != 0
          payloadUnitStart := b1 &&& 0x40 != 0
          pid := (b1 &&& 0x1F).toUInt16 <<< 8 ||| b2.toUInt16
          adaptationFieldControl := afc
          continuityCounter := b3 &&& 0x0F
          payload := payload }

/-- `parsePESHeader`: what follows the header; `none` when it is not a PES packet. -/
def parsePESHeader (payload : Bytes) : Except Fault (Option Bytes) :=
  if payload.length < 9 then
    return none
  else do
    let b0 ← index payload 0
    let b1 ← index payload 1
    let b2 ← index payload 2
    if b0 ≠ 0x00 ∨ b1 ≠ 0x00 ∨ b2 ≠ 0x01 then
      return none
    else
      let headerDataLen ← index payload 8
      let off := 9 + headerDataLen.toNat
      if payload.length < off then
        return none
      else
        let es ← slice payload off payload.length
        return some es

/-! ## NAL units -/

/-- The comparisons for a start code of `zeros` zero bytes and a one at `i`, up to the first that
fails. -/
def startCodeAt (data : Bytes) (i : Nat) : Nat → Except Fault Bool
  | 0 => do
      let b ← index data i
      return b == 0x01
  | zeros + 1 => do
      let b ← index data i
      if b = 0 then startCodeAt data (i + 1) zeros else return false

def hasStartCode (data : Bytes) (i zeros : Nat) : Except Fault Bool :=
  if i + zeros < data.length then startCodeAt data i zeros else return false

def nalUpTo (data : Bytes) (start : Option Nat) (i : Nat) : Except Fault (List Bytes) :=
  match start with
  | some start => do
      let nal ← slice data start i
      return [nal]
  | none => return []

/-- The length of the start code at `i`, 0 if there is none; the code of three bytes is tried first. -/
def startCodeLen (data : Bytes) (i : Nat) : Except Fault Nat := do
  let three ← hasStartCode data i 2
  if three then
    return 3
  else
    let four ← hasStartCode data i 3
    return if four then 4 else 0

def lastNAL (data : Bytes) (start : Option Nat) : Except Fault (List Bytes) :=
  match start with
  | some k => if k < data.length then nalUpTo data (some k) data.length else return []
  | none => return []

def splitLoop (data : Bytes) :
    Nat → (start : Option Nat) → (i : Nat) → Except Fault (List Bytes)
  | 0, _, _ => .error .outOfFuel
  | n + 1, start, i =>
    if i < data.length then do
      let k ← startCodeLen data i
      if k = 0 then
        splitLoop data n start (i + 1)
      else
        let nal ← nalUpTo data start i
        let nals ← splitLoop data n (some (i + k)) (i + k)
        return nal ++ nals
    else
      lastNAL data start

def splitNALUnits (data : Bytes) : Except Fault (List Bytes) :=
  splitLoop data (data.length + 1) none 0

def isKeyFrameNAL (codec : CodecType) (nal : Bytes) : Except Fault Bool :=
  if nal.length = 0 then
    return false
  else
    match codec with
    | .h264 => do
        let b ← index nal 0
        return b &&& 0x1F == 5
    | .h265 => do
        let b ← index nal 0
        let nalType := (b >>> 1) &&& 0x3F
        return decide (16 ≤ nalType) && decide (nalType ≤ 21)
    | _ => return false

/-! ## The session -/

structure TsStreamInfo where
  pid : UInt16
  streamType : UInt8
  codec : CodecType
  kind : TrackKind
  pesBuffer : Bytes := []
  hasPayload : Bool := false
  deriving DecidableEq, Repr

structure TsParser where
  pmtPID : UInt16
  videoPID : UInt16
  audioPID : UInt16
  videoCodec : Option CodecType
  audioCodec : Option CodecType
  streams : UInt16 → Option TsStreamInfo

def newTSParser : TsParser :=
  { pmtPID := 0
    videoPID := 0
    audioPID := 0
    videoCodec := none
    audioCodec := none
    streams := fun _ => none }

structure Session where
  tsBuffer : Bytes
  tsPackets : Nat
  tsParser : TsParser
  /-- Is there an event handler? -/
  handler : Bool
  /-- The calls of the handler's `OnMediaFrame`, with their track. -/
  frames : List (String × MediaFrame)

def newSession (handler : Bool) : Session :=
  { tsBuffer := []
    tsPackets := 0
    tsParser := newTSParser
    handler := handler
    frames := [] }

namespace Session

def onMediaFrame (s : Session) (trackID : String) (frame : MediaFrame) : Session :=
  { s with frames := s.frames ++ [(trackID, frame)] }

def flushNALs (codec : CodecType) (trackID : String) :
    Session → List Bytes → Except Fault Session
  | s, [] => return s
  | s, nal :: nals =>
    if nal.length = 0 then
      flushNALs codec trackID s nals
    else do
      let marker ← isKeyFrameNAL codec nal
      flushNALs codec trackID
        (s.onMediaFrame trackID
          { type := .frameVideo, codec := codec, payload := nal, marker := marker }) nals

def flushPES (s : Session) (info : TsStreamInfo) : Except Fault Session :=
  if info.pesBuffer.length = 0 ∨ s.handler = false then
    return s
  else
    let trackID := if info.kind = .trackAudio then "audio" else "video"
    match info.codec with
    | .h264 | .h265 => do
        let nals ← splitNALUnits info.pesBuffer
        flushNALs info.codec trackID s nals
    | .aac =>
      return s.onMediaFrame trackID { type := .frameAudio, codec := .aac, payload := info.pesBuffer }
    | .g711u | .g711a | .pcmu | .pcma =>
      return s.onMediaFrame trackID
        { type := .frameAudio, codec := info.codec, payload := info.pesBuffer }
    | _ =>
      return s.onMediaFrame trackID
        { type := frameTypeFromKind info.kind, codec := info.codec, payload := info.pesBuffer }

def setStream (s : Session) (pid : UInt16) (info : TsStreamInfo) : Session :=
  { s with tsParser :=
    { s.tsParser with streams := Function.update s.tsParser.streams pid (some info) } }

def patLoop (body : Bytes) : Nat → TsParser → (i : Nat) → Except Fault TsParser
  | 0, _, _ => .error .outOfFuel
  | n + 1, t, i =>
    if i + 4 ≤ body.length then do
      let programNum ← uint16At body i
      let pmtPID := (← uint16At body (i + 2)) &&& 0x1FFF
      let t := if programNum ≠ 0 ∧ pmtPID ≠ 0 then { t with pmtPID := pmtPID } else t
      patLoop body n t (i + 4)
    else
      return t

/-- How `parsePAT` and `parsePMT` begin: the section behind the pointer field with its length, when the packet starts one
and all of it is there. -/
def sectionOf (pkt : TsPacket) (size : Nat) : Except Fault (Option (Bytes × Nat)) :=
  if !pkt.payloadUnitStart || pkt.payload.length < 1 then
    return none
  else do
    let pointer ← index pkt.payload 0
    let off := 1 + pointer.toNat
    if pkt.payload.length < off + size then
      return none
    else
      let sec ← slice pkt.payload off pkt.payload.length
      let sectionLen := ((← uint16At sec 1) &&& 0x0FFF).toNat
      if sec.length < 3 + sectionLen then return none else return some (sec, sectionLen)

def parsePAT (s : Session) (pkt : TsPacket) : Except Fault Session := do
  match ← sectionOf pkt 8 with
  | none => return s
  | some (sec, sectionLen) =>
    let body ← slice sec 8 (3 + (sectionLen : Int) - 4)
    let t ← patLoop body (body.length + 1) s.tsParser 0
    return { s with tsParser := t }

/-- What an entry of the PMT registers. -/
def registerStream (t : TsParser) (streamType : UInt8) (esPID : UInt16) : TsParser :=
  match codecFromStreamType streamType with
  | none => t
  | some (codec, kind) =>
    let t :=
      match t.streams esPID with
      | some _ => t
      | none =>
        let info : TsStreamInfo :=
          { pid := esPID, streamType := streamType, codec := codec, kind := kind }
        { t with streams := Function.update t.streams esPID (some info) }
    if kind = .trackVideo ∧ t.videoPID = 0 then
      { t with videoPID := esPID, videoCodec := some codec }
    else if kind = .trackAudio ∧ t.audioPID = 0 then
      { t with audioPID := esPID, audioCodec := some codec }
    else
      t

def pmtLoop (body : Bytes) : Nat → TsParser → (i : Nat) → Except Fault TsParser
  | 0, _, _ => .error .outOfFuel
  | n + 1, t, i =>
    if i + 5 ≤ body.length then do
      let streamType ← index body i
      let esPID := (← uint16At body (i + 1)) &&& 0x1FFF
      let esInfoLen := ((← uint16At body (i + 3)) &&& 0x0FFF).toNat
      pmtLoop body n (registerStream t streamType esPID) (i + (5 + esInfoLen))
    else
      return t

def parsePMT (s : Session) (pkt : TsPacket) : Except Fault Session := do
  match ← sectionOf pkt 12 with
  | none => return s
  | some (sec, sectionLen) =>
    let programInfoLen := ((← uint16At sec 10) &&& 0x0FFF).toNat
    let esStart := 12 + programInfoLen
    let body ← slice sec esStart (3 + (sectionLen : Int) - 4)
    let t ← pmtLoop body (body.length + 1) s.tsParser 0
    return { s with tsParser := t }

def flushPending (s : Session) (info : TsStreamInfo) : Except Fault Session :=
  if 0 < info.pesBuffer.length then s.flushPES info else return s

def processPES (s : Session) (pkt : TsPacket) : Except Fault Session :=
  match s.tsParser.streams pkt.pid with
  | none => return s
  | some info =>
    if pkt.payloadUnitStart then do
      let s ← s.flushPending info
      match ← parsePESHeader pkt.payload with
      | some es => return s.setStream pkt.pid { info with pesBuffer := es, hasPayload := true }
      | none => return s.setStream pkt.pid { info with pesBuffer := [], hasPayload := false }
    else
      return s.setStream pkt.pid { info with pesBuffer := info.pesBuffer ++ pkt.payload }

def processTSPacket (s : Session) (pkt : TsPacket) : Except Fault Session :=
  if pkt.pid = pidPAT then s.parsePAT pkt
  else if s.tsParser.pmtPID ≠ 0 ∧ pkt.pid = s.tsParser.pmtPID then s.parsePMT pkt
  else s.processPES pkt

/-- The search for a sync byte with a whole packet behind it. -/
def findSync (buf : Bytes) : Nat → (i : Nat) → Except Fault (Option Nat)
  | 0, _ => .error .outOfFuel
  | n + 1, i =>
    if i + tsPacketSize ≤ buf.length then do
      let b ← index buf i
      if b = tsSyncByte then return some i else findSync buf n (i + 1)
    else
      return none

def takePacket (s : Session) : Except Fault Session := do
  let pkt ← parseTSPacket (← slice s.tsBuffer 0 tsPacketSize)
  let rest ← slice s.tsBuffer tsPacketSize s.tsBuffer.length
  let s := { s with tsBuffer := rest }
  match pkt with
  | none => return s
  | some pkt =>
    let s := { s with tsPackets := s.tsPackets + 1 }
    if pkt.transportError ∨ pkt.payload.length = 0 then return s else s.processTSPacket pkt

def feedLoop : Nat → Session → Except Fault Session
  | 0, _ => .error .outOfFuel
  | n + 1, s =>
    if tsPacketSize ≤ s.tsBuffer.length then do
      match ← findSync s.tsBuffer (s.tsBuffer.length + 1) 0 with
      | none =>
        if 1 < s.tsBuffer.length then
          let rest ← slice s.tsBuffer (s.tsBuffer.length - 1) s.tsBuffer.length
          return { s with tsBuffer := rest }
        else
          return s
      | some idx =>
        let rest ← slice s.tsBuffer idx s.tsBuffer.length
        let s := { s with tsBuffer := rest }
        if s.tsBuffer.length < tsPacketSize then
          return s
        else
          let s ← s.takePacket
          feedLoop n s
    else
      return s

def feedTSData (s : Session) (data : Bytes) : Except Fault Session :=
  let s := { s with tsBuffer := s.tsBuffer ++ data }
  feedLoop (s.tsBuffer.length + 1) s

def feedAll : Session → List Bytes → Except Fault Session
  | s, [] => return s
  | s, data :: datas => do
      let s ← s.feedTSData data
      feedAll s datas

end Session

end LingVoice.Srt

import LingVoice.Lib.Crc32
import LingVoice.Lib.Endian
import LingVoice.LmCore.Media

/-!
# Ts — the MPEG-TS muxer (`lm-protocol/src/ts.rs`)

`TsMuxer` turns media frames into 188-byte packets: a PAT and a PMT before the first frame, video PES
packets cut over as many TS packets as they need, with the PCR in the first of them, and audio PES
packets in one TS packet each.  The continuity counters are the muxer's state.

A packet that the source builds by pushing and patching bytes is built by the same steps here.
-/

namespace LingVoice.LmProtocol

open Lib LmCore

def tsPacketSize : Nat := 188
def tsSyncByte : UInt8 := 0x47
def patPid : UInt16 := 0x0000
def pmtPid : UInt16 := 0x1000
def videoPid : UInt16 := 0x0100
def audioPid : UInt16 := 0x0101
def pcrPid : UInt16 := videoPid
def streamTypeH264 : UInt8 := 0x1B
def streamTypeAac : UInt8 := 0x0F

/-! ## Headers -/

structure TsHeader where
  syncByte : UInt8
  transportErrorIndicator : Bool
  payloadUnitStartIndicator : Bool
  transportPriority : Bool
  pid : UInt16
  transportScramblingControl : UInt8
  adaptationFieldControl : UInt8
  continuityCounter : UInt8

def TsHeader.toBytes (h : TsHeader) : Bytes :=
  [h.syncByte,
    (h.transportErrorIndicator.toUInt8 <<< 7) ||| (h.payloadUnitStartIndicator.toUInt8 <<< 6) |||
      (h.transportPriority.toUInt8 <<< 5) ||| ((h.pid >>> 8).toUInt8 &&& 0x1F),
    (h.pid &&& 0xFF).toUInt8,
    ((h.transportScramblingControl &&& 0x03) <<< 6) ||| ((h.adaptationFieldControl &&& 0x03) <<< 4) |||
      (h.continuityCounter &&& 0x0F)]

structure Pcr where
  base : UInt64
  ext : UInt16

def Pcr.fromTimestamp90khz (ts : UInt64) : Pcr :=
  { base := ts &&& 0x1FFFFFFFF, ext := 0 }

def Pcr.toBytes (pcr : Pcr) : Bytes :=
  [((pcr.base >>> 25) &&& 0xFF).toUInt8,
    ((pcr.base >>> 17) &&& 0xFF).toUInt8,
    ((pcr.base >>> 9) &&& 0xFF).toUInt8,
    ((pcr.base >>> 1) &&& 0xFF).toUInt8,
    (((pcr.base &&& 1) <<< 7) ||| (0x7E : UInt64) ||| ((pcr.ext >>> 8) &&& 1).toUInt64).toUInt8,
    (pcr.ext &&& 0xFF).toUInt8]

structure AdaptationField where
  pcr : Option Pcr
  stuffBytes : Nat

/-- The length byte, the flags, the PCR if there is one, and stuffing. -/
def AdaptationField.toBytes (af : AdaptationField) : Bytes :=
  let contentLen := 1 + (if af.pcr.isSome then 6 else 0) + af.stuffBytes
  [UInt8.ofNat contentLen, if af.pcr.isSome then 0x10 else 0x00] ++
    (match af.pcr with
      | some pcr => pcr.toBytes
      | none => []) ++
    List.replicate af.stuffBytes 0xFF

structure PesHeader where
  streamId : UInt8
  pesPacketLength : UInt16
  pts : Option UInt64
  dts : Option UInt64

/-- A 33-bit timestamp over five bytes, with the marker bits of `marker` in the first. -/
def timestampBytes (marker : UInt8) (ts : UInt64) : Bytes :=
  [marker ||| ((ts >>> 29) &&& 0x0E).toUInt8,
    ((ts >>> 22) &&& 0xFF).toUInt8,
    (0x01 : UInt8) ||| ((ts >>> 14) &&& 0xFE).toUInt8,
    ((ts >>> 7) &&& 0xFF).toUInt8,
    (0x01 : UInt8) ||| ((ts <<< 1) &&& 0xFE).toUInt8]

def PesHeader.toBytes (h : PesHeader) : Bytes :=
  let flags : UInt8 := 0x80 ||| (if h.pts.isSome then 0x80 else 0) |||
    (if h.dts.isSome then 0x40 else 0)
  let pesHeaderLen : UInt8 := (if h.pts.isSome then 5 else 0) + (if h.dts.isSome then 5 else 0)
  [0x00, 0x00, 0x01, h.streamId, (h.pesPacketLength >>> 8).toUInt8,
    (h.pesPacketLength &&& 0xFF).toUInt8, flags, pesHeaderLen] ++
    (match h.pts with
      | some pts => timestampBytes 0x21 pts
      | none => []) ++
    (match h.dts with
      | some dts => timestampBytes 0x11 dts
      | none => [])

/-! ## Tables -/

def crc32Mpeg (data : Bytes) : UInt32 :=
  Crc32.mpeg2 data

def withCrc (data : Bytes) : Bytes :=
  data ++ toBe 4 (crc32Mpeg data).toNat

def pidBytes (pid : UInt16) : Bytes :=
  [(0xE0 : UInt8) ||| ((pid >>> 8).toUInt8 &&& 0x1F), (pid &&& 0xFF).toUInt8]

def patData : Bytes :=
  withCrc ([0x00, 0xB0, 0x0D, 0x00, 0x01, 0xC1, 0x00, 0x00, 0x00, 0x01] ++ pidBytes pmtPid)

def esEntry (streamType : UInt8) (pid : UInt16) : Bytes :=
  [streamType] ++ pidBytes pid ++ [0xF0, 0x00]

def isVideoCodec : CodecType → Bool
  | .h264 => true
  | .h265 => true
  | .vp8 => true
  | .vp9 => true
  | .av1 => true
  | _ => false

/-- `make_ts_packet`: one packet, the payload behind a pointer field when it starts a unit.  What
does not fit is cut off. -/
def makeTsPacket (pid : UInt16) (payloadStart : Bool) (data : Bytes) (cc : UInt8) :
    Bytes × UInt8 :=
  let header : TsHeader :=
    { syncByte := tsSyncByte
      transportErrorIndicator := false
      payloadUnitStartIndicator := payloadStart
      transportPriority := false
      pid := pid
      transportScramblingControl := 0
      adaptationFieldControl := 0x01
      continuityCounter := cc &&& 0x0F }
  -- PES packets get a pointer field as well
  let payload := if payloadStart then 0x00 :: data else data
  let available := tsPacketSize - 4
  let payloadLen := min payload.length available
  let packet :=
    if payloadLen < available then
      let stuffNeeded := available - payloadLen
      let packet := { header with adaptationFieldControl := 0x03 }.toBytes
      if 2 ≤ stuffNeeded then
        packet ++ [UInt8.ofNat (stuffNeeded - 1), 0x00] ++ List.replicate (stuffNeeded - 1 - 1) 0xFF
      else
        packet ++ [0x00]
    else
      header.toBytes
  let packet := packet ++ payload.take payloadLen
  let packet := packet ++ List.replicate (tsPacketSize - packet.length) 0xFF
  (packet.take tsPacketSize, cc + 1)

/-! ## The muxer -/

structure TsMuxer where
  videoCc : UInt8
  audioCc : UInt8
  patCc : UInt8
  pmtCc : UInt8
  patPmtWritten : Bool
  videoCodec : CodecType
  audioCodec : CodecType
  hasAudio : Bool
  hasVideo : Bool
  deriving DecidableEq, Repr

/-- Is the data already Annex-B, that is, does it begin with a start code? -/
def hasStartCode : Bytes → Bool
  | 0x00 :: 0x00 :: 0x00 :: 0x01 :: _ => true
  | 0x00 :: 0x00 :: 0x01 :: _ => true
  | _ => false

def ensureH264AnnexB (data : Bytes) : Bytes :=
  if hasStartCode data then data else [0x00, 0x00, 0x00, 0x01] ++ data

namespace TsMuxer

def new (videoCodec audioCodec : CodecType) : TsMuxer :=
  { videoCc := 0
    audioCc := 0
    patCc := 0
    pmtCc := 0
    patPmtWritten := false
    videoCodec := videoCodec
    audioCodec := audioCodec
    hasAudio := !isVideoCodec audioCodec
    hasVideo := isVideoCodec videoCodec }

def writePat (m : TsMuxer) : TsMuxer × Bytes :=
  let (packet, cc) := makeTsPacket patPid true patData m.patCc
  ({ m with patCc := cc }, packet)

/-- The section behind the length field; both codec matches of the source have one outcome. -/
def pmtSection (m : TsMuxer) : Bytes :=
  [0x00, 0x01, 0xC1, 0x00, 0x00] ++ pidBytes pcrPid ++ [0xF0, 0x00] ++
    (if m.hasVideo then esEntry streamTypeH264 videoPid else []) ++
    (if m.hasAudio then esEntry streamTypeAac audioPid else [])

def pmtData (m : TsMuxer) : Bytes :=
  let sectionLen := m.pmtSection.length + 4
  withCrc ([(0x02 : UInt8), (0xB0 : UInt8) ||| (UInt8.ofNat (sectionLen >>> 8) &&& 0x0F),
    UInt8.ofNat (sectionLen % 256)] ++ m.pmtSection)

def writePmt (m : TsMuxer) : TsMuxer × Bytes :=
  let (packet, cc) := makeTsPacket pmtPid true m.pmtData m.pmtCc
  ({ m with pmtCc := cc }, packet)

def writePatPmt (m : TsMuxer) : TsMuxer × Bytes :=
  let (m, pat) := m.writePat
  let (m, pmt) := m.writePmt
  ({ m with patPmtWritten := true }, pat ++ pmt)

/-- `packet[3] = (packet[3] & 0x0F) | 0x30` -/
def setBothControl (packet : Bytes) : Bytes :=
  packet.set 3 ((packet.getD 3 0 &&& 0x0F) ||| 0x30)

/-- A packet without an adaptation field gets one of `stuffNeeded` bytes. -/
def addStuffing (packet : Bytes) (stuffNeeded : Nat) : Bytes :=
  if 2 ≤ stuffNeeded then
    let adaptLenByte := UInt8.ofNat (stuffNeeded - 1)
    let packet := setBothControl packet ++ [adaptLenByte]
    if 0 < adaptLenByte then
      packet ++ [0x00] ++ List.replicate (adaptLenByte - 1).toNat 0xFF
    else
      packet
  else
    setBothControl packet ++ [0x00]

/-- The field is there already: its length byte is raised and stuffing is appended. -/
def extendStuffing (packet : Bytes) (stuffNeeded : Nat) : Bytes :=
  packet.set 4 (UInt8.ofNat ((packet.getD 4 0).toNat + stuffNeeded)) ++
    List.replicate stuffNeeded 0xFF

def makeVideoTsPacket (m : TsMuxer) (isStart : Bool) (data : Bytes) (pcr : Option UInt64) :
    TsMuxer × Bytes :=
  let header : TsHeader :=
    { syncByte := tsSyncByte
      transportErrorIndicator := false
      payloadUnitStartIndicator := isStart
      transportPriority := false
      pid := videoPid
      transportScramblingControl := 0
      -- patched below where there is an adaptation field, and nowhere else
      adaptationFieldControl := 0
      continuityCounter := m.videoCc &&& 0x0F }
  let m := { m with videoCc := m.videoCc + 1 }
  let (packet, available) :=
    match pcr with
    | some ts =>
      let adaptBytes :=
        { pcr := some (Pcr.fromTimestamp90khz ts), stuffBytes := 0 : AdaptationField }.toBytes
      if adaptBytes.length + 1 ≤ tsPacketSize - 4 then
        (setBothControl header.toBytes ++ adaptBytes, tsPacketSize - 4 - adaptBytes.length)
      else
        (header.toBytes, tsPacketSize - 4)
    | none => (header.toBytes, tsPacketSize - 4)
  let payloadLen := min data.length available
  let packet :=
    if payloadLen < available then
      let stuffNeeded := available - payloadLen
      if pcr.isNone then addStuffing packet stuffNeeded else extendStuffing packet stuffNeeded
    else
      packet
  let packet := packet ++ data.take payloadLen
  let packet := packet ++ List.replicate (tsPacketSize - packet.length) 0xFF
  (m, packet.take tsPacketSize)

/-- The loop of `write_video_frame`.  Every turn takes at least one byte off `data`. -/
def videoLoop (pts : UInt64) : Nat → TsMuxer → Bool → Bytes → TsMuxer × Bytes
  | 0, m, _, _ => (m, [])
  | n + 1, m, firstPacket, data =>
    if data = [] then
      (m, [])
    else
      let (m, packet) := m.makeVideoTsPacket firstPacket data (if firstPacket then some pts else none)
      -- 184 also for the first packet, which has less room than that
      let consumed := min data.length 184
      let (m, output) := videoLoop pts n m false (data.drop consumed)
      (m, packet ++ output)

def writeVideoFrame (m : TsMuxer) (frame : MediaFrame) : TsMuxer × Bytes :=
  if m.hasVideo then
    let pts := frame.timestamp.toUInt64
    let pesHeader : PesHeader :=
      { streamId := 0xE0, pesPacketLength := 0, pts := some pts, dts := some pts }
    let data := pesHeader.toBytes ++ ensureH264AnnexB frame.data
    videoLoop pts data.length m true data
  else
    (m, [])

def writeAudioFrame (m : TsMuxer) (frame : MediaFrame) : TsMuxer × Bytes :=
  if m.hasAudio then
    let pts := frame.timestamp.toUInt64
    let pesHeader : PesHeader :=
      { streamId := 0xC0
        pesPacketLength := UInt16.ofNat (3 + frame.data.length)
        pts := some pts
        dts := none }
    let (packet, cc) := makeTsPacket audioPid true (pesHeader.toBytes ++ frame.data) m.audioCc
    ({ m with audioCc := cc }, packet)
  else
    (m, [])

def writeFrameInner (m : TsMuxer) (frame : MediaFrame) : TsMuxer × Bytes :=
  match frame.kind with
  | .video => m.writeVideoFrame frame
  | .audio => m.writeAudioFrame frame

def writeFrame (m : TsMuxer) (frame : MediaFrame) : TsMuxer × Bytes :=
  if m.patPmtWritten then
    m.writeFrameInner frame
  else
    let (m, tables) := m.writePatPmt
    let (m, output) := m.writeFrameInner frame
    (m, tables ++ output)

end TsMuxer

end LingVoice.LmProtocol

import LingVoice.Common.Media
import LingVoice.Lib.Crc32
import LingVoice.Lib.Endian
import LingVoice.Lib.Slice

/-!
# TsMuxer — the MPEG-TS muxer of the HLS package (`pkg/protocol/hls/ts_muxer.go`)

`MuxFrame` wraps a frame in a PES packet and `stuffTS` cuts that over 188-byte packets, the last of
them filled up by an adaptation field.  Video frames with a marker come after a PAT and a PMT, and a
frame with a marker has the PCR in its first packet.

`stuffTS` would not return for an empty payload, so its loop has a number of turns here and the result
is a fault when they do not do.
-/

namespace LingVoice.Hls

open Lib Common

def tsPacketSize : Nat := 188
def tsSyncByte : UInt8 := 0x47
def tsPATPID : UInt16 := 0x0000
def tsVideoPID : UInt16 := 0x0100
def tsAudioPID : UInt16 := 0x0101
def tsPMTPID : UInt16 := 0x1000
def tsStreamIDH264 : UInt8 := 0xE0
def tsStreamIDAAC : UInt8 := 0xC0

def streamTypeH264 : UInt8 := 0x1B
def streamTypeAAC : UInt8 := 0x0F

/-! ## Field encodings -/

def ptsBytes (pts : UInt64) (marker : UInt8) : Bytes :=
  [marker ||| ((pts >>> 29) &&& 0x0E).toUInt8 ||| 0x01,
    ((pts >>> 22) &&& 0xFF).toUInt8,
    ((pts >>> 14) &&& 0xFF).toUInt8 ||| 0x01,
    ((pts >>> 7) &&& 0xFF).toUInt8,
    ((pts <<< 1) &&& 0xFE).toUInt8 ||| 0x01]

/-- A PCR of the 27 MHz clock: 33 bits at 90 kHz and the remainder modulo 300. -/
def pcrBytes (pcr : UInt64) : Bytes :=
  let base := pcr / 300
  let ext := pcr % 300
  [(base >>> 25).toUInt8,
    (base >>> 17).toUInt8,
    (base >>> 9).toUInt8,
    (base >>> 1).toUInt8,
    ((base &&& 1) <<< 7).toUInt8 ||| (0x7E : UInt8) ||| ((ext >>> 8) &&& 0x01).toUInt8,
    (ext &&& 0xFF).toUInt8]

def crc32MPEG2 (data : Bytes) : UInt32 :=
  Crc32.mpeg2 data

/-- A 13-bit PID behind three reserved bits. -/
def pidField (pid : UInt16) : Bytes :=
  [((0xE0 : UInt16) ||| ((pid >>> 8) &&& 0x1F)).toUInt8, (pid &&& 0xFF).toUInt8]

def psiSection (tableID : UInt8) (body : Bytes) : Bytes :=
  let sectionLen := body.length + 4
  let s := [tableID, (0xB0 : UInt8) ||| UInt8.ofNat ((sectionLen >>> 8) &&& 0x0F),
    UInt8.ofNat (sectionLen &&& 0xFF)] ++ body
  s ++ toBe 4 (crc32MPEG2 s).toNat

/-- The PES header of `esData`; it does not contain it. -/
def buildPESHeader (streamID : UInt8) (esData : Bytes) (pts dts : UInt64) : Bytes :=
  let headerData : Bytes :=
    if pts = dts then
      [0x80, 0x80, 0x05] ++ ptsBytes pts 0x21
    else
      [0x80, 0xC0, 0x0A] ++ ptsBytes pts 0x31 ++ ptsBytes dts 0x11
  let pesPacketLen := headerData.length + esData.length
  let pesPacketLen := if 0xFFFF < pesPacketLen then 0 else pesPacketLen
  [0x00, 0x00, 0x01, streamID, UInt8.ofNat (pesPacketLen >>> 8), UInt8.ofNat (pesPacketLen &&& 0xFF)] ++
    headerData

/-! ## The muxer -/

structure TSMuxer where
  patSent : Bool
  pmtPID : UInt16
  videoPID : UInt16
  audioPID : UInt16
  pcrPID : UInt16
  /-- Continuity counters per PID; a missing entry reads as 0. -/
  cc : UInt16 → UInt8

namespace TSMuxer

def new : TSMuxer :=
  { patSent := false
    pmtPID := tsPMTPID
    videoPID := tsVideoPID
    audioPID := tsAudioPID
    pcrPID := tsVideoPID
    cc := fun _ => 0 }

def nextCC (m : TSMuxer) (pid : UInt16) : TSMuxer × UInt8 :=
  ({ m with cc := Function.update m.cc pid ((m.cc pid + 1) &&& 0x0F) }, m.cc pid)

def afContent (first withPCR : Bool) (pcr : UInt64) (remaining : Nat) : Bytes :=
  let content : Bytes := if withPCR && first then 0x10 :: pcrBytes pcr else []
  if remaining < 184 then
    let content := if content.isEmpty then [0x00] else content
    -- a negative count of stuffing bytes writes none
    content ++ List.replicate (183 - content.length - remaining) 0xFF
  else
    content

/-- adaptation_field_control -/
def afControl (content : Bytes) (remaining : Nat) : UInt8 :=
  if remaining < 184 then
    if 0 < remaining then 0x03 else 0x02
  else if content ≠ [] then
    0x03
  else
    0x01

def afField (content : Bytes) : Bytes :=
  if content = [] then [] else UInt8.ofNat content.length :: content

def packetBytes (pid : UInt16) (start : Bool) (afc cc : UInt8) (content data : Bytes) :
    Bytes :=
  let pidByte1 : UInt8 := ((pid >>> 8) &&& 0x1F).toUInt8 ||| (if start then 0x40 else 0x00)
  [tsSyncByte, pidByte1, (pid &&& 0xFF).toUInt8, (afc <<< 4) ||| (cc &&& 0x0F)] ++
    afField content ++ data

/-- One turn of the loop of `stuffTS`: a packet, and how much of the payload went into it. -/
def stuffPacket (m : TSMuxer) (pid : UInt16) (payloadStart : Bool) (payload : Bytes)
    (withPCR : Bool) (pcr : UInt64) (offset : Nat) : TSMuxer × Bytes × Nat :=
  let first := offset == 0
  let remaining := payload.length - offset
  let content := afContent first withPCR pcr remaining
  let afc := afControl content remaining
  let (m, cc) := m.nextCC pid
  let pos := 4 + (afField content).length
  let payloadLen := min (tsPacketSize - pos) remaining
  let packet := packetBytes pid (payloadStart && first) afc cc content
    ((payload.drop offset).take payloadLen)
  -- the packet is allocated with 188 zero bytes
  (m, packet ++ List.replicate (tsPacketSize - packet.length) 0, payloadLen)

def stuffLoop (pid : UInt16) (payloadStart : Bool) (payload : Bytes) (withPCR : Bool)
    (pcr : UInt64) : Nat → TSMuxer → Nat → Except Fault (TSMuxer × Bytes)
  | 0, _, _ => .error .outOfFuel
  | n + 1, m, offset =>
    if offset < payload.length ∨ (offset = 0 ∧ payload.length = 0) then do
      let (m, packet, payloadLen) := m.stuffPacket pid payloadStart payload withPCR pcr offset
      let (m, out) ← stuffLoop pid payloadStart payload withPCR pcr n m (offset + payloadLen)
      return (m, packet ++ out)
    else
      return (m, [])

/-- `stuffTS`; every turn for a payload that is not empty takes at least one byte of it. -/
def stuffTS (m : TSMuxer) (pid : UInt16) (payloadStart : Bool) (payload : Bytes)
    (withPCR : Bool) (pcr : UInt64) : Except Fault (TSMuxer × Bytes) :=
  stuffLoop pid payloadStart payload withPCR pcr (payload.length + 1) m 0

def buildPATSection (m : TSMuxer) : Bytes :=
  psiSection 0x00 ([0x00, 0x01, 0xC1, 0x00, 0x00, 0x00, 0x01] ++ pidField m.pmtPID)

def buildPMTSection (m : TSMuxer) : Bytes :=
  psiSection 0x02 ([0x00, 0x01, 0xC1, 0x00, 0x00] ++ pidField m.pcrPID ++ [0xF0, 0x00] ++
    [streamTypeH264] ++ pidField m.videoPID ++ [0xF0, 0x00] ++
    [streamTypeAAC] ++ pidField m.audioPID ++ [0xF0, 0x00])

def muxPAT (m : TSMuxer) : Except Fault (TSMuxer × Bytes) :=
  m.stuffTS tsPATPID true (0x00 :: m.buildPATSection) false 0

def muxPMT (m : TSMuxer) : Except Fault (TSMuxer × Bytes) :=
  m.stuffTS m.pmtPID true (0x00 :: m.buildPMTSection) false 0

def muxPES (m : TSMuxer) (pid : UInt16) (streamID : UInt8) (payload : Bytes) (pts dts : UInt64)
    (isKeyframe : Bool) : Except Fault (TSMuxer × Bytes) :=
  let pesData := buildPESHeader streamID payload pts dts ++ payload
  m.stuffTS pid true pesData isKeyframe (if isKeyframe then pts * 300 else 0)

def framePTS (frame : MediaFrame) : UInt64 :=
  if frame.type = .frameVideo then
    frame.timestamp.toUInt64
  else if 0 < frame.sampleRate then
    frame.timestamp.toUInt64 * 90000 / frame.sampleRate.toUInt64
  else
    frame.timestamp.toUInt64

def frameTables (m : TSMuxer) (frame : MediaFrame) : Except Fault (TSMuxer × Bytes) :=
  if frame.type = .frameVideo ∧ frame.marker then do
    let (m, pat) ← m.muxPAT
    let (m, pmt) ← m.muxPMT
    return ({ m with patSent := true }, pat ++ pmt)
  else
    return (m, [])

def framePID (m : TSMuxer) (frame : MediaFrame) : UInt16 :=
  if frame.type = .frameAudio then m.audioPID else m.videoPID

def frameStreamID (frame : MediaFrame) : UInt8 :=
  if frame.type = .frameAudio then tsStreamIDAAC else tsStreamIDH264

def muxFrame (m : TSMuxer) (frame : MediaFrame) : Except Fault (TSMuxer × Bytes) := do
  let (m, tables) ← m.frameTables frame
  let pts := framePTS frame
  let (m, out) ←
    m.muxPES (m.framePID frame) (frameStreamID frame) frame.payload pts pts frame.marker
  return (m, tables ++ out)

end TSMuxer

end LingVoice.Hls

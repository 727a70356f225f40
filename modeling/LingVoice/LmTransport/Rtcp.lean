import LingVoice.Lib.Utf8

/-!
# Rtcp — RTCP packets (`lm-transport/src/rtcp.rs`)

Encoders and parsers of the seven packet types and of compound packets.  A parser reads at offsets into
the packet it was given; every read is behind a check of the length.
-/

namespace LingVoice.LmTransport

open Lib (beAt byteAt u16At u32At u64At be16 be32 be64 toBe utf8Bytes fromUtf8Lossy)

inductive RtcpError
  | tooShort (needed got : Nat)
  | invalidVersion (version : UInt8)
  | unsupportedPacketType (pt : UInt8)
  | unsupportedFmt (fmt : UInt8)
  | lengthMismatch (declared actual : Nat)
  | invalidSdesItem (itemType : UInt8)
  | emptyCompound
  deriving DecidableEq, Repr

def ptSr : UInt8 := 200
def ptRr : UInt8 := 201
def ptSdes : UInt8 := 202
def ptBye : UInt8 := 203
def ptRtpfb : UInt8 := 205
def ptPsfb : UInt8 := 206

def fmtPli : UInt8 := 1
def fmtNack : UInt8 := 1
def fmtFir : UInt8 := 4

/-! ## Checks and headers that the packets share -/

def checkLength (needed : Nat) (data : Bytes) : Except RtcpError Unit :=
  if data.length < needed then .error (.tooShort needed data.length) else .ok ()

def checkPt (expected : UInt8) (data : Bytes) : Except RtcpError Unit :=
  if byteAt data 1 ≠ expected then .error (.unsupportedPacketType (byteAt data 1)) else .ok ()

def checkFmt (expected : UInt8) (data : Bytes) : Except RtcpError Unit :=
  if byteAt data 0 &&& 0x1F ≠ expected then .error (.unsupportedFmt (byteAt data 0 &&& 0x1F)) else .ok ()

def declaredBytes (data : Bytes) : Nat :=
  (beAt 2 data 2 + 1) * 4

def checkDeclared (data : Bytes) : Except RtcpError Unit :=
  if data.length < declaredBytes data then .error (.lengthMismatch (declaredBytes data) data.length)
  else .ok ()

/-- The count or format in the first byte. -/
def countField (data : Bytes) : Nat :=
  (byteAt data 0 &&& 0x1F).toNat

/-- Version 2 and a count or format. -/
def firstByte (count : UInt8) : UInt8 :=
  ((2 : UInt8) <<< 6) ||| count

def packetHeader (count pt : UInt8) (length : Nat) : Bytes :=
  [firstByte count, pt] ++ toBe 2 length

/-- The length field is written last: the number of words, minus one. -/
def finishPacket (count pt : UInt8) (body : Bytes) : Bytes :=
  packetHeader count pt ((4 + body.length) / 4 - 1) ++ body

/-- Zero bytes up to a multiple of four. -/
def padBody (body : Bytes) : Bytes :=
  body ++ List.replicate ((4 - body.length % 4) % 4) 0

/-! ## Report blocks -/

structure ReportBlock where
  ssrc : UInt32
  fractionLost : UInt8
  cumulativeLost : UInt32
  highestSeq : UInt32
  jitter : UInt32
  lsr : UInt32
  dlsr : UInt32
  deriving DecidableEq, Repr

namespace ReportBlock

/-- A block and the bytes it took. -/
def parse (data : Bytes) : Except RtcpError (ReportBlock × Nat) := do
  checkLength 24 data
  pure
    ({ ssrc := u32At data 0
       fractionLost := byteAt data 4
       cumulativeLost := UInt32.ofNat (beAt 3 data 5)
       highestSeq := u32At data 8
       jitter := u32At data 12
       lsr := u32At data 16
       dlsr := u32At data 20 }, 24)

/-- Only the low 24 bits of the losses are written. -/
def encode (b : ReportBlock) : Bytes :=
  be32 b.ssrc ++ [b.fractionLost] ++ toBe 3 b.cumulativeLost.toNat ++ be32 b.highestSeq ++ be32 b.jitter ++
    be32 b.lsr ++ be32 b.dlsr

/-- The loop over `rc` blocks from `offset` on. -/
def parseMany (data : Bytes) : Nat → Nat → Except RtcpError (List ReportBlock)
  | 0, _ => pure []
  | rc + 1, offset => do
      let (block, consumed) ← parse (data.drop offset)
      let rest ← parseMany data rc (offset + consumed)
      pure (block :: rest)

end ReportBlock

/-! ## Reports -/

structure SenderReport where
  ssrc : UInt32
  ntpTimestamp : UInt64
  rtpTimestamp : UInt32
  senderPacketCount : UInt32
  senderOctetCount : UInt32
  reportBlocks : List ReportBlock
  deriving DecidableEq, Repr

namespace SenderReport

def parse (data : Bytes) : Except RtcpError SenderReport := do
  checkLength 28 data
  checkPt ptSr data
  checkDeclared data
  let reportBlocks ← ReportBlock.parseMany data (countField data) 28
  pure
    { ssrc := u32At data 4
      ntpTimestamp := u64At data 8
      rtpTimestamp := u32At data 16
      senderPacketCount := u32At data 20
      senderOctetCount := u32At data 24
      reportBlocks := reportBlocks }

def encode (p : SenderReport) : Bytes :=
  finishPacket (UInt8.ofNat (min p.reportBlocks.length 31)) ptSr
    (be32 p.ssrc ++ be64 p.ntpTimestamp ++ be32 p.rtpTimestamp ++ be32 p.senderPacketCount ++
      be32 p.senderOctetCount ++ p.reportBlocks.flatMap ReportBlock.encode)

end SenderReport

structure ReceiverReport where
  ssrc : UInt32
  reportBlocks : List ReportBlock
  deriving DecidableEq, Repr

namespace ReceiverReport

def parse (data : Bytes) : Except RtcpError ReceiverReport := do
  checkLength 8 data
  checkPt ptRr data
  checkDeclared data
  let reportBlocks ← ReportBlock.parseMany data (countField data) 8
  pure { ssrc := u32At data 4, reportBlocks := reportBlocks }

def encode (p : ReceiverReport) : Bytes :=
  finishPacket (UInt8.ofNat (min p.reportBlocks.length 31)) ptRr
    (be32 p.ssrc ++ p.reportBlocks.flatMap ReportBlock.encode)

end ReceiverReport

/-! ## Source descriptions -/

structure SdesPacket where
  ssrc : UInt32
  cname : String
  deriving DecidableEq, Repr

namespace SdesPacket

/-- Only the first item is read, and it must be a CNAME. -/
def parse (data : Bytes) : Except RtcpError SdesPacket := do
  checkLength 10 data
  checkPt ptSdes data
  checkDeclared data
  if byteAt data 8 ≠ 1 then
    throw (.invalidSdesItem (byteAt data 8))
  let itemLen := (byteAt data 9).toNat
  checkLength (10 + itemLen) data
  pure { ssrc := u32At data 4, cname := fromUtf8Lossy ((data.drop 10).take itemLen) }

def encode (p : SdesPacket) : Bytes :=
  let itemLen := min (utf8Bytes p.cname).length 255
  finishPacket 1 ptSdes
    (padBody (be32 p.ssrc ++ [1, UInt8.ofNat itemLen] ++ (utf8Bytes p.cname).take itemLen ++ [0]))

end SdesPacket

/-! ## Goodbyes -/

structure ByePacket where
  ssrcs : List UInt32
  reason : String
  deriving DecidableEq, Repr

namespace ByePacket

/-- The loop over `sc` sources from `offset` on. -/
def parseSsrcs (data : Bytes) : Nat → Nat → Except RtcpError (List UInt32)
  | 0, _ => pure []
  | sc + 1, offset => do
      checkLength (offset + 4) data
      let rest ← parseSsrcs data sc (offset + 4)
      pure (u32At data offset :: rest)

/-- The text behind the sources; it may be missing, and one that does not fit is dropped. -/
def parseReason (data : Bytes) (offset : Nat) : String :=
  if offset < declaredBytes data ∧ offset < data.length then
    let reasonLen := (byteAt data offset).toNat
    if offset + 1 + reasonLen ≤ data.length then
      fromUtf8Lossy ((data.drop (offset + 1)).take reasonLen)
    else
      ""
  else
    ""

def parse (data : Bytes) : Except RtcpError ByePacket := do
  checkLength 8 data
  checkPt ptBye data
  checkDeclared data
  let ssrcs ← parseSsrcs data (countField data) 4
  pure { ssrcs := ssrcs, reason := parseReason data (4 + 4 * countField data) }

def encode (p : ByePacket) : Bytes :=
  let reasonLen := min (utf8Bytes p.reason).length 255
  finishPacket (UInt8.ofNat (min p.ssrcs.length 31)) ptBye
    (padBody (p.ssrcs.flatMap be32 ++
      (if 0 < reasonLen then UInt8.ofNat reasonLen :: (utf8Bytes p.reason).take reasonLen else [0])))

end ByePacket

/-! ## Feedback -/

structure PliPacket where
  senderSsrc : UInt32
  mediaSsrc : UInt32
  deriving DecidableEq, Repr

namespace PliPacket

def parse (data : Bytes) : Except RtcpError PliPacket := do
  checkLength 12 data
  checkPt ptPsfb data
  checkFmt fmtPli data
  pure { senderSsrc := u32At data 4, mediaSsrc := u32At data 8 }

/-- The length is a constant here. -/
def encode (p : PliPacket) : Bytes :=
  packetHeader fmtPli ptPsfb 2 ++ (be32 p.senderSsrc ++ be32 p.mediaSsrc)

end PliPacket

/-- The loop over feedback entries of `size` bytes, while they fit the declared and the actual length. -/
def parseEntries {ε : Type} (size : Nat) (entry : Bytes → Nat → ε) (data : Bytes) :
    Nat → Nat → List ε
  | 0, _ => []
  | fuel + 1, offset =>
    if offset + size ≤ declaredBytes data ∧ offset + size ≤ data.length then
      entry data offset :: parseEntries size entry data fuel (offset + size)
    else
      []

structure FirEntry where
  ssrc : UInt32
  seq : UInt8
  deriving DecidableEq, Repr

structure FirPacket where
  senderSsrc : UInt32
  mediaSsrc : UInt32
  entries : List FirEntry
  deriving DecidableEq, Repr

namespace FirPacket

def parse (data : Bytes) : Except RtcpError FirPacket := do
  checkLength 16 data
  checkPt ptPsfb data
  checkFmt fmtFir data
  pure
    { senderSsrc := u32At data 4
      mediaSsrc := u32At data 8
      entries := parseEntries 8 (fun data offset => ⟨u32At data offset, byteAt data (offset + 4)⟩) data
        data.length 12 }

def encode (p : FirPacket) : Bytes :=
  finishPacket fmtFir ptPsfb
    (be32 p.senderSsrc ++ be32 p.mediaSsrc ++ p.entries.flatMap fun e => be32 e.ssrc ++ [e.seq, 0, 0, 0])

end FirPacket

/-- A lost packet, and a bitmap of the losses among the 16 behind it. -/
structure NackItem where
  pid : UInt16
  blp : UInt16
  deriving DecidableEq, Repr

def NackItem.lostSequenceNumbers (item : NackItem) : List UInt16 :=
  item.pid :: (List.range 16).filterMap fun i =>
    if (item.blp >>> UInt16.ofNat i) &&& 1 = 1 then some (item.pid + UInt16.ofNat (i + 1)) else none

structure NackPacket where
  senderSsrc : UInt32
  mediaSsrc : UInt32
  items : List NackItem
  deriving DecidableEq, Repr

namespace NackPacket

def parse (data : Bytes) : Except RtcpError NackPacket := do
  checkLength 16 data
  checkPt ptRtpfb data
  checkFmt fmtNack data
  pure
    { senderSsrc := u32At data 4
      mediaSsrc := u32At data 8
      items := parseEntries 4 (fun data offset => ⟨u16At data offset, u16At data (offset + 2)⟩) data
        data.length 12 }

def encode (p : NackPacket) : Bytes :=
  finishPacket fmtNack ptRtpfb
    (be32 p.senderSsrc ++ be32 p.mediaSsrc ++ p.items.flatMap fun item => be16 item.pid ++ be16 item.blp)

end NackPacket

/-! ## Packets of any type -/

inductive RtcpPacket
  | senderReport (p : SenderReport)
  | receiverReport (p : ReceiverReport)
  | sdes (p : SdesPacket)
  | bye (p : ByePacket)
  | pli (p : PliPacket)
  | fir (p : FirPacket)
  | nack (p : NackPacket)
  deriving DecidableEq, Repr

namespace RtcpPacket

def encode : RtcpPacket → Bytes
  | senderReport p => p.encode
  | receiverReport p => p.encode
  | sdes p => p.encode
  | bye p => p.encode
  | pli p => p.encode
  | fir p => p.encode
  | nack p => p.encode

/-- The parser that packet type and format select, on the bytes of the packet. -/
def parseBody (pktData : Bytes) : Except RtcpError RtcpPacket :=
  let pt := byteAt pktData 1
  let fmt := byteAt pktData 0 &&& 0x1F
  if pt = ptSr then senderReport <$> SenderReport.parse pktData
  else if pt = ptRr then receiverReport <$> ReceiverReport.parse pktData
  else if pt = ptSdes then sdes <$> SdesPacket.parse pktData
  else if pt = ptBye then bye <$> ByePacket.parse pktData
  else if pt = ptRtpfb then
    if fmt = fmtNack then nack <$> NackPacket.parse pktData else .error (.unsupportedFmt fmt)
  else if pt = ptPsfb then
    if fmt = fmtPli then pli <$> PliPacket.parse pktData
    else if fmt = fmtFir then fir <$> FirPacket.parse pktData
    else .error (.unsupportedFmt fmt)
  else .error (.unsupportedPacketType pt)

/-- The first packet of the data, and the bytes it took. -/
def parse (data : Bytes) : Except RtcpError (RtcpPacket × Nat) := do
  checkLength 4 data
  let version := (byteAt data 0 >>> 6) &&& 0x03
  if version ≠ 2 then
    throw (.invalidVersion version)
  checkDeclared data
  let packet ← parseBody (data.take (declaredBytes data))
  pure (packet, declaredBytes data)

end RtcpPacket

/-- The loop of `parse_compound`; every packet takes four bytes or more. -/
def parsePackets : Nat → Bytes → Except RtcpError (List RtcpPacket)
  | 0, _ => pure []
  | _ + 1, [] => pure []
  | fuel + 1, b :: tail => do
      let (packet, consumed) ← RtcpPacket.parse (b :: tail)
      let rest ← parsePackets fuel ((b :: tail).drop consumed)
      pure (packet :: rest)

def parseCompound (data : Bytes) : Except RtcpError (List RtcpPacket) :=
  if data.isEmpty then .error .emptyCompound else parsePackets data.length data

end LingVoice.LmTransport

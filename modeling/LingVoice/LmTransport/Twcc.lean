import LingVoice.Lib.RunLength
import LingVoice.LmTransport.Rtcp
import Mathlib.Data.List.Sort

/-!
# Twcc — transport-wide congestion control feedback (`lm-transport/src/twcc.rs`)

A receiver records the arrival times of packets and reports them in an RTCP packet: run-length chunks that
tell which packets arrived, then the differences of the arrival times in ticks of 250 microseconds.  A
parser reads the report back.  Times are numbers of microseconds.
-/

namespace LingVoice.LmTransport

open Lib (beAt byteAt u16At u32At be16 be32 toBe runs)

def fmtTwcc : UInt8 := 15

def deltaTickUs : Int := 250

def maxRun : Nat := 8191

structure TwccFeedback where
  senderSsrc : UInt32
  mediaSsrc : UInt32
  baseSeq : UInt16
  packetCount : UInt16
  referenceTime : UInt32
  fbCount : UInt8
  statusChunks : Bytes
  deltas : List Int16
  deriving DecidableEq, Repr

/-! ## Status chunks -/

def vectorOfPairs (vector : UInt16) : List UInt16 :=
  (List.range 7).map fun i => (vector >>> UInt16.ofNat (12 - i * 2)) &&& 0x03

def vectorOfBits (vector : UInt16) : List UInt16 :=
  (List.range 14).map fun i => (vector >>> UInt16.ofNat (13 - i)) &&& 0x01

/-- The symbols of a chunk: 0 not received, 1 with a small delta, 2 with a large one.  A run of the
reserved symbol stops the loops of the parser. -/
def chunkSymbols (chunk : UInt16) : Option (List UInt16) :=
  if (chunk >>> 15) &&& 0x01 = 0 then
    if (chunk >>> 13) &&& 0x03 = 3 then none
    else some (List.replicate (chunk &&& 0x1FFF).toNat ((chunk >>> 13) &&& 0x03))
  else if (chunk >>> 14) &&& 0x01 = 0 then some (vectorOfPairs (chunk &&& 0x3FFF))
  else some (vectorOfBits (chunk &&& 0x3FFF))

/-- A run of packets that arrived, all with symbol 1, or of packets that did not. -/
def statusChunk (run : Bool × Nat) : UInt16 :=
  ((if run.1 then 0b01 else 0b00 : UInt16) <<< 13) ||| (UInt16.ofNat run.2 &&& 0x1FFF)

namespace TwccFeedback

/-! ## Parsing -/

/-- The first loop of `parse`: chunks from `offset` on, until they cover the packet count.  The chunks and
the offset behind them. -/
def statusLoop (data : Bytes) (declared packetCount : Nat) : Nat → Nat → Nat → Bytes × Nat
  | 0, offset, _ => ([], offset)
  | fuel + 1, offset, covered =>
    if offset + 2 ≤ declared ∧ offset + 2 ≤ data.length then
      match chunkSymbols (u16At data offset) with
      | none => ([byteAt data offset, byteAt data (offset + 1)], offset + 2)
      | some symbols =>
        if packetCount ≤ covered + symbols.length then
          ([byteAt data offset, byteAt data (offset + 1)], offset + 2)
        else
          let (chunks, stop) := statusLoop data declared packetCount fuel (offset + 2)
            (covered + symbols.length)
          (byteAt data offset :: byteAt data (offset + 1) :: chunks, stop)
    else ([], offset)

/-- One delta for each packet that arrived, of one byte or of two, while there are bytes. -/
def readDeltas (data : Bytes) (declared : Nat) : List UInt16 → Nat → List Int16 × Nat
  | [], offset => ([], offset)
  | symbol :: symbols, offset =>
    if symbol = 1 ∧ offset < declared ∧ offset < data.length then
      let (deltas, stop) := readDeltas data declared symbols (offset + 1)
      ((byteAt data offset).toUInt16.toInt16 :: deltas, stop)
    else if symbol = 2 ∧ offset + 2 ≤ declared ∧ offset + 2 ≤ data.length then
      let (deltas, stop) := readDeltas data declared symbols (offset + 2)
      ((u16At data offset).toInt16 :: deltas, stop)
    else readDeltas data declared symbols offset

/-- The second loop of `parse`, over the chunks that the first one took. -/
def deltaLoop (data : Bytes) (declared : Nat) : Bytes → Nat → List Int16
  | hi :: lo :: chunks, offset =>
    if offset < declared then
      match chunkSymbols (u16At [hi, lo] 0) with
      | none => []
      | some symbols =>
        let (deltas, stop) := readDeltas data declared symbols offset
        deltas ++ deltaLoop data declared chunks stop
    else []
  | _, _ => []

def parse (data : Bytes) : Except RtcpError TwccFeedback := do
  checkLength 20 data
  checkPt ptRtpfb data
  checkFmt fmtTwcc data
  checkDeclared data
  let declared := declaredBytes data
  let packetCount := u16At data 14
  let (statusChunks, offset) := statusLoop data declared packetCount.toNat data.length 20 0
  pure
    { senderSsrc := u32At data 4
      mediaSsrc := u32At data 8
      baseSeq := u16At data 12
      packetCount := packetCount
      referenceTime := UInt32.ofNat (beAt 3 data 16)
      fbCount := byteAt data 19
      statusChunks := statusChunks
      deltas := deltaLoop data declared statusChunks offset }

/-! ## Encoding -/

/-- Every delta is written with 16 bits. -/
def deltaBytes (deltas : List Int16) : Bytes :=
  deltas.flatMap fun d => be16 d.toUInt16

def encode (fb : TwccFeedback) : Bytes :=
  finishPacket fmtTwcc ptRtpfb
    (padBody (be32 fb.senderSsrc ++ be32 fb.mediaSsrc ++ be16 fb.baseSeq ++ be16 fb.packetCount ++
      toBe 3 fb.referenceTime.toNat ++ [fb.fbCount] ++ fb.statusChunks ++ deltaBytes fb.deltas))

/-! ## What a report says -/

def symbols : Bytes → List UInt16
  | hi :: lo :: chunks => (chunkSymbols (u16At [hi, lo] 0)).getD [] ++ symbols chunks
  | _ => []

/-- The numbers from `seq` on whose symbol says that the packet arrived. -/
def markedFrom : UInt16 → List UInt16 → List UInt16
  | _, [] => []
  | seq, symbol :: rest =>
    if symbol = 1 ∨ symbol = 2 then seq :: markedFrom (seq + 1) rest else markedFrom (seq + 1) rest

def marked (fb : TwccFeedback) : List UInt16 :=
  markedFrom fb.baseSeq (symbols fb.statusChunks)

end TwccFeedback

/-! ## The receiver -/

structure TwccReceiver where
  packets : List (UInt32 × Int)
  baseSeq : UInt32
  lastFeedbackSeq : UInt8
  initialized : Bool
  deriving DecidableEq, Repr

namespace TwccReceiver

def new : TwccReceiver :=
  { packets := [], baseSeq := 0, lastFeedbackSeq := 0, initialized := false }

def recordPacket (r : TwccReceiver) (seq : UInt32) (arrivalTimeUs : Int) : TwccReceiver :=
  let r := if !r.initialized then { r with baseSeq := seq, initialized := true } else r
  { r with packets := r.packets ++ [(seq, arrivalTimeUs)] }

/-- `sort_by_key`: stable, by the 32-bit numbers. -/
def sortPackets (packets : List (UInt32 × Int)) : List (UInt32 × Int) :=
  packets.insertionSort fun p q => p.1 ≤ q.1

/-- The 16 bits that are reported; 0 when there is no packet. -/
def seqOf (packet : Option (UInt32 × Int)) : UInt16 :=
  (packet.map fun p => p.1.toUInt16).getD 0

def rangeLen (sorted : List (UInt32 × Int)) : Nat :=
  (seqOf sorted.getLast? - seqOf sorted.head?).toNat + 1

/-- Both arrays of `build_feedback`: the arrival time of a packet that was received. -/
def place (base : UInt16) (slots : List (Option Int)) (packet : UInt32 × Int) : List (Option Int) :=
  let idx := (packet.1.toUInt16 - base).toNat
  if idx < slots.length then slots.set idx (some packet.2) else slots

def slotsOf (sorted : List (UInt32 × Int)) : List (Option Int) :=
  sorted.foldl (place (seqOf sorted.head?)) (List.replicate (rangeLen sorted) none)

def statusRuns (slots : List (Option Int)) : List (Bool × Nat) :=
  runs maxRun slots.length (slots.map Option.isSome)

end TwccReceiver

end LingVoice.LmTransport

import LingVoice.LmCore.Media

/-!
# Opus — the buffered Opus depacketizer (`lm-depacketizer/src/lib.rs`)

One RTP packet is one frame.  `create_depacketizer` also uses it for PCM, AAC and MP3.
-/

namespace LingVoice.LmDepacketizer

open LmCore

structure OpusDepacketizerBuffered where
  lastSeq : Option UInt16
  frameData : Bytes
  frameTimestamp : UInt32
  frameReady : Bool
  deriving DecidableEq, Repr

namespace OpusDepacketizerBuffered

def new : OpusDepacketizerBuffered :=
  { lastSeq := none, frameData := [], frameTimestamp := 0, frameReady := false }

/-- Is the packet a repetition of the last one or older than it? -/
def isStale (d : OpusDepacketizerBuffered) (sequenceNumber : UInt16) : Bool :=
  match d.lastSeq with
  -- the difference wraps, so more than half the range is a step back
  | some prev => sequenceNumber - prev == 0 || decide (0x8000 < sequenceNumber - prev)
  | none => false

def pushPacket (d : OpusDepacketizerBuffered) (payload : Bytes) (_marker : Bool)
    (sequenceNumber : UInt16) (timestamp : UInt32) :
    OpusDepacketizerBuffered × DepacketizeResult :=
  if d.isStale sequenceNumber then
    (d, .needMore)
  else
    ({ lastSeq := some sequenceNumber
       frameData := payload
       frameTimestamp := timestamp
       frameReady := true }, .frameComplete)

def takeFrame (d : OpusDepacketizerBuffered) : OpusDepacketizerBuffered × Option MediaFrame :=
  if !d.frameReady || d.frameData.isEmpty then
    -- an empty frame stays ready and is never given out
    (d, none)
  else
    ({ d with frameData := [], frameReady := false },
      some (MediaFrame.audio .opus d.frameTimestamp d.frameData 0))

def reset (d : OpusDepacketizerBuffered) : OpusDepacketizerBuffered :=
  { d with frameData := [], frameReady := false, lastSeq := none }

instance : Depacketizer OpusDepacketizerBuffered where
  pushPacket := pushPacket
  takeFrame := takeFrame
  reset := reset

end OpusDepacketizerBuffered

end LingVoice.LmDepacketizer

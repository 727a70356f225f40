import LingVoice.Lib.Bytes
import LingVoice.Lib.Columns
import Mathlib.Data.Rat.Defs

/-!
# Mixer — the conference mixer (`pkg/media/mixer.go`)

One pass of `ConferenceMixer.Run`.  The map of the participants is ranged over twice, each time in an order of its own,
so a pass is given the participants in two orders.  Gains are rational numbers, so that `float64` arithmetic is exact;
with unit gains it is.
-/

namespace LingVoice.Media

open Lib.Columns

inductive MediaPacket
  | audio (payload : Bytes)
  | other
  deriving DecidableEq, Repr

structure MixerParticipant where
  id : String
  /-- What waits in the input channel. -/
  input : List MediaPacket
  gain : ℚ
  deriving DecidableEq, Repr

structure FrameData where
  id : String
  samples : List Int16
  gain : ℚ
  deriving DecidableEq, Repr

def bytesToInt16 : Bytes → List Int16
  | low :: high :: rest => (low.toUInt16 ||| high.toUInt16 <<< 8).toInt16 :: bytesToInt16 rest
  | _ => []

def int16ToBytes (s : List Int16) : Bytes :=
  s.flatMap fun (v : Int16) => [v.toUInt16.toUInt8, (v >>> 8).toUInt16.toUInt8]

structure ConferenceMixer where
  frameSize : Nat
  deriving DecidableEq, Repr

namespace ConferenceMixer

def readFrame (p : MixerParticipant) : Option FrameData :=
  match p.input with
  | .audio payload :: _ =>
    if 0 < (bytesToInt16 payload).length then some ⟨p.id, bytesToInt16 payload, p.gain⟩ else none
  | _ => none

def mixSample (gain : ℚ) (mixed sample : Int16) : Int16 :=
  let val : ℚ := mixed.toInt + sample.toInt * gain
  let val := if 32767 < val then 32767 else if val < -32768 then -32768 else val
  Int16.ofInt (val.num.tdiv val.den)

def mixFor (m : ConferenceMixer) (frames : List FrameData) (id : String) : List Int16 :=
  frames.foldl (fun mixed f =>
    if f.id = id then mixed
    else overlay (mixSample (if f.gain = 0 then 1 else f.gain)) mixed f.samples)
    (List.replicate m.frameSize 0)

def tick (m : ConferenceMixer) (first second : List MixerParticipant) : List (String × Bytes) :=
  let frames := first.filterMap readFrame
  if frames = [] then []
  else second.map fun p => (p.id, int16ToBytes (m.mixFor frames p.id))

end ConferenceMixer
end LingVoice.Media

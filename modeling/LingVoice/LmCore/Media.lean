import LingVoice.Lib.Bytes

/-!
# Media — frames and codecs of the media core (`lm-core/src/lib.rs`)

The types that the protocol crates exchange: codecs, tracks, media frames, and the interface of an
RTP depacketizer.
-/

namespace LingVoice.LmCore

structure AudioFrame where
  samples : List Int16
  sampleRate : UInt32
  timestamp : UInt64
  deriving DecidableEq, Repr

inductive CodecType
  | opus
  | pcmU
  | pcmA
  | g722
  | pcm
  | aac
  | mp3
  | h264
  | h265
  | vp8
  | vp9
  | av1
  deriving DecidableEq, Repr

inductive TrackKind
  | audio
  | video
  deriving DecidableEq, Repr

structure MediaFrame where
  kind : TrackKind
  codec : CodecType
  timestamp : UInt32
  keyframe : Bool
  spatialLayer : UInt8
  temporalLayer : UInt8
  data : Bytes
  ssrc : UInt32
  rid : String
  deriving DecidableEq, Repr

namespace MediaFrame

def audio (codec : CodecType) (timestamp : UInt32) (data : Bytes) (ssrc : UInt32) : MediaFrame :=
  { kind := .audio
    codec := codec
    timestamp := timestamp
    keyframe := false
    spatialLayer := 0
    temporalLayer := 0
    data := data
    ssrc := ssrc
    rid := "" }

def video (codec : CodecType) (timestamp : UInt32) (data : Bytes) (ssrc : UInt32)
    (keyframe : Bool) : MediaFrame :=
  { kind := .video
    codec := codec
    timestamp := timestamp
    keyframe := keyframe
    spatialLayer := 0
    temporalLayer := 0
    data := data
    ssrc := ssrc
    rid := "" }

end MediaFrame

inductive DepacketizeResult
  | needMore
  | frameComplete
  | error (message : String)
  deriving DecidableEq, Repr

/-- The trait `Depacketizer` for an implementation with state `δ`. -/
class Depacketizer (δ : Type) where
  pushPacket : δ → (payload : Bytes) → (marker : Bool) → (sequenceNumber : UInt16) →
    (timestamp : UInt32) → δ × DepacketizeResult
  takeFrame : δ → δ × Option MediaFrame
  reset : δ → δ

end LingVoice.LmCore

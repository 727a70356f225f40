import LingVoice.Lib.Bytes

/-!
# Media — frames and tracks of the Go protocol packages (`pkg/protocol/common/types.go`)
-/

namespace LingVoice.Common

inductive TrackKind
  | trackAudio
  | trackVideo
  deriving DecidableEq, Repr

inductive FrameType
  | frameAudio
  | frameVideo
  deriving DecidableEq, Repr

def frameTypeFromKind (kind : TrackKind) : FrameType :=
  if kind = .trackVideo then .frameVideo else .frameAudio

inductive CodecType
  | opus
  | pcmu
  | pcma
  | pcm16
  | h264
  | vp8
  | vp9
  | av1
  | rtx
  | aac
  | h265
  | g711u
  | g711a
  | ps
  deriving DecidableEq, Repr

/-- A media frame; fields that a sender leaves out have their zero value. -/
structure MediaFrame where
  type : FrameType
  codec : CodecType
  payload : Bytes
  timestamp : UInt32 := 0
  sequence : UInt16 := 0
  sampleRate : UInt32 := 0
  channels : UInt16 := 0
  ssrc : UInt32 := 0
  marker : Bool := false
  rid : String := ""
  deriving DecidableEq, Repr

end LingVoice.Common

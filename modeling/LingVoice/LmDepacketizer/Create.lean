import LingVoice.LmDepacketizer.H264
import LingVoice.LmDepacketizer.Opus
import LingVoice.LmDepacketizer.Vp8
import LingVoice.LmDepacketizer.Vp9

/-!
# Create — a depacketizer for a codec (`lm-depacketizer/src/lib.rs`)

`create_depacketizer` returns a boxed trait object; here the box is a sum of the implementations.
-/

namespace LingVoice.LmDepacketizer

open LmCore

inductive BoxedDepacketizer
  | vp8 (d : Vp8Depacketizer)
  | vp9 (d : Vp9Depacketizer)
  | h264 (d : H264Depacketizer)
  | opus (d : OpusDepacketizerBuffered)

namespace BoxedDepacketizer

def pushPacket (box : BoxedDepacketizer) (payload : Bytes) (marker : Bool) (sequenceNumber : UInt16)
    (timestamp : UInt32) : BoxedDepacketizer × DepacketizeResult :=
  match box with
  | .vp8 d => (d.pushPacket payload marker sequenceNumber timestamp).map .vp8 id
  | .vp9 d => (d.pushPacket payload marker sequenceNumber timestamp).map .vp9 id
  | .h264 d => (d.pushPacket payload marker sequenceNumber timestamp).map .h264 id
  | .opus d => (d.pushPacket payload marker sequenceNumber timestamp).map .opus id

def takeFrame : BoxedDepacketizer → BoxedDepacketizer × Option MediaFrame
  | .vp8 d => d.takeFrame.map .vp8 id
  | .vp9 d => d.takeFrame.map .vp9 id
  | .h264 d => d.takeFrame.map .h264 id
  | .opus d => d.takeFrame.map .opus id

def reset : BoxedDepacketizer → BoxedDepacketizer
  | .vp8 d => .vp8 d.reset
  | .vp9 d => .vp9 d.reset
  | .h264 d => .h264 d.reset
  | .opus d => .opus d.reset

instance : Depacketizer BoxedDepacketizer where
  pushPacket := pushPacket
  takeFrame := takeFrame
  reset := reset

end BoxedDepacketizer

def createDepacketizer : CodecType → BoxedDepacketizer
  | .vp8 => .vp8 .new
  | .vp9 => .vp9 .new
  | .h264 => .h264 .new
  | .opus => .opus .new
  -- one packet is one frame
  | .pcmU | .pcmA | .g722 | .pcm => .opus .new
  | .aac | .mp3 => .opus .new
  -- no depacketizer of their own yet
  | .h265 | .av1 => .h264 .new

end LingVoice.LmDepacketizer

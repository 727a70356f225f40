import LingVoice.Lib.Mealy
import LingVoice.Lib.Utf8
import LingVoice.LmCore.Media

/-!
# RtmpRemuxer — media frames as RTMP chunks (`lm-protocol/src/rtmp.rs`)

Every frame becomes one message with an FLV header, cut into chunks of `chunk_size` bytes.  The first call of
`push_frame` puts an `onMetaData` message before the frame.

The basic header of a continuation is `ChunkType::Type3 as u8 | cs_id`, without the shift that the first chunk
has.  For the three chunk streams in use this is the byte 7, the header of a new message on chunk stream 7.
-/

namespace LingVoice.LmProtocol

open Lib (be16 be64 toBe toLe utf8Bytes Mealy.run)
open LmCore List

/-- `ChunkType`; the media remuxer starts every message with `Type0`. -/
inductive ChunkType
  | type0
  | type1
  | type2
  | type3
  deriving DecidableEq, Repr

def ChunkType.code : ChunkType → UInt8
  | .type0 => 0
  | .type1 => 1
  | .type2 => 2
  | .type3 => 3

inductive RtmpMessageType
  | setChunkSize
  | abortMessage
  | acknowledgement
  | userControl
  | windowAckSize
  | setPeerBandwidth
  | audio
  | video
  | dataAmf0
  | dataAmf3
  deriving DecidableEq, Repr

def RtmpMessageType.code : RtmpMessageType → UInt8
  | .setChunkSize => 1
  | .abortMessage => 2
  | .acknowledgement => 3
  | .userControl => 4
  | .windowAckSize => 5
  | .setPeerBandwidth => 6
  | .audio => 8
  | .video => 9
  | .dataAmf0 => 18
  | .dataAmf3 => 15

structure RtmpRemuxer where
  chunkSize : UInt32
  firstTimestamp : Option UInt32
  lastTimestamp : UInt32
  outputBuffer : Bytes
  metadataSent : Bool
  deriving DecidableEq, Repr

namespace RtmpRemuxer

def new : RtmpRemuxer :=
  { chunkSize := 4096
    firstTimestamp := none
    lastTimestamp := 0
    outputBuffer := []
    metadataSent := false }

def setChunkSize (r : RtmpRemuxer) (size : UInt32) : RtmpRemuxer :=
  { r with chunkSize := size }

/-! ## The `onMetaData` message -/

def amf0String (s : String) : Bytes :=
  0x02 :: (be16 (UInt16.ofNat (utf8Bytes s).length) ++ utf8Bytes s)

/-- A number is given by the bits of the `f64`. -/
def amf0Number (bits : UInt64) : Bytes :=
  0x00 :: be64 bits

/-- The codecs are not looked at. -/
def generateMetadata (_videoCodec _audioCodec : CodecType) : Bytes :=
  [0x02, 0x00, 0x0a] ++ utf8Bytes "onMetaData" ++ [0x03] ++
    -- 0.0
    amf0String "duration" ++ amf0Number 0x0000000000000000 ++
    -- 1280.0
    amf0String "width" ++ amf0Number 0x4094000000000000 ++
    -- 720.0
    amf0String "height" ++ amf0Number 0x4086800000000000 ++
    -- 1500.0
    amf0String "videodatarate" ++ amf0Number 0x4097700000000000 ++
    -- 30.0
    amf0String "framerate" ++ amf0Number 0x403e000000000000 ++
    -- 48000.0
    amf0String "audiosamplerate" ++ amf0Number 0x40e7700000000000 ++
    -- 1.0
    amf0String "audiochannels" ++ amf0Number 0x3ff0000000000000 ++
    [0x00, 0x00, 0x09]

/-! ## Chunks -/

/-- The loop over the rest of a payload from `offset` on.  A chunk takes at least one byte unless the chunk size
is zero, and then the loop of the source does not end. -/
def continueChunks (chunkSize csId : UInt32) (payload : Bytes) : Nat → Nat → Bytes
  | 0, _ => []
  | fuel + 1, offset =>
    if offset < payload.length then
      let remaining := min (payload.length - offset) chunkSize.toNat
      -- no shift of the chunk type here
      (ChunkType.type3.code ||| (csId.toUInt8 &&& 0x3f)) :: (payload.drop offset).take remaining ++
        continueChunks chunkSize csId payload fuel (offset + remaining)
    else
      []

def createChunk (r : RtmpRemuxer) (chunkType : ChunkType) (csId timestamp : UInt32) (messageType : UInt8)
    (messageStreamId : UInt32) (payload : Bytes) : Bytes :=
  let basicHeader := (chunkType.code <<< 6) ||| (csId.toUInt8 &&& 0x3f)
  let msgLen := UInt32.ofNat payload.length
  let messageHeader :=
    if chunkType = .type0 then
      [(timestamp >>> 16).toUInt8, (timestamp >>> 8).toUInt8, timestamp.toUInt8,
        (msgLen >>> 16).toUInt8, (msgLen >>> 8).toUInt8, msgLen.toUInt8, messageType] ++
        toLe 4 messageStreamId.toNat
    else
      []
  let chunkDataSize := min payload.length r.chunkSize.toNat
  [basicHeader] ++ messageHeader ++ payload.take chunkDataSize ++
    (if r.chunkSize.toNat < payload.length then
      continueChunks r.chunkSize csId payload payload.length chunkDataSize
    else
      [])

/-! ## Frames -/

/-- The RTP clock in milliseconds; audio is taken to have 48 kHz. -/
def timestampMs (frame : MediaFrame) : UInt32 :=
  match frame.kind with
  | .video => frame.timestamp / 90
  | .audio => frame.timestamp / 48

def messageType : TrackKind → UInt8
  | .video => RtmpMessageType.video.code
  | .audio => RtmpMessageType.audio.code

def csId : TrackKind → UInt32
  | .video => 6
  | .audio => 7

def videoHeader (frame : MediaFrame) : Bytes :=
  let frameType : UInt8 := if frame.keyframe then 1 else 2
  -- every codec has the id of H.264
  let codecId : UInt8 := 7
  ((frameType <<< 4) ||| codecId) :: (if frame.codec = .h264 then [0x01, 0, 0, 0] else [])

def audioCodecId : CodecType → UInt8
  | .opus => 13
  | .pcmU => 8
  | .pcmA => 7
  | .aac => 10
  | _ => 13

def audioHeader (frame : MediaFrame) : Bytes :=
  ((audioCodecId frame.codec <<< 4) ||| 0x0f) :: (if frame.codec = .aac then [0x01] else [])

def flvHeader (frame : MediaFrame) : Bytes :=
  match frame.kind with
  | .video => videoHeader frame
  | .audio => audioHeader frame

def payload (frame : MediaFrame) : Bytes :=
  flvHeader frame ++ frame.data

def metadataChunk (r : RtmpRemuxer) (frame : MediaFrame) : Bytes :=
  r.createChunk .type0 4 0 RtmpMessageType.dataAmf0.code 1 (generateMetadata frame.codec frame.codec)

def mediaChunk (r : RtmpRemuxer) (frame : MediaFrame) : Bytes :=
  r.createChunk .type0 (csId frame.kind) (timestampMs frame) (messageType frame.kind) 1 (payload frame)

def pushFrame (r : RtmpRemuxer) (frame : MediaFrame) : RtmpRemuxer × Bytes :=
  let r := if r.firstTimestamp.isNone then { r with firstTimestamp := some frame.timestamp } else r
  let r :=
    if r.metadataSent then
      r
    else
      { r with outputBuffer := r.outputBuffer ++ r.metadataChunk frame, metadataSent := true }
  let r := { r with
    outputBuffer := r.outputBuffer ++ r.mediaChunk frame
    lastTimestamp := timestampMs frame }
  ({ r with outputBuffer := [] }, r.outputBuffer)

def flush (r : RtmpRemuxer) : RtmpRemuxer × Bytes :=
  ({ r with outputBuffer := [] }, r.outputBuffer)

def reset (r : RtmpRemuxer) : RtmpRemuxer :=
  { r with
    outputBuffer := []
    firstTimestamp := none
    lastTimestamp := 0
    metadataSent := false }

def output (r : RtmpRemuxer) (frames : List MediaFrame) : Bytes :=
  (Mealy.run pushFrame r frames).2.flatten

/-! ## What a run of calls puts out -/

/-- One call, from a remuxer that has nothing in its buffer. -/
theorem pushFrame_eq {r : RtmpRemuxer} (h : r.outputBuffer = []) (frame : MediaFrame) :
    (r.pushFrame frame).1.chunkSize = r.chunkSize ∧ (r.pushFrame frame).1.outputBuffer = [] ∧
      (r.pushFrame frame).1.metadataSent = true ∧
      (r.pushFrame frame).2 =
        (if r.metadataSent then [] else r.metadataChunk frame) ++ r.mediaChunk frame := by
  rcases r with ⟨size, first, last, buffer, sent⟩
  obtain rfl : buffer = [] := h
  -- the timestamps are not read for the output
  cases first with
  | none | some timestamp =>
    cases sent with
    | false | true => exact ⟨rfl, rfl, rfl, rfl⟩

theorem mediaChunk_congr {r r' : RtmpRemuxer} (h : r'.chunkSize = r.chunkSize) : r'.mediaChunk = r.mediaChunk := by
  funext frame
  simp only [mediaChunk, createChunk, h]

/-- Once the metadata are out, a run puts out the chunks of its frames. -/
theorem output_of_metadataSent {r : RtmpRemuxer} (hbuffer : r.outputBuffer = [])
    (hsent : r.metadataSent = true) (frames : List MediaFrame) : r.output frames = frames.flatMap r.mediaChunk := by
  induction frames generalizing r with
  | nil => rfl
  | cons frame frames ih =>
    rcases pushFrame_eq hbuffer frame with ⟨hsize, hbuffer', hsent', hout⟩
    have hrest := ih hbuffer' hsent'
    rw [mediaChunk_congr hsize] at hrest
    rw [if_pos hsent, nil_append] at hout
    rw [output] at hrest
    rw [output, Lib.Mealy.run_cons, flatten_cons, hout, hrest, flatMap_cons]

end RtmpRemuxer

end LingVoice.LmProtocol

import LingVoice.Common.Media
import LingVoice.Common.Time
import LingVoice.Lib.Slice

/-!
# Segmenter — DASH segments and manifests (`pkg/protocol/dash/segmenter.go`)

A `Stream` buffers the frames that are pushed and cuts a segment when a video keyframe comes after the segment duration,
or when twice that time has passed.  `GenerateMPD` describes the segments by templates, `GetSegment` serves them.

The history variables are those of the HLS segmenter.
-/

namespace LingVoice.Dash

open Lib
open Common (MediaFrame Time)

structure Config where
  segmentDuration : Int64
  maxSegments : Int64
  minBufferTime : Int64
  deriving DecidableEq, Repr

structure Segment where
  index : Nat
  sequence : UInt64
  startTime : Time
  duration : Int64
  data : Bytes
  uri : String
  frames : List Nat
  trigger : Nat
  deriving DecidableEq, Repr

structure Representation where
  id : String
  width : UInt16
  height : UInt16
  sampleRate : UInt32
  channels : UInt16
  deriving DecidableEq, Repr

structure Buffered where
  number : Nat
  frame : MediaFrame
  deriving DecidableEq, Repr

structure Stream where
  id : String
  config : Config
  segments : List Segment := []
  gopBuffer : List Buffered := []
  segStart : Time
  mediaSeq : UInt64 := 0
  videoRep : Option Representation
  audioRep : Option Representation
  pushed : Nat := 0
  deriving DecidableEq, Repr

structure Push where
  frame : MediaFrame
  now : Time
  later : Time
  deriving DecidableEq, Repr

namespace Stream

def newSegment (st : Stream) (later : Time) (trigger : Nat) : Segment where
  index := st.segments.length
  sequence := st.mediaSeq
  startTime := st.segStart
  duration := Time.sub later st.segStart
  data := st.gopBuffer.flatMap (·.frame.payload)
  uri := st.id ++ "_" ++ toString st.mediaSeq.toNat ++ ".m4s"
  frames := st.gopBuffer.map (·.number)
  trigger := trigger

def cutSegment (st : Stream) (later : Time) (trigger : Nat) : Except Fault Stream :=
  if st.gopBuffer = [] then
    .ok st
  else do
    let segments ← Slice.keepLast (st.segments ++ [st.newSegment later trigger]) st.config.maxSegments.toInt
    return { st with segments := segments, mediaSeq := st.mediaSeq + 1 }

def cuts (config : Config) (segStart : Time) (p : Push) : Prop :=
  (p.frame.type = .frameVideo ∧ p.frame.marker ∧ config.segmentDuration ≤ Time.sub p.now segStart) ∨
    config.segmentDuration * 2 ≤ Time.sub p.now segStart

instance (config : Config) (segStart : Time) (p : Push) : Decidable (cuts config segStart p) :=
  inferInstanceAs (Decidable (_ ∨ _))

def buffer (st : Stream) (frame : MediaFrame) : Stream :=
  { st with gopBuffer := st.gopBuffer ++ [⟨st.pushed, frame⟩], pushed := st.pushed + 1 }

def pushFrame (st : Stream) (p : Push) : Except Fault Stream :=
  if cuts st.config st.segStart p then do
    let cut ← (st.buffer p.frame).cutSegment p.later st.pushed
    return { cut with segStart := p.now }
  else
    .ok (st.buffer p.frame)

def run (id : String) (config : Config) (videoRep audioRep : Option Representation) (start : Time)
    (pushes : List Push) : Except Fault Stream :=
  pushes.foldlM pushFrame
    { id := id, config := config, videoRep := videoRep, audioRep := audioRep, segStart := start }

/-! ## Manifests -/

structure SegmentTemplate where
  duration : Int64
  startNumber : UInt64
  media : String
  initialization : String
  deriving DecidableEq, Repr

inductive AdaptationSet
  | video (rep : Representation) (template : SegmentTemplate)
  | audio (rep : Representation) (template : SegmentTemplate)
  deriving DecidableEq, Repr

def AdaptationSet.template : AdaptationSet → SegmentTemplate
  | .video _ template => template
  | .audio _ template => template

structure Mpd where
  minBufferTime : Int64
  publishTime : Time
  adaptationSets : List AdaptationSet
  /-- Sequence number, start and duration of each segment, in comments. -/
  timeline : List (UInt64 × Time × Int64)
  deriving DecidableEq, Repr

def startNumber (st : Stream) : UInt64 :=
  match st.segments with
  | [] => 1
  | seg :: _ => seg.sequence

/-- The template of a representation; `name` is the stream's id with what is added for the kind. -/
def template (st : Stream) (name : String) : SegmentTemplate where
  duration := st.config.segmentDuration
  startNumber := st.startNumber
  media := name ++ "_$Number$.m4s"
  initialization := name ++ "_init.m4s"

def generateMPD (st : Stream) (now : Time) : Mpd where
  minBufferTime := st.config.minBufferTime
  publishTime := now
  adaptationSets :=
    (st.videoRep.map fun rep => .video rep (st.template st.id)).toList ++
      (st.audioRep.map fun rep => .audio rep (st.template (st.id ++ "_audio"))).toList
  timeline := st.segments.map fun seg => (seg.sequence, seg.startTime, seg.duration)

def getSegment (st : Stream) (uri : String) : Option Bytes :=
  (st.segments.find? (·.uri = uri)).map (·.data)

end Stream
end LingVoice.Dash

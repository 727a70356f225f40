import LingVoice.Common.Time
import LingVoice.Hls.TsRoundTrip
import LingVoice.Lib.Fallible

/-!
# Segmenter — HLS segments and playlists (`pkg/protocol/hls/segmenter.go`)

A `Stream` buffers the frames that are pushed and cuts a segment when a video keyframe comes after the segment duration;
in low-latency mode it also cuts parts.  `GeneratePlaylist` lists them, `GetSegment` serves them.

Besides the fields of the code there are history variables: frames in the buffer carry the number of the push, and a
segment tells from which frames it was made and which frame triggered the cut.
-/

namespace LingVoice.Hls

open Lib
open Common (MediaFrame Time)

inductive Mode
  | classic
  | llhls
  deriving DecidableEq, Repr

structure Config where
  segmentDuration : Int64
  partDuration : Int64
  maxSegments : Int64
  mode : Mode
  deriving DecidableEq, Repr

structure Segment where
  index : Nat
  sequence : UInt64
  startTime : Time
  duration : Int64
  data : Bytes
  isPartial : Bool := false
  partIndex : Nat := 0
  uri : String
  /-- The numbers of the frames that make up the data. -/
  frames : List Nat
  /-- The number of the frame with which the segment was cut. -/
  trigger : Nat
  deriving DecidableEq, Repr

structure Buffered where
  number : Nat
  frame : MediaFrame
  deriving DecidableEq, Repr

structure Stream where
  id : String
  config : Config
  segments : List Segment := []
  parts : List Segment := []
  currentSeg : Option Segment := none
  mediaSeq : UInt64 := 0
  gopBuffer : List Buffered := []
  segStart : Time
  tsMuxer : TSMuxer := .new
  /-- How many frames were pushed. -/
  pushed : Nat := 0

/-- A call of `pushFrame` with what the clock says in it, and what it says when a segment is cut. -/
structure Push where
  frame : MediaFrame
  now : Time
  later : Time
  deriving DecidableEq, Repr

namespace Stream

/-- The data of a segment: a transport stream, or the payloads in low-latency mode. -/
def segmentData (st : Stream) : Except Fault (TSMuxer × Bytes) :=
  match st.config.mode with
  | .classic => st.tsMuxer.muxAll (st.gopBuffer.map (·.frame))
  | .llhls => .ok (st.tsMuxer, st.gopBuffer.flatMap (·.frame.payload))

def segmentUri (st : Stream) : String :=
  match st.config.mode with
  | .classic => st.id ++ "_" ++ toString st.mediaSeq.toNat ++ ".ts"
  | .llhls => st.id ++ "_" ++ toString st.mediaSeq.toNat ++ ".m4s"

def newSegment (st : Stream) (data : Bytes) (later : Time) (trigger : Nat) : Segment where
  index := st.segments.length
  sequence := st.mediaSeq
  startTime := st.segStart
  duration := Time.sub later st.segStart
  data := data
  uri := st.segmentUri
  frames := st.gopBuffer.map (·.number)
  trigger := trigger

def cutSegment (st : Stream) (later : Time) (trigger : Nat) : Except Fault Stream :=
  if st.gopBuffer = [] then
    .ok st
  else do
    let (tsMuxer, data) ← st.segmentData
    let seg := st.newSegment data later trigger
    let segments ← Slice.keepLast (st.segments ++ [seg]) st.config.maxSegments.toInt
    return { st with
      tsMuxer := tsMuxer
      segments := segments
      mediaSeq := st.mediaSeq + 1
      currentSeg := some seg
      parts := [] }

def partUri (st : Stream) : String :=
  st.id ++ "_" ++ toString st.mediaSeq.toNat ++ "_part" ++ toString st.parts.length ++ ".m4s"

def cutPartialSegment (st : Stream) (trigger : Nat) : Stream :=
  if st.gopBuffer = [] then
    st
  else
    let part : Segment := {
      index := st.segments.length
      sequence := st.mediaSeq
      startTime := st.segStart
      duration := st.config.partDuration
      data := st.gopBuffer.flatMap (·.frame.payload)
      isPartial := true
      partIndex := st.parts.length
      uri := st.partUri
      frames := st.gopBuffer.map (·.number)
      trigger := trigger }
    { st with parts := st.parts ++ [part] }

def cuts (config : Config) (segStart : Time) (p : Push) : Prop :=
  p.frame.type = .frameVideo ∧ p.frame.marker ∧ config.segmentDuration ≤ Time.sub p.now segStart

instance (config : Config) (segStart : Time) (p : Push) : Decidable (cuts config segStart p) :=
  inferInstanceAs (Decidable (_ ∧ _))

def buffer (st : Stream) (frame : MediaFrame) : Stream :=
  { st with gopBuffer := st.gopBuffer ++ [⟨st.pushed, frame⟩], pushed := st.pushed + 1 }

/-- The first part of `pushFrame`, which may cut a segment. -/
def pushCut (st : Stream) (p : Push) : Except Fault Stream :=
  if cuts st.config st.segStart p then do
    let cut ← (st.buffer p.frame).cutSegment p.later st.pushed
    return { cut with segStart := p.now }
  else
    .ok (st.buffer p.frame)

def pushFrame (st : Stream) (p : Push) : Except Fault Stream := do
  let next ← st.pushCut p
  -- the elapsed time is the one before the cut
  if st.config.mode = .llhls ∧ st.config.partDuration ≤ Time.sub p.now st.segStart then
    return next.cutPartialSegment st.pushed
  else
    return next

def run (id : String) (config : Config) (start : Time) (pushes : List Push) : Except Fault Stream :=
  pushes.foldlM pushFrame { id := id, config := config, segStart := start }

section Runs

variable {st st' : Stream} {p : Push}

theorem cutSegment_eq_ok {later : Time} {trigger : Nat} (hbuffer : st.gopBuffer ≠ []) :
    st.cutSegment later trigger = .ok st' ↔ ∃ tsMuxer data segments, st.segmentData = .ok (tsMuxer, data) ∧
      Slice.keepLast (st.segments ++ [st.newSegment data later trigger]) st.config.maxSegments.toInt = .ok segments ∧
      st' = { st with
        tsMuxer := tsMuxer
        segments := segments
        mediaSeq := st.mediaSeq + 1
        currentSeg := some (st.newSegment data later trigger)
        parts := [] } := by
  rw [cutSegment, if_neg hbuffer, bind_eq_ok]
  constructor
  · rintro ⟨⟨tsMuxer, data⟩, hdata, hrest⟩
    obtain ⟨segments, hsegments, hst⟩ := bind_eq_ok.1 hrest
    exact ⟨tsMuxer, data, segments, hdata, hsegments, (Except.ok.inj hst).symm⟩
  · rintro ⟨tsMuxer, data, segments, hdata, hsegments, rfl⟩
    exact ⟨(tsMuxer, data), hdata, bind_eq_ok.2 ⟨segments, hsegments, rfl⟩⟩

/-- What a push does: it buffers the frame, may cut a segment and may cut a part. -/
theorem pushFrame_cases (h : st.pushFrame p = .ok st') :
    ∃ next, (next = st.buffer p.frame ∧ ¬ cuts st.config st.segStart p ∨
        cuts st.config st.segStart p ∧
          ∃ cut, (st.buffer p.frame).cutSegment p.later st.pushed = .ok cut ∧ next = { cut with segStart := p.now }) ∧
      (st' = next ∨ st' = next.cutPartialSegment st.pushed) := by
  unfold pushFrame at h
  obtain ⟨next, hnext, hpart⟩ := bind_eq_ok.1 h
  refine ⟨next, ?_, ?_⟩
  · unfold pushCut at hnext
    split at hnext
    · rename_i hcuts
      obtain ⟨cut, hcut, hnext⟩ := bind_eq_ok.1 hnext
      exact .inr ⟨hcuts, cut, hcut, (Except.ok.inj hnext).symm⟩
    · rename_i hcuts
      exact .inl ⟨(Except.ok.inj hnext).symm, hcuts⟩
  · split at hpart
    · exact .inr (Except.ok.inj hpart).symm
    · exact .inl (Except.ok.inj hpart).symm

end Runs

/-! ## Playlists -/

inductive Line
  | extM3u
  | version
  | targetDuration (segmentDuration : Int64)
  | partInf (partDuration : Int64)
  | serverControl (partDuration segmentDuration : Int64)
  | mediaSequence (n : UInt64)
  | extInf (duration : Int64)
  | segment (uri : String)
  | part (duration : Int64) (uri : String)
  | preloadHint (uri : String)
  deriving DecidableEq, Repr

/-- A segment in the playlist, with the parts that have its sequence number. -/
def segmentLines (st : Stream) (seg : Segment) : List Line :=
  [.extInf seg.duration, .segment seg.uri] ++
    match st.config.mode with
    | .classic => []
    | .llhls => (st.parts.filter (·.sequence = seg.sequence)).map fun part => .part part.duration part.uri

def generatePlaylist (st : Stream) : List Line :=
  [.extM3u, .version, .targetDuration st.config.segmentDuration] ++
    (match st.config.mode with
      | .classic => []
      | .llhls => [.partInf st.config.partDuration,
          .serverControl st.config.partDuration st.config.segmentDuration]) ++
    (st.segments.head?.map fun seg => .mediaSequence seg.sequence).toList ++
    st.segments.flatMap st.segmentLines ++
    if st.config.mode = .llhls ∧ st.currentSeg.isSome then [.preloadHint st.partUri] else []

def getSegment (st : Stream) (uri : String) : Option Bytes :=
  ((st.segments ++ st.parts).find? (·.uri = uri)).map (·.data)

end Stream
end LingVoice.Hls

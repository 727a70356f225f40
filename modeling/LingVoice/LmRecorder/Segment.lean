import LingVoice.LmDepacketizer.Vp8

/-!
# Segment — recordings in segments (`lm-recorder/src/lib.rs`, `SegmentRecorder`)

A recording is to begin a new segment at a keyframe once the current one has lasted long enough.  The decision needs
`segment_start_ts`, which is set to `None` by `new` and by nothing else; so a recording has one segment
(`oneSegment_writeFrames`).  Frames of a codec that has neither IVF nor Annex B files are counted and not written.
Segments are merged without the first 32 bytes of the later ones, which only an IVF file has for its header.

A segment that is closed is kept with what was written to its file.
-/

namespace LingVoice.LmRecorder

open Lib (toLe)
open LmCore List
open LmDepacketizer (vp8ExtractDimensions)

/-! ## IVF files -/

def ivfHeader (fourcc : Bytes) (width height : UInt16) : Bytes :=
  -- DKIF, version, length of the header
  [0x44, 0x4B, 0x49, 0x46] ++ toLe 2 0 ++ toLe 2 32 ++ fourcc ++ toLe 2 width.toNat ++ toLe 2 height.toNat ++
    toLe 4 90000 ++ toLe 4 1 ++ toLe 4 0 ++ toLe 4 0

def ivfFrameHeader (size : UInt32) (timestamp : UInt64) : Bytes :=
  toLe 4 size.toNat ++ toLe 8 timestamp.toNat

/-! ## The recorder -/

structure SegmentWriter where
  file : Bytes
  path : String
  frameCount : UInt64
  deriving DecidableEq, Repr

structure SegmentRecorder where
  outputDir : String
  recordingId : String
  /-- In seconds; 0 turns segments off. -/
  segmentDuration : UInt64
  videoCodec : CodecType
  currentSegmentIndex : UInt32
  currentSegment : Option SegmentWriter
  completedSegments : List SegmentWriter
  firstTimestamp : Option UInt32
  segmentStartTs : Option UInt32
  dimensionsSet : Bool
  width : UInt16
  height : UInt16
  totalFrames : UInt64
  deriving DecidableEq, Repr

def fourDigits (n : Nat) : String :=
  let digits := toString n
  String.ofList (List.replicate (4 - digits.length) '0') ++ digits

def extension : CodecType → String
  | .vp8 | .vp9 => "ivf"
  | .h264 => "h264"
  | _ => "raw"

def frameBytes (codec : CodecType) (tsBase : UInt32) (frame : MediaFrame) : Bytes :=
  match codec with
  | .vp8 | .vp9 =>
    ivfFrameHeader (UInt32.ofNat frame.data.length) (frame.timestamp - tsBase).toUInt64 ++ frame.data
  | .h264 => frame.data
  | _ => []

def fileHeader (codec : CodecType) (width height : UInt16) : Bytes :=
  match codec with
  | .vp8 => ivfHeader [0x56, 0x50, 0x38, 0x30] width height
  | .vp9 => ivfHeader [0x56, 0x50, 0x39, 0x30] width height
  | _ => []

namespace SegmentRecorder

def new (outputDir recordingId : String) (segmentDuration : UInt64) (videoCodec : CodecType) : SegmentRecorder where
  outputDir := outputDir
  recordingId := recordingId
  segmentDuration := segmentDuration
  videoCodec := videoCodec
  currentSegmentIndex := 0
  currentSegment := none
  completedSegments := []
  firstTimestamp := none
  segmentStartTs := none
  dimensionsSet := false
  width := 0
  height := 0
  totalFrames := 0

def extractDimensions (r : SegmentRecorder) (frame : MediaFrame) : SegmentRecorder :=
  if !r.dimensionsSet && frame.keyframe then
    match vp8ExtractDimensions frame.data with
    | some (w, h) => { r with width := w, height := h, dimensionsSet := true }
    | none => r
  else
    r

/-- The source divides by the clock rate and compares the quotient with the seconds in floating point. -/
def shouldSplitSegment (r : SegmentRecorder) (frame : MediaFrame) : Bool :=
  if r.currentSegment.isNone then
    false
  else if r.segmentDuration = 0 then
    false
  else if !frame.keyframe then
    false
  else
    match r.segmentStartTs, r.firstTimestamp with
    | some startTs, some _ => 90000 * r.segmentDuration.toNat ≤ (frame.timestamp - startTs).toNat
    | _, _ => false

def openNewSegment (r : SegmentRecorder) : SegmentRecorder :=
  { r with
    currentSegment := some
      { file := fileHeader r.videoCodec r.width r.height
        path := r.outputDir ++ "/" ++ r.recordingId ++ "_seg" ++ fourDigits r.currentSegmentIndex.toNat ++ "." ++
          extension r.videoCodec
        frameCount := 0 } }

def closeCurrentSegment (r : SegmentRecorder) : SegmentRecorder :=
  match r.currentSegment with
  | some seg => { r with currentSegment := none, completedSegments := r.completedSegments ++ [seg] }
  | none => r

def appendFrame (r : SegmentRecorder) (frame : MediaFrame) : SegmentRecorder :=
  match r.currentSegment with
  | some seg =>
    { r with
      currentSegment := some
        { seg with
          file := seg.file ++ frameBytes r.videoCodec (r.firstTimestamp.getD 0) frame
          frameCount := seg.frameCount + 1 }
      totalFrames := r.totalFrames + 1 }
  | none => r

def writeFrame (r : SegmentRecorder) (frame : MediaFrame) : SegmentRecorder :=
  let r := r.extractDimensions frame
  let r := if r.firstTimestamp.isNone then { r with firstTimestamp := some frame.timestamp } else r
  let r :=
    if r.shouldSplitSegment frame then
      { r.closeCurrentSegment with currentSegmentIndex := r.currentSegmentIndex + 1 }
    else
      r
  let r := if r.currentSegment.isNone then r.openNewSegment else r
  r.appendFrame frame

def writeFrames (r : SegmentRecorder) (frames : List MediaFrame) : SegmentRecorder :=
  frames.foldl writeFrame r

def segments (r : SegmentRecorder) : List SegmentWriter :=
  r.completedSegments ++ r.currentSegment.toList

end SegmentRecorder

/-! ## Segments as they should be -/

/-- A keyframe that is long enough after the first frame of the segment. -/
def OpensSegment (duration : Nat) (first frame : MediaFrame) : Prop :=
  frame.keyframe ∧ 90000 * duration ≤ (frame.timestamp - first.timestamp).toNat

instance (duration : Nat) (first frame : MediaFrame) : Decidable (OpensSegment duration first frame) :=
  inferInstanceAs (Decidable (_ ∧ _))

/-- The frames of each segment, the current one holding `current` already. -/
def cutSegments (duration : Nat) : List MediaFrame → List MediaFrame → List (List MediaFrame)
  | current, [] => if current = [] then [] else [current]
  | [], frame :: rest => cutSegments duration [frame] rest
  | first :: current, frame :: rest =>
    if OpensSegment duration first frame then
      (first :: current) :: cutSegments duration [frame] rest
    else
      cutSegments duration (first :: current ++ [frame]) rest

/-- A frame as it stands in a file: in IVF with its size and time, otherwise as it is. -/
def frameRecord (codec : CodecType) (tsBase : UInt32) (frame : MediaFrame) : Bytes :=
  match codec with
  | .vp8 | .vp9 =>
    ivfFrameHeader (UInt32.ofNat frame.data.length) (frame.timestamp - tsBase).toUInt64 ++ frame.data
  | _ => frame.data

def SegmentOf (codec : CodecType) (tsBase : UInt32) (seg : SegmentWriter) (frames : List MediaFrame) : Prop :=
  (∃ width height, seg.file = fileHeader codec width height ++ frames.flatMap (frameRecord codec tsBase)) ∧
    seg.frameCount = UInt64.ofNat frames.length

def Written (codec : CodecType) : Prop :=
  codec = .vp8 ∨ codec = .vp9 ∨ codec = .h264

section Cut

variable {duration : Nat} {first : MediaFrame}

theorem cutSegments_of_none {rest : List MediaFrame} (h : ∀ frame ∈ rest, ¬ OpensSegment duration first frame)
    (current : List MediaFrame) : cutSegments duration (first :: current) rest = [first :: current ++ rest] := by
  induction rest generalizing current with
  | nil => rw [cutSegments, if_neg (cons_ne_nil _ _), append_nil]
  | cons frame rest ih =>
    rw [forall_mem_cons] at h
    rw [cutSegments, if_neg h.1, cons_append, ih h.2, cons_append, cons_append, append_assoc]
    rfl

theorem one_le_length_cutSegments (first : MediaFrame) (current rest : List MediaFrame) :
    1 ≤ (cutSegments duration (first :: current) rest).length := by
  induction rest generalizing first current with
  | nil =>
    exact Nat.le_refl 1
  | cons frame rest ih =>
    rw [cutSegments]
    split
    · rw [length_cons]
      exact Nat.le_add_left 1 _
    · exact ih first (current ++ [frame])

theorem two_le_length_cutSegments {rest : List MediaFrame} (h : ∃ frame ∈ rest, OpensSegment duration first frame)
    (current : List MediaFrame) : 2 ≤ (cutSegments duration (first :: current) rest).length := by
  induction rest generalizing current with
  | nil =>
    obtain ⟨frame, hmem, -⟩ := h
    exact absurd hmem not_mem_nil
  | cons frame rest ih =>
    rw [cutSegments]
    split
    · rw [length_cons]
      exact Nat.succ_le_succ (one_le_length_cutSegments frame [] rest)
    · rename_i hnot
      obtain ⟨frame', hmem, hopens⟩ := h
      rcases mem_cons.1 hmem with rfl | hmem
      · exact absurd hopens hnot
      · exact ih ⟨frame', hmem, hopens⟩ (current ++ [frame])

end Cut

/-! ## Segments as they are -/

theorem not_written {codec : CodecType} (h : ¬ Written codec) (tsBase : UInt32) :
    (∀ frame, frameBytes codec tsBase frame = []) ∧ (∀ frame, frameRecord codec tsBase frame = frame.data) ∧
      ∀ width height, fileHeader codec width height = [] := by
  rw [Written, not_or, not_or] at h
  cases codec with
  | vp8 => exact absurd rfl h.1
  | vp9 => exact absurd rfl h.2.1
  | h264 => exact absurd rfl h.2.2
  | _ => exact ⟨fun _ => rfl, fun _ => rfl, fun _ _ => rfl⟩

namespace SegmentRecorder

/-- The recorder after `frames`, all of them in one segment. -/
structure OneSegment (codec : CodecType) (tsBase : UInt32) (r : SegmentRecorder) (frames : List MediaFrame) :
    Prop where
  videoCodec : r.videoCodec = codec
  firstTimestamp : r.firstTimestamp = some tsBase
  segmentStartTs : r.segmentStartTs = none
  completedSegments : r.completedSegments = []
  currentSegment : ∃ seg width height, r.currentSegment = some seg ∧
    seg.file = fileHeader codec width height ++ frames.flatMap (frameBytes codec tsBase) ∧
    seg.frameCount = UInt64.ofNat frames.length

variable {r : SegmentRecorder} {codec : CodecType} {tsBase : UInt32} {frames : List MediaFrame}

/-- Without the beginning of the segment nothing is split. -/
theorem shouldSplitSegment_eq_false (h : r.segmentStartTs = none) (frame : MediaFrame) :
    r.shouldSplitSegment frame = false := by
  unfold shouldSplitSegment
  rw [h]
  split
  · rfl
  · split
    · rfl
    · split
      · rfl
      · rfl

theorem extractDimensions_eq (r : SegmentRecorder) (frame : MediaFrame) :
    ∃ width height set,
      r.extractDimensions frame = { r with width := width, height := height, dimensionsSet := set } := by
  unfold extractDimensions
  split
  · split
    · exact ⟨_, _, _, rfl⟩
    · exact ⟨_, _, _, rfl⟩
  · exact ⟨_, _, _, rfl⟩

theorem writeFrame_eq (h : r.segmentStartTs = none) (frame : MediaFrame) :
    ∃ width height set,
      r.writeFrame frame =
        let r := { r with
          width := width, height := height, dimensionsSet := set
          firstTimestamp := some (r.firstTimestamp.getD frame.timestamp) }
        (if r.currentSegment.isNone then r.openNewSegment else r).appendFrame frame := by
  obtain ⟨width, height, set, hdimensions⟩ := r.extractDimensions_eq frame
  refine ⟨width, height, set, ?_⟩
  -- the first frame sets the timestamp, later ones keep it
  have hfirst :
      (if r.firstTimestamp.isNone then
        ({ r with width := width, height := height, dimensionsSet := set, firstTimestamp := some frame.timestamp } :
          SegmentRecorder)
      else { r with width := width, height := height, dimensionsSet := set }) =
      { r with
        width := width, height := height, dimensionsSet := set
        firstTimestamp := some (r.firstTimestamp.getD frame.timestamp) } := by
    cases r with
    | mk _ _ _ _ _ _ _ firstTimestamp =>
      cases firstTimestamp with
      | none | some _ => rfl
  unfold writeFrame
  dsimp only
  rw [hdimensions, hfirst, shouldSplitSegment_eq_false (by exact h)]
  rfl

theorem OneSegment.writeFrame (h : OneSegment codec tsBase r frames) (frame : MediaFrame) :
    OneSegment codec tsBase (r.writeFrame frame) (frames ++ [frame]) := by
  obtain ⟨width, height, set, heq⟩ := writeFrame_eq h.segmentStartTs frame
  obtain ⟨seg, width', height', hseg, hfile, hcount⟩ := h.currentSegment
  rw [heq]
  simp only [appendFrame, hseg, Option.isNone_some, Bool.false_eq_true, if_false, h.videoCodec, h.firstTimestamp,
    Option.getD_some]
  refine ⟨rfl, rfl, h.segmentStartTs, h.completedSegments, _, width', height', rfl, ?_, ?_⟩
  · rw [hfile, flatMap_append, flatMap_singleton, append_assoc]
  · rw [hcount, length_append, length_singleton, UInt64.ofNat_add]
    rfl

theorem oneSegment_new (outputDir recordingId : String) (segmentDuration : UInt64) (codec : CodecType)
    (frame : MediaFrame) :
    OneSegment codec frame.timestamp ((new outputDir recordingId segmentDuration codec).writeFrame frame) [frame] := by
  have hstart : (new outputDir recordingId segmentDuration codec).segmentStartTs = none := rfl
  obtain ⟨width, height, set, heq⟩ := writeFrame_eq hstart frame
  rw [heq]
  refine ⟨rfl, rfl, rfl, rfl, _, width, height, rfl, ?_, rfl⟩
  rw [flatMap_singleton]
  rfl

theorem oneSegment_writeFrames (outputDir recordingId : String) (segmentDuration : UInt64) (codec : CodecType)
    (first : MediaFrame) (rest : List MediaFrame) :
    OneSegment codec first.timestamp
      ((new outputDir recordingId segmentDuration codec).writeFrames (first :: rest)) (first :: rest) := by
  induction rest using reverseRecOn with
  | nil => exact oneSegment_new outputDir recordingId segmentDuration codec first
  | append_singleton rest frame ih =>
    rw [← cons_append, writeFrames, foldl_append]
    exact ih.writeFrame frame

/-- The one segment is the file it should be where its frames were written. -/
theorem OneSegment.segmentOf_iff (h : OneSegment codec tsBase r frames) :
    ∃ seg, r.segments = [seg] ∧
      (SegmentOf codec tsBase seg frames ↔ Written codec ∨ ∀ frame ∈ frames, frame.data = []) := by
  obtain ⟨seg, width, height, hseg, hfile, hcount⟩ := h.currentSegment
  refine ⟨seg, ?_, ?_⟩
  · rw [segments, h.completedSegments, hseg]
    rfl
  by_cases hwritten : Written codec
  · have hsame : frameBytes codec tsBase = frameRecord codec tsBase := by rcases hwritten with rfl | rfl | rfl <;> rfl
    rw [hsame] at hfile
    exact ⟨fun _ => .inl hwritten, fun _ => ⟨⟨width, height, hfile⟩, hcount⟩⟩
  · -- nothing is written for the other codecs, so only frames without data are recorded
    obtain ⟨hbytes, hrecord, hheader⟩ := not_written hwritten tsBase
    have hempty : seg.file = [] := by
      rw [hfile, hheader, nil_append, flatMap_eq_nil_iff]
      exact fun frame _ => hbytes frame
    have hnil : frames.flatMap (frameRecord codec tsBase) = [] ↔ ∀ frame ∈ frames, frame.data = [] := by
      rw [flatMap_eq_nil_iff]
      simp only [hrecord]
    constructor
    · rintro ⟨⟨width, height, heq⟩, -⟩
      rw [hempty, hheader, nil_append] at heq
      exact .inr (hnil.1 heq.symm)
    · intro hframes
      have hdata := hframes.resolve_left hwritten
      refine ⟨⟨width, height, ?_⟩, hcount⟩
      rw [hempty, hheader, hnil.2 hdata]
      rfl

end SegmentRecorder

/-- The segments are those that should be exactly where no second one should have been opened and the frames were
written. -/
theorem SegmentRecorder.segments_writeFrames_iff (outputDir recordingId : String) (segmentDuration : UInt64)
    (codec : CodecType) (frames : List MediaFrame) :
    List.Forall₂ (SegmentOf codec ((frames.head?.map MediaFrame.timestamp).getD 0))
        ((SegmentRecorder.new outputDir recordingId segmentDuration codec).writeFrames frames).segments
        (cutSegments segmentDuration.toNat [] frames) ↔
      (∀ first ∈ frames.head?, ∀ frame ∈ frames.tail, ¬ OpensSegment segmentDuration.toNat first frame) ∧
        (Written codec ∨ ∀ frame ∈ frames, frame.data = []) := by
  cases frames with
  | nil =>
    constructor
    · intro _
      exact ⟨fun first h => absurd h (Option.not_mem_none first), .inr fun frame h => absurd h not_mem_nil⟩
    · intro _
      exact .nil
  | cons first rest =>
    obtain ⟨seg, hsegments, hiff⟩ :=
      (oneSegment_writeFrames outputDir recordingId segmentDuration codec first rest).segmentOf_iff
    rw [hsegments, ← hiff]
    simp only [cutSegments, head?_cons, Option.map_some, Option.getD_some, Option.mem_some_iff, forall_eq', tail_cons]
    constructor
    · intro h
      have hnone : ∀ frame ∈ rest, ¬ OpensSegment segmentDuration.toNat first frame := by
        intro frame hmem hopens
        -- two segments are due and one is there
        have htwo := two_le_length_cutSegments ⟨frame, hmem, hopens⟩ []
        rw [← h.length_eq, length_singleton] at htwo
        omega
      rw [cutSegments_of_none hnone, forall₂_cons] at h
      exact ⟨hnone, h.1⟩
    · rintro ⟨hnone, h⟩
      rw [cutSegments_of_none hnone]
      exact .cons h .nil

/-- Two keyframes a second apart, with segments of a second. -/
theorem SegmentRecorder.segments_writeFrames_second_keyframe :
    let frame (timestamp : UInt32) : MediaFrame := .video .h264 timestamp [0, 0, 0, 1, 0x65] 0 true
    ¬ List.Forall₂ (SegmentOf .h264 0)
        ((SegmentRecorder.new "out" "rec" 1 .h264).writeFrames [frame 0, frame 90000]).segments
        (cutSegments 1 [] [frame 0, frame 90000]) := by
  intro frame h
  have hlength := h.length_eq
  revert hlength
  decide

/-! ## Merging segments -/

namespace SegmentRecorder

def recordSegment (r : SegmentRecorder) (frames : List MediaFrame) : SegmentWriter :=
  (frames.foldl appendFrame r.openNewSegment).currentSegment.getD ⟨[], "", 0⟩

/-- 32 bytes are skipped in every file but the first, whatever the codec. -/
def mergeSegments (r : SegmentRecorder) : Bytes :=
  match r.completedSegments with
  | [] => []
  | first :: later =>
    first.file ++ later.flatMap fun seg => if 32 < seg.file.length then seg.file.drop 32 else []

section Merge

variable (r : SegmentRecorder)

def body (frames : List MediaFrame) : Bytes :=
  frames.flatMap (frameBytes r.videoCodec (r.firstTimestamp.getD 0))

theorem foldl_appendFrame (frames : List MediaFrame) :
    ∃ seg total, frames.foldl appendFrame r.openNewSegment =
        { r with currentSegment := some seg, totalFrames := total } ∧
      seg.file = fileHeader r.videoCodec r.width r.height ++ r.body frames := by
  induction frames using List.reverseRecOn with
  | nil => exact ⟨_, _, rfl, (append_nil _).symm⟩
  | append_singleton frames frame ih =>
    obtain ⟨seg, total, heq, hfile⟩ := ih
    rw [foldl_append, heq]
    refine ⟨_, _, rfl, ?_⟩
    simp [body, hfile]

theorem file_recordSegment (frames : List MediaFrame) :
    (r.recordSegment frames).file = fileHeader r.videoCodec r.width r.height ++ r.body frames := by
  obtain ⟨seg, total, heq, hfile⟩ := r.foldl_appendFrame frames
  rw [recordSegment, heq, ← hfile]
  rfl

end Merge

/-- A recording is merged to the file of one segment exactly where its files have headers to skip, or where there is
nothing to skip in the later ones. -/
theorem mergeSegments_iff (r : SegmentRecorder) (first : List MediaFrame) (parts : List (List MediaFrame)) :
    mergeSegments { r with completedSegments := (first :: parts).map r.recordSegment } =
        (r.recordSegment (first ++ parts.flatten)).file ↔
      (r.videoCodec = .h264 → ∀ part ∈ parts, ∀ frame ∈ part, frame.data = []) := by
  have hbody : r.body (first ++ parts.flatten) = r.body first ++ parts.flatMap r.body := by
    rw [body, flatMap_append, ← flatMap_id, flatMap_assoc]
    rfl
  have hskip (bytes : Bytes) : (if 32 < bytes.length then bytes.drop 32 else []) = bytes.drop 32 := by
    split <;> simp_all
  simp only [mergeSegments, map_cons, flatMap_map, hskip, file_recordSegment, hbody]
  rw [← append_assoc, append_cancel_left_eq]
  by_cases hcodec : r.videoCodec = .h264
  · have hdata (part : List MediaFrame) : r.body part = [] ↔ ∀ frame ∈ part, frame.data = [] := by
      simp [body, hcodec, frameBytes]
    simp only [hcodec, fileHeader, nil_append, forall_const, ← hdata]
    rw [Lib.flatMap_eq_flatMap_iff (by simp)]
    refine forall₂_congr fun part _ => ⟨fun h => ?_, fun h => by rw [h, drop_nil]⟩
    have hlength := congrArg length h
    rw [length_drop] at hlength
    exact length_eq_zero_iff.1 (by omega)
  · have hheader (part : List MediaFrame) :
        (fileHeader r.videoCodec r.width r.height ++ r.body part).drop 32 = r.body part := by
      by_cases hwritten : Written r.videoCodec
      · rcases hwritten with h | h | h
        · rw [h]
          rfl
        · rw [h]
          rfl
        · exact absurd h hcodec
      · obtain ⟨hbytes, -, hnone⟩ := not_written hwritten (r.firstTimestamp.getD 0)
        have hempty : r.body part = [] := flatMap_eq_nil_iff.2 fun frame _ => hbytes frame
        rw [hnone, hempty]
        rfl
    simp [hheader, hcodec]

theorem mergeSegments_h264 :
    let r : SegmentRecorder := { new "out" "rec" 1 .h264 with firstTimestamp := some 0 }
    let frame (b : UInt8) : MediaFrame := .video .h264 0 [0, 0, 1, 0x65, b] 0 true
    mergeSegments { r with completedSegments := [[frame 1], [frame 2]].map r.recordSegment } = [0, 0, 1, 0x65, 1] ∧
      (r.recordSegment [frame 1, frame 2]).file = [0, 0, 1, 0x65, 1, 0, 0, 1, 0x65, 2] := by
  decide

end SegmentRecorder

end LingVoice.LmRecorder

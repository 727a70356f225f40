import LingVoice.Lib.Lines
import LingVoice.Lib.Utf8
import LingVoice.LmProtocol.Remuxer
import LingVoice.LmProtocol.Ts
import Mathlib.Data.UInt

/-!
# Hls — the HLS remuxer (`lm-protocol/src/hls.rs`)

`HlsRemuxer` muxes frames into the transport stream of the current segment.  A video key frame that comes late
enough splits: the segment goes to the playlist and the frame opens the next one with a new muxer.  `flush` also
finishes the segment, with the muxer left as it is.

Durations are `f64` in the source and `Float` here.  Nothing is assumed about its operations, and `{:.3}` is the
parameter `fixed3`.  Counters wrap as they do without overflow checks.
-/

namespace LingVoice.LmProtocol

open Lib (Fault utf8Bytes lines lines_append)
open LmCore List

inductive HlsPlaylistType
  | vod
  | live
  | event
  deriving DecidableEq, Repr

structure HlsConfig where
  segmentDuration : Float
  windowSize : Nat
  lowLatency : Bool
  playlistType : HlsPlaylistType
  outputDir : String
  streamName : String

structure HlsSegment where
  index : UInt32
  filename : String
  duration : Float
  data : Bytes
  hasKeyframe : Bool

structure HlsPlaylist where
  streamName : String
  segments : List HlsSegment
  config : HlsConfig
  mediaSequence : UInt64
  totalSegments : UInt64
  content : String

/-! ## The playlist -/

namespace HlsPlaylist

def new (config : HlsConfig) : HlsPlaylist :=
  { streamName := config.streamName
    segments := []
    config := config
    mediaSequence := 0
    totalSegments := 0
    content := "" }

/-- The loop that makes room in a live playlist.  It pops from an empty queue forever when the window has size
zero; otherwise every turn removes a segment. -/
def evict (windowSize : Nat) : Nat → List HlsSegment → UInt64 → Except Fault (List HlsSegment × UInt64)
  | 0, _, _ => .error .outOfFuel
  | fuel + 1, segments, mediaSequence =>
    if windowSize ≤ segments.length then
      evict windowSize fuel segments.tail (mediaSequence + 1)
    else
      .ok (segments, mediaSequence)

def playlistTypeLine : HlsPlaylistType → String
  | .vod => "#EXT-X-PLAYLIST-TYPE:VOD\n"
  -- a live playlist calls itself an event
  | .live => "#EXT-X-PLAYLIST-TYPE:EVENT\n"
  | .event => "#EXT-X-PLAYLIST-TYPE:EVENT\n"

variable (fixed3 : Float → String)

def segmentLines (segment : HlsSegment) : String :=
  "#EXTINF:" ++ fixed3 segment.duration ++ ",\n" ++ segment.filename ++ "\n"

def rebuildPlaylist (p : HlsPlaylist) : HlsPlaylist :=
  { p with
    content :=
      "#EXTM3U\n" ++ "#EXT-X-VERSION:6\n" ++
        "#EXT-X-TARGETDURATION:" ++ toString p.config.segmentDuration.ceil.toUInt32.toNat ++ "\n" ++
        "#EXT-X-MEDIA-SEQUENCE:" ++ toString p.mediaSequence.toNat ++ "\n" ++
        playlistTypeLine p.config.playlistType ++
        String.join (p.segments.map (segmentLines fixed3)) ++
        (if p.config.playlistType = .vod then "#EXT-X-ENDLIST\n" else "") }

def addSegment (p : HlsPlaylist) (segment : HlsSegment) : Except Fault HlsPlaylist := do
  let (segments, mediaSequence) ←
    if p.config.playlistType = .live then
      evict p.config.windowSize (p.segments.length + 1) p.segments p.mediaSequence
    else
      .ok (p.segments, p.mediaSequence)
  return rebuildPlaylist fixed3 { p with
    segments := segments ++ [segment]
    mediaSequence := mediaSequence
    totalSegments := p.totalSegments + 1 }

/-- There is an end to making room in a window of positive size. -/
theorem evict_eq_ok {windowSize : Nat} (hpos : 0 < windowSize) {fuel : Nat} {segments : List HlsSegment}
    (hfuel : segments.length < fuel) (mediaSequence : UInt64) :
    ∃ kept mediaSequence', evict windowSize fuel segments mediaSequence = .ok (kept, mediaSequence') := by
  induction fuel generalizing segments mediaSequence with
  | zero => exact absurd hfuel (Nat.not_lt_zero _)
  | succ fuel ih =>
    rw [evict]
    by_cases hfull : windowSize ≤ segments.length
    · rw [if_pos hfull]
      apply ih
      rw [length_tail]
      omega
    · rw [if_neg hfull]
      exact ⟨segments, mediaSequence, rfl⟩

theorem evict_zero (fuel : Nat) (segments : List HlsSegment) (mediaSequence : UInt64) :
    evict 0 fuel segments mediaSequence = .error .outOfFuel := by
  induction fuel generalizing segments mediaSequence with
  | zero => rfl
  | succ fuel ih =>
    rw [evict, if_pos (Nat.zero_le _)]
    exact ih _ _

theorem window_pos_of_addSegment {p p' : HlsPlaylist} {segment : HlsSegment}
    (h : p.addSegment fixed3 segment = .ok p') (hlive : p.config.playlistType = .live) : 0 < p.config.windowSize := by
  apply Nat.pos_of_ne_zero
  intro hzero
  rw [addSegment, if_pos hlive, hzero, evict_zero] at h
  cases h

/-- `add_segment` returns, unless the playlist is live and its window has size zero. -/
theorem addSegment_returns_iff (p : HlsPlaylist) (segment : HlsSegment) :
    (∃ p', p.addSegment fixed3 segment = .ok p' ∧ p'.config = p.config) ↔
      (p.config.playlistType = .live → 0 < p.config.windowSize) := by
  constructor
  · rintro ⟨p', hadd, _⟩
    exact window_pos_of_addSegment fixed3 hadd
  · intro hpos
    rw [addSegment]
    split
    · next hlive =>
      rcases evict_eq_ok (hpos hlive) (Nat.lt_succ_self p.segments.length) p.mediaSequence with ⟨_, _, hevict⟩
      rw [hevict]
      exact ⟨_, rfl, rfl⟩
    · exact ⟨_, rfl, rfl⟩

/-! ## The window of a live playlist -/

def mediaSequenceTag : String :=
  "#EXT-X-MEDIA-SEQUENCE:"

/-- The first line of a playlist with the tag of the media sequence. -/
def mediaSequenceLine? (content : String) : Option (List Char) :=
  (lines content).find? mediaSequenceTag.toList.isPrefixOf

theorem mediaSequenceLine_rebuildPlaylist (p : HlsPlaylist) :
    mediaSequenceLine? (p.rebuildPlaylist fixed3).content =
      some (mediaSequenceTag ++ toString p.mediaSequence.toNat).toList := by
  have hlines : (p.rebuildPlaylist fixed3).content =
      "#EXTM3U" ++ "\n" ++ ("#EXT-X-VERSION:6" ++ "\n" ++
        ("#EXT-X-TARGETDURATION:" ++ toString p.config.segmentDuration.ceil.toUInt32.toNat ++ "\n" ++
          (mediaSequenceTag ++ toString p.mediaSequence.toNat ++ "\n" ++
            (playlistTypeLine p.config.playlistType ++ String.join (p.segments.map (segmentLines fixed3)) ++
              if p.config.playlistType = .vod then "#EXT-X-ENDLIST\n" else "")))) := by
    simp [rebuildPlaylist, mediaSequenceTag, ← String.toList_inj]
  rw [mediaSequenceLine?, hlines, lines_append (by decide), lines_append (by decide), lines_append (by simp),
    lines_append (by simp [mediaSequenceTag])]
  simp [mediaSequenceTag]

def addSegments (config : HlsConfig) (segments : List HlsSegment) : Except Fault HlsPlaylist :=
  segments.foldlM (addSegment fixed3) (new config)

variable {config : HlsConfig}

/-- At most one segment goes when the window is not overfull. -/
theorem addSegment_window {p : HlsPlaylist} (hlive : p.config.playlistType = .live) (hpos : 0 < p.config.windowSize)
    (hle : p.segments.length ≤ p.config.windowSize) (segment : HlsSegment) :
    p.addSegment fixed3 segment = .ok (rebuildPlaylist fixed3 { p with
      segments := p.segments.drop (p.segments.length + 1 - p.config.windowSize) ++ [segment]
      mediaSequence := p.mediaSequence + UInt64.ofNat (p.segments.length + 1 - p.config.windowSize)
      totalSegments := p.totalSegments + 1 }) := by
  have hevict : evict p.config.windowSize (p.segments.length + 1) p.segments p.mediaSequence =
      .ok (p.segments.drop (p.segments.length + 1 - p.config.windowSize),
        p.mediaSequence + UInt64.ofNat (p.segments.length + 1 - p.config.windowSize)) := by
    rcases hle.lt_or_eq with hlt | heq
    · have hnone : p.segments.length + 1 - p.config.windowSize = 0 := by omega
      simp [evict, hlt, hnone]
    · obtain ⟨first, rest, hsegments⟩ := exists_cons_of_length_pos (heq ▸ hpos)
      simp [evict, ← heq, hsegments]
  rw [addSegment, if_pos hlive, hevict]
  rfl

theorem addSegments_window (hlive : config.playlistType = .live) (hpos : 0 < config.windowSize)
    (segments : List HlsSegment) :
    ∃ p, addSegments fixed3 config segments = .ok p ∧ p.config = config ∧
      p.segments = segments.drop (segments.length - config.windowSize) ∧
      p.mediaSequence = UInt64.ofNat (segments.length - config.windowSize) ∧
      (segments ≠ [] →
        mediaSequenceLine? p.content = some (mediaSequenceTag ++ toString p.mediaSequence.toNat).toList) := by
  induction segments using reverseRecOn with
  | nil => exact ⟨new config, rfl, rfl, by simp [new], by simp [new], by simp⟩
  | append_singleton segments segment ih =>
    obtain ⟨p, hadd, rfl, hsegments, hsequence, -⟩ := ih
    have hlength := congrArg length hsegments
    rw [length_drop] at hlength
    have hgone : segments.length - p.config.windowSize + (p.segments.length + 1 - p.config.windowSize) =
        (segments ++ [segment]).length - p.config.windowSize := by
      rw [length_append, length_singleton]
      omega
    have hadd' : addSegments fixed3 p.config (segments ++ [segment]) = p.addSegment fixed3 segment := by
      rw [addSegments, foldlM_append, ← addSegments, hadd]
      exact bind_pure (p.addSegment fixed3 segment)
    refine ⟨_, hadd'.trans (addSegment_window fixed3 hlive hpos (by omega) segment), rfl, ?_, ?_, ?_⟩
    · change p.segments.drop _ ++ _ = _
      rw [← hgone, drop_append_of_le_length (by omega), ← drop_drop, ← hsegments]
    · change p.mediaSequence + _ = _
      rw [← hgone, hsequence, UInt64.ofNat_add]
    · intro _
      exact mediaSequenceLine_rebuildPlaylist fixed3 _

/-- A live playlist lists the last segments, and its text has the number of the first of them, exactly when its window
has room for one and the numbers do not wrap. -/
theorem addSegments_live_iff (config : HlsConfig) (segments : List HlsSegment) :
    (∃ p, addSegments fixed3 { config with playlistType := .live } segments = .ok p ∧
      p.segments = segments.drop (segments.length - max config.windowSize 1) ∧
      p.mediaSequence.toNat + p.segments.length = segments.length ∧
      (segments ≠ [] → mediaSequenceLine? p.content =
        some (mediaSequenceTag ++ toString (segments.length - p.segments.length)).toList)) ↔
    segments = [] ∨ 0 < config.windowSize ∧ segments.length - config.windowSize < 2 ^ 64 := by
  rcases Nat.eq_zero_or_pos config.windowSize with hzero | hpos
  · cases segments with
    | nil => exact iff_of_true ⟨new _, rfl, by simp [new], rfl, by simp⟩ (.inl rfl)
    | cons segment rest =>
      refine iff_of_false ?_ (by simp [hzero])
      rintro ⟨p, hadd, -⟩
      simp [addSegments, addSegment, new, hzero, evict_zero] at hadd
      cases hadd
  · obtain ⟨p, hadd, -, hsegments, hsequence, hcontent⟩ :=
      @addSegments_window fixed3 { config with playlistType := .live } rfl hpos segments
    have hlength : p.segments.length = segments.length - (segments.length - config.windowSize) := by
      rw [hsegments, length_drop]
    have hcount : p.mediaSequence.toNat + p.segments.length = segments.length ↔
        segments.length - config.windowSize < 2 ^ 64 := by
      rw [hsequence, UInt64.toNat_ofNat']
      dsimp only
      omega
    constructor
    · rintro ⟨q, hadd', -, hq, -⟩
      obtain rfl := Except.ok.inj (hadd.symm.trans hadd')
      exact .inr ⟨hpos, hcount.1 hq⟩
    · intro h
      have hlt : segments.length - config.windowSize < 2 ^ 64 := h.elim (by rintro rfl; simp) And.right
      have hfirst : p.mediaSequence.toNat = segments.length - p.segments.length := Nat.eq_sub_of_add_eq (hcount.2 hlt)
      exact ⟨p, hadd, by rw [hsegments, Nat.max_eq_left hpos], hcount.2 hlt, hfirst ▸ hcontent⟩

/-- In a window of size zero the first segment is waited for forever. -/
theorem addSegments_zero_window :
    addSegments (fun _ => "") ⟨6, 0, false, .live, "", ""⟩ [⟨0, "s.ts", 6, [], true⟩] = .error .outOfFuel :=
  rfl

end HlsPlaylist

/-! ## The remuxer -/

structure HlsRemuxer where
  config : HlsConfig
  playlist : HlsPlaylist
  tsMuxer : TsMuxer
  currentSegmentData : Bytes
  currentSegmentStartTs : Option UInt32
  firstTimestamp : Option UInt32
  currentSegmentIndex : UInt32
  videoCodec : CodecType
  audioCodec : CodecType
  clockRate : UInt32

namespace HlsRemuxer

def new (config : HlsConfig) (videoCodec audioCodec : CodecType) : HlsRemuxer :=
  { config := config
    playlist := .new config
    tsMuxer := .new videoCodec audioCodec
    currentSegmentData := []
    currentSegmentStartTs := none
    firstTimestamp := none
    currentSegmentIndex := 0
    videoCodec := videoCodec
    audioCodec := audioCodec
    clockRate := 90000 }

/-- `should_split`; the first timestamp is in its pattern and is not looked at. -/
def shouldSplit (r : HlsRemuxer) (frame : MediaFrame) : Bool :=
  if frame.kind ≠ .video ∨ frame.keyframe = false then
    false
  else
    match r.currentSegmentStartTs with
    | none => false
    | some startTs =>
      let elapsed := (frame.timestamp - startTs).toFloat / r.clockRate.toFloat
      decide (r.config.segmentDuration ≤ elapsed)

def padded4 (n : Nat) : String :=
  String.ofList (List.replicate (4 - (toString n).length) '0') ++ toString n

/-- The segment that `finalize_current_segment` adds.  Its duration is the configured one. -/
def currentSegment (r : HlsRemuxer) : HlsSegment :=
  { index := r.currentSegmentIndex
    filename := r.config.streamName ++ "_seg" ++ padded4 r.currentSegmentIndex.toNat ++ ".ts"
    duration := r.config.segmentDuration
    data := r.currentSegmentData
    hasKeyframe := true }

variable (fixed3 : Float → String)

def finalizeCurrentSegment (r : HlsRemuxer) : Except Fault (HlsRemuxer × Bytes) :=
  if r.currentSegmentData = [] then
    .ok (r, [])
  else do
    let playlist ← r.playlist.addSegment fixed3 r.currentSegment
    return ({ r with
      playlist := playlist
      currentSegmentData := []
      currentSegmentIndex := r.currentSegmentIndex + 1
      currentSegmentStartTs := none }, r.currentSegmentData ++ utf8Bytes playlist.content)

/-- The first timestamp is set once. -/
def keepFirstTimestamp (r : HlsRemuxer) (frame : MediaFrame) : HlsRemuxer :=
  if r.firstTimestamp.isNone then { r with firstTimestamp := some frame.timestamp } else r

/-- The first key frame of a segment sets its start. -/
def keepStart (r : HlsRemuxer) (frame : MediaFrame) : HlsRemuxer :=
  if r.currentSegmentStartTs.isNone ∧ frame.kind = .video ∧ frame.keyframe = true then
    { r with currentSegmentStartTs := some frame.timestamp }
  else
    r

def muxFrame (r : HlsRemuxer) (frame : MediaFrame) : HlsRemuxer :=
  let (tsMuxer, tsData) := r.tsMuxer.writeFrame frame
  { r with tsMuxer := tsMuxer, currentSegmentData := r.currentSegmentData ++ tsData }

def pushFrame (r : HlsRemuxer) (frame : MediaFrame) : Except Fault (HlsRemuxer × Bytes) := do
  let r := r.keepFirstTimestamp frame
  if r.shouldSplit frame then
    let (r, output) ← r.finalizeCurrentSegment fixed3
    let r := { r with
      currentSegmentStartTs := some frame.timestamp
      tsMuxer := .new r.videoCodec r.audioCodec }
    return (r.muxFrame frame, output)
  else
    return ((r.keepStart frame).muxFrame frame, [])

def flush (r : HlsRemuxer) : Except Fault (HlsRemuxer × Bytes) :=
  r.finalizeCurrentSegment fixed3

/-- `reset`; the muxer is not touched. -/
def reset (r : HlsRemuxer) : HlsRemuxer :=
  { r with
    currentSegmentData := []
    currentSegmentStartTs := none
    firstTimestamp := none
    currentSegmentIndex := 0
    playlist := .new r.config }

def remuxer : Remuxer HlsRemuxer :=
  { pushFrame := pushFrame fixed3
    flush := flush fixed3
    reset := reset }

end HlsRemuxer

end LingVoice.LmProtocol

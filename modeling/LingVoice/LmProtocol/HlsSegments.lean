import LingVoice.LmProtocol.Hls
import LingVoice.LmProtocol.TsFrames

/-!
# HlsSegments — what the segments of an HLS run hold

`Tracked` is the remuxer with two history variables: every segment that was ever added to the playlist, and the
frame whose split opened a segment.  A run writes the packets of every frame once and in order.  A segment begins
with PAT and PMT exactly when its first frame went to a muxer that had not written them; the one that `flush` leaves
behind has.
-/

namespace LingVoice.LmProtocol

open Lib LmCore List Lib.Fallible

open TsMuxer
open RemuxCall (frames frames_append)

namespace HlsRemuxer

/-! ## A call without its segments -/

/-- The start of the current segment after a frame that opens no new one. -/
def startAfter (start : Option UInt32) (frame : MediaFrame) : Option UInt32 :=
  if start.isNone ∧ frame.kind = .video ∧ frame.keyframe = true then some frame.timestamp else start

/-- Does the frame end a segment that began at `start`? -/
def splitsAt (config : HlsConfig) (start : Option UInt32) (frame : MediaFrame) : Bool :=
  shouldSplit { HlsRemuxer.new config .h264 .aac with currentSegmentStartTs := start } frame

/-- What no call changes. -/
def settings (r : HlsRemuxer) : HlsConfig × UInt32 × CodecType × CodecType :=
  (r.config, r.clockRate, r.videoCodec, r.audioCodec)

section Calls

variable {fixed3 : Float → String} (r : HlsRemuxer) (frame : MediaFrame)

/-- The two timestamps that `push_frame` keeps without a split. -/
def goOn : HlsRemuxer :=
  { r with
    firstTimestamp := r.firstTimestamp.or (some frame.timestamp)
    currentSegmentStartTs := startAfter r.currentSegmentStartTs frame }

theorem keepFirstTimestamp_eq :
    r.keepFirstTimestamp frame = { r with firstTimestamp := r.firstTimestamp.or (some frame.timestamp) } := by
  rcases r with ⟨config, playlist, muxer, data, start, first, index, video, audio, rate⟩
  cases first with
  | none | some timestamp => rfl

theorem goOn_eq : (r.keepFirstTimestamp frame).keepStart frame = r.goOn frame := by
  rw [keepFirstTimestamp_eq, goOn, keepStart, startAfter]
  by_cases hkey : r.currentSegmentStartTs.isNone ∧ frame.kind = .video ∧ frame.keyframe = true
  · rw [if_pos hkey, if_pos hkey]
  · rw [if_neg hkey, if_neg hkey]

theorem pushFrame_of_stay (h : r.shouldSplit frame = false) :
    r.pushFrame fixed3 frame = .ok ((r.goOn frame).muxFrame frame, []) := by
  have hsplit : (r.keepFirstTimestamp frame).shouldSplit frame = false := by
    rw [keepFirstTimestamp_eq]
    exact h
  rw [pushFrame, if_neg (by simp [hsplit]), goOn_eq]
  rfl

theorem pushFrame_of_split (h : r.shouldSplit frame = true) {r' : HlsRemuxer} {o : Bytes}
    (hpush : r.pushFrame fixed3 frame = .ok (r', o)) :
    ∃ r₁, (r.keepFirstTimestamp frame).finalizeCurrentSegment fixed3 = .ok (r₁, o) ∧
      r' = HlsRemuxer.muxFrame { r₁ with
        currentSegmentStartTs := some frame.timestamp
        tsMuxer := .new r₁.videoCodec r₁.audioCodec } frame := by
  have hsplit : (r.keepFirstTimestamp frame).shouldSplit frame = true := by
    rw [keepFirstTimestamp_eq]
    exact h
  rw [pushFrame, if_pos hsplit] at hpush
  rcases bind_eq_ok.1 hpush with ⟨⟨r₁, o'⟩, hfinal, hpure⟩
  cases hpure
  exact ⟨r₁, hfinal, rfl⟩

variable {r frame}

theorem shouldSplit_eq {config : HlsConfig} {videoCodec audioCodec : CodecType}
    (h : r.settings = (config, 90000, videoCodec, audioCodec)) :
    r.shouldSplit frame = splitsAt config r.currentSegmentStartTs frame := by
  have hconfig : r.config = config := congrArg Prod.fst h
  have hclock : r.clockRate = 90000 := congrArg (·.2.1) h
  rw [splitsAt, shouldSplit, shouldSplit, hconfig, hclock]
  rfl

theorem of_shouldSplit (h : r.shouldSplit frame = true) :
    frame.kind = .video ∧ frame.keyframe = true ∧ r.currentSegmentStartTs ≠ none := by
  rw [shouldSplit] at h
  split at h
  · cases h
  · rename_i hkey
    rw [not_or, not_not, Bool.not_eq_false] at hkey
    refine ⟨hkey.1, hkey.2, ?_⟩
    intro hnone
    rw [hnone] at h
    cases h

end Calls

/-! ## The history of a run -/

/-- A segment's bytes and the frame whose split opened it. -/
abbrev OpenedData := Option MediaFrame × Bytes

/-- The remuxer, the frame whose split opened the current segment, and all segments that were added. -/
structure Tracked where
  remuxer : HlsRemuxer
  opener : Option MediaFrame
  added : List (Option MediaFrame × HlsSegment)

namespace Tracked

def new (config : HlsConfig) (videoCodec audioCodec : CodecType) : Tracked :=
  { remuxer := .new config videoCodec audioCodec
    opener := none
    added := [] }

/-- Does the call finish the current segment? -/
def finishes (t : Tracked) : RemuxCall → Bool
  | .pushFrame frame => t.remuxer.shouldSplit frame
  | .flush => true

def finished (t : Tracked) (c : RemuxCall) : List (Option MediaFrame × HlsSegment) :=
  if t.finishes c = true ∧ t.remuxer.currentSegmentData ≠ [] then [(t.opener, t.remuxer.currentSegment)] else []

def nextOpener (t : Tracked) : RemuxCall → Option MediaFrame
  | .pushFrame frame => if t.remuxer.shouldSplit frame then some frame else t.opener
  | .flush => none

def step (fixed3 : Float → String) (t : Tracked) (c : RemuxCall) : Except Fault (Tracked × Bytes) := do
  let (r, output) ← (HlsRemuxer.remuxer fixed3).call t.remuxer c
  return ({ remuxer := r, opener := t.nextOpener c, added := t.added ++ t.finished c }, output)

def run (fixed3 : Float → String) (t : Tracked) (calls : List RemuxCall) :
    Except Fault (Tracked × List Bytes) :=
  Fallible.run (step fixed3) t calls

/-- Without the history it is the remuxer that runs. -/
theorem run_remuxer (fixed3 : Float → String) (t : Tracked) (calls : List RemuxCall) :
    (t.run fixed3 calls).map (Prod.map remuxer id) = (HlsRemuxer.remuxer fixed3).run t.remuxer calls := by
  refine run_map remuxer ?_ t calls
  intro t c
  rw [step]
  cases (HlsRemuxer.remuxer fixed3).call t.remuxer c with
  | error e | ok next => rfl

def closed (t : Tracked) : List OpenedData :=
  t.added.map fun s => (s.1, s.2.data)

def segments (t : Tracked) : List OpenedData :=
  t.closed ++ if t.remuxer.currentSegmentData = [] then [] else [(t.opener, t.remuxer.currentSegmentData)]

@[simp] theorem closed_new (config : HlsConfig) (videoCodec audioCodec : CodecType) :
    (new config videoCodec audioCodec).closed = [] := rfl

/-- What a call can do: finish the segment, go on with it, or finish it and open the next one. -/
inductive Steps (t : Tracked) : RemuxCall → Tracked → Prop
  | flush {t' : Tracked} (hdata : t'.remuxer.currentSegmentData = []) (hsegments : t'.segments = t.segments)
      (hopener : t'.opener = none) (hmuxer : t'.remuxer.tsMuxer = t.remuxer.tsMuxer)
      (hsettings : t'.remuxer.settings = t.remuxer.settings)
      (hstart : t'.remuxer.currentSegmentStartTs =
        if t.remuxer.currentSegmentData = [] then t.remuxer.currentSegmentStartTs else none) : Steps t .flush t'
  | stay {t' : Tracked} {frame : MediaFrame} (hsplit : t.remuxer.shouldSplit frame = false)
      (hdata : t'.remuxer.currentSegmentData =
        t.remuxer.currentSegmentData ++ (t.remuxer.tsMuxer.writeFrame frame).2)
      (hclosed : t'.closed = t.closed) (hopener : t'.opener = t.opener)
      (hmuxer : t'.remuxer.tsMuxer = (t.remuxer.tsMuxer.writeFrame frame).1)
      (hsettings : t'.remuxer.settings = t.remuxer.settings)
      (hstart : t'.remuxer.currentSegmentStartTs = startAfter t.remuxer.currentSegmentStartTs frame) :
      Steps t (.pushFrame frame) t'
  | split {t' : Tracked} {frame : MediaFrame} (hsplit : t.remuxer.shouldSplit frame = true)
      (hdata : t'.remuxer.currentSegmentData =
        ((TsMuxer.new t.remuxer.videoCodec t.remuxer.audioCodec).writeFrame frame).2)
      (hclosed : t'.closed = t.segments) (hopener : t'.opener = some frame)
      (hmuxer : t'.remuxer.tsMuxer =
        ((TsMuxer.new t.remuxer.videoCodec t.remuxer.audioCodec).writeFrame frame).1)
      (hsettings : t'.remuxer.settings = t.remuxer.settings) : Steps t (.pushFrame frame) t'

variable {fixed3 : Float → String}

variable {output : Bytes} {t t' : Tracked}

variable {r r' : HlsRemuxer} {frame : MediaFrame} {c : RemuxCall}

theorem finalizeCurrentSegment_cases (h : r.finalizeCurrentSegment fixed3 = .ok (r', output)) :
    (r.currentSegmentData = [] ∧ r' = r ∧ output = []) ∨
      (r.currentSegmentData ≠ [] ∧ ∃ playlist, r.playlist.addSegment fixed3 r.currentSegment = .ok playlist ∧
        r' = { r with
          playlist := playlist
          currentSegmentData := []
          currentSegmentIndex := r.currentSegmentIndex + 1
          currentSegmentStartTs := none } ∧
        output = r.currentSegmentData ++ utf8Bytes playlist.content) := by
  rw [finalizeCurrentSegment] at h
  by_cases hnil : r.currentSegmentData = []
  · rw [if_pos hnil] at h
    cases h
    exact .inl ⟨hnil, rfl, rfl⟩
  · rw [if_neg hnil] at h
    rcases bind_eq_ok.1 h with ⟨playlist, hadd, hpure⟩
    cases hpure
    exact .inr ⟨hnil, playlist, hadd, rfl, rfl⟩

theorem segments_of_data (h : t.remuxer.currentSegmentData = []) : t.segments = t.closed := by
  rw [segments, if_pos h, append_nil]

theorem segments_of_ne_nil (h : t.remuxer.currentSegmentData ≠ []) :
    t.segments = t.closed ++ [(t.opener, t.remuxer.currentSegmentData)] := by
  rw [segments, if_neg h]

theorem mem_segments {s : OpenedData} : s ∈ t.segments ↔
    s ∈ t.closed ∨ t.remuxer.currentSegmentData ≠ [] ∧ s = (t.opener, t.remuxer.currentSegmentData) := by
  rw [segments, mem_append]
  split
  · next hnil => simp [hnil]
  · next hne => simp [hne]

theorem current_mem_segments (h : t.remuxer.currentSegmentData ≠ []) :
    (t.opener, t.remuxer.currentSegmentData) ∈ t.segments :=
  mem_segments.2 (.inr ⟨h, rfl⟩)

theorem closed_finished (t : Tracked) (c : RemuxCall) (hfinishes : t.finishes c = true) :
    (t.added ++ t.finished c).map (fun s => (s.1, s.2.data)) = t.segments := by
  by_cases hnil : t.remuxer.currentSegmentData = []
  · have hnone : t.finished c = [] := if_neg (by simp [hnil])
    rw [hnone, segments_of_data hnil, append_nil]
    rfl
  · have hone : t.finished c = [(t.opener, t.remuxer.currentSegment)] := if_pos ⟨hfinishes, hnil⟩
    rw [hone, segments_of_ne_nil hnil, map_append]
    rfl

theorem steps_of_flush (h : t.step fixed3 .flush = .ok (t', output)) : Steps t .flush t' := by
  rcases bind_eq_ok.1 h with ⟨⟨r, output'⟩, hcall, hpure⟩
  cases hpure
  have hclosed := t.closed_finished .flush rfl
  rcases finalizeCurrentSegment_cases hcall with ⟨hnil, rfl, _⟩ | ⟨hne, playlist, _, rfl, _⟩
  · refine .flush hnil ?_ rfl rfl rfl (if_pos hnil).symm
    refine (segments_of_data ?_).trans hclosed
    exact hnil
  · refine .flush rfl ?_ rfl rfl rfl (if_neg hne).symm
    exact (segments_of_data rfl).trans hclosed

theorem steps_of_pushFrame
    (h : t.step fixed3 (.pushFrame frame) = .ok (t', output)) : Steps t (.pushFrame frame) t' := by
  rcases bind_eq_ok.1 h with ⟨⟨r, output'⟩, hcall, hpure⟩
  cases hpure
  have hpush : t.remuxer.pushFrame fixed3 frame = .ok (r, output) := hcall
  cases hsplit : t.remuxer.shouldSplit frame with
  | true =>
    rcases pushFrame_of_split _ frame hsplit hpush with ⟨r₁, hfinal, rfl⟩
    have hclosed := t.closed_finished (.pushFrame frame) hsplit
    have hopener : t.nextOpener (.pushFrame frame) = some frame := by
      rw [nextOpener, if_pos hsplit]
    have hkept : r₁.currentSegmentData = [] ∧ r₁.settings = t.remuxer.settings := by
      rw [keepFirstTimestamp_eq] at hfinal
      rcases finalizeCurrentSegment_cases hfinal with ⟨hnil, rfl, _⟩ | ⟨_, playlist, _, rfl, _⟩
      · exact ⟨hnil, rfl⟩
      · exact ⟨rfl, rfl⟩
    rcases hkept with ⟨hdata, hsettings⟩
    have hvideo : r₁.videoCodec = t.remuxer.videoCodec := congrArg (·.2.2.1) hsettings
    have haudio : r₁.audioCodec = t.remuxer.audioCodec := congrArg (·.2.2.2) hsettings
    refine .split hsplit ?_ hclosed hopener ?_ hsettings
    · simp only [muxFrame, hdata, hvideo, haudio, nil_append]
    · simp only [muxFrame, hvideo, haudio]
  | false =>
    rw [pushFrame_of_stay _ frame hsplit] at hpush
    cases hpush
    have hnone : t.finished (.pushFrame frame) = [] := if_neg (by simp [finishes, hsplit])
    have hopener : t.nextOpener (.pushFrame frame) = t.opener := by
      rw [nextOpener, if_neg (by simp [hsplit])]
    refine .stay hsplit rfl ?_ hopener rfl rfl rfl
    rw [closed, hnone, append_nil]
    rfl

theorem steps_of_step (h : t.step fixed3 c = .ok (t', output)) : Steps t c t' := by
  cases c with
  | pushFrame frame => exact steps_of_pushFrame h
  | flush => exact steps_of_flush h

/-! ## Segments only grow -/

end Tracked

/-! ## What every run does -/

open Tracked

section Contents

variable (videoCodec audioCodec : CodecType)

/-- The bytes are the packets of the frames, one frame after the other, with tables before some of them. -/
def Complete (frames : List MediaFrame) (bytes : Bytes) : Prop :=
  ∃ pieces : List (Bytes × Bytes),
    List.Forall₂ (fun frame piece => (piece.1 = [] ∨ Tables videoCodec audioCodec piece.1) ∧
      FramePackets videoCodec audioCodec frame piece.2) frames pieces ∧
    bytes = pieces.flatMap fun piece => piece.1 ++ piece.2

def BeginsWithTables (bytes : Bytes) : Prop :=
  ∃ tables rest, Tables videoCodec audioCodec tables ∧ bytes = tables ++ rest

/-- A segment that the split at `frame` has opened. -/
structure OpenedBySplit (frame : MediaFrame) (bytes : Bytes) : Prop where
  video : frame.kind = .video
  keyframe : frame.keyframe = true
  begins : ∃ tables packets rest, Tables videoCodec audioCodec tables ∧
    FramePackets videoCodec audioCodec frame packets ∧ bytes = tables ++ packets ++ rest

/-- No frame that the muxer writes comes after a flush of written frames. -/
def NoFrameAfterFlush (calls : List RemuxCall) : Prop :=
  ∀ before after, calls = before ++ .flush :: after → RemuxCall.frames before ≠ [] →
    ∀ frame ∈ RemuxCall.frames after, ¬ Muxed videoCodec audioCodec frame

/-- What holds of the remuxer after the calls, whatever they were. -/
structure Reached (config : HlsConfig) (calls : List RemuxCall) (t : Tracked) : Prop where
  settings : t.remuxer.settings = (config, 90000, videoCodec, audioCodec)
  streams : t.remuxer.tsMuxer.Streams videoCodec audioCodec
  written : t.remuxer.tsMuxer.patPmtWritten = true ↔ RemuxCall.frames calls ≠ []
  untouched : RemuxCall.frames calls = [] → t.remuxer.tsMuxer = .new videoCodec audioCodec
  opener : t.remuxer.currentSegmentData = [] → t.opener = none
  start : isVideoCodec videoCodec = true → t.remuxer.currentSegmentData = [] →
    t.remuxer.currentSegmentStartTs = none
  /-- Only a flush empties the segment. -/
  flushed : t.remuxer.currentSegmentData = [] → RemuxCall.frames calls ≠ [] →
    ∃ before after, calls = before ++ .flush :: after ∧ RemuxCall.frames before ≠ []
  complete : Complete videoCodec audioCodec (RemuxCall.frames calls) (t.segments.map Prod.snd).flatten
  opened : ∀ s ∈ t.segments, ∀ frame, s.1 = some frame → OpenedBySplit videoCodec audioCodec frame s.2
  tables : NoFrameAfterFlush videoCodec audioCodec calls →
    ∀ s ∈ t.segments, BeginsWithTables videoCodec audioCodec s.2

end Contents

variable {videoCodec audioCodec : CodecType} {fixed3 : Float → String}

variable {bytes : Bytes} {config : HlsConfig} {outputs : List Bytes} {calls : List RemuxCall}
  {c : RemuxCall} {t t' : Tracked}

theorem Complete.concat {frames : List MediaFrame} {tables packets : Bytes} {frame : MediaFrame}
    (h : Complete videoCodec audioCodec frames bytes) (htables : tables = [] ∨ Tables videoCodec audioCodec tables)
    (hpackets : FramePackets videoCodec audioCodec frame packets) :
    Complete videoCodec audioCodec (frames ++ [frame]) (bytes ++ (tables ++ packets)) := by
  rcases h with ⟨pieces, hpieces, rfl⟩
  refine ⟨pieces ++ [(tables, packets)], ?_, ?_⟩
  · exact rel_append hpieces (.cons ⟨htables, hpackets⟩ .nil)
  · rw [flatMap_append, flatMap_singleton]

theorem flatten_segments (t : Tracked) :
    (t.segments.map Prod.snd).flatten = (t.closed.map Prod.snd).flatten ++ t.remuxer.currentSegmentData := by
  by_cases hnil : t.remuxer.currentSegmentData = []
  · rw [segments_of_data hnil, hnil, append_nil]
  · rw [segments_of_ne_nil hnil, map_append, flatten_append]
    simp

theorem frames_concat_pushFrame (calls : List RemuxCall) (frame : MediaFrame) :
    frames (calls ++ [.pushFrame frame]) = frames calls ++ [frame] :=
  frames_append calls [.pushFrame frame]

theorem frames_concat_flush (calls : List RemuxCall) : frames (calls ++ [.flush]) = frames calls :=
  (frames_append calls [.flush]).trans (append_nil _)

theorem NoFrameAfterFlush.of_concat
    (h : NoFrameAfterFlush videoCodec audioCodec (calls ++ [c])) : NoFrameAfterFlush videoCodec audioCodec calls := by
  intro before after hcalls hbefore frame hframe
  refine h before (after ++ [c]) (by rw [hcalls]; simp) hbefore frame ?_
  rw [frames_append]
  exact mem_append_left _ hframe

theorem BeginsWithTables.append (h : BeginsWithTables videoCodec audioCodec bytes)
    (more : Bytes) : BeginsWithTables videoCodec audioCodec (bytes ++ more) := by
  rcases h with ⟨tables, rest, htables, rfl⟩
  exact ⟨tables, rest ++ more, htables, append_assoc _ _ _⟩

theorem reached_new (config : HlsConfig) :
    Reached videoCodec audioCodec config [] (Tracked.new config videoCodec audioCodec) := by
  refine ⟨rfl, ⟨rfl, rfl⟩, ?_, fun _ => rfl, fun _ => rfl, fun _ _ => rfl, ?_, ⟨[], .nil, rfl⟩, ?_, ?_⟩
  · simp [Tracked.new, HlsRemuxer.new, TsMuxer.new, RemuxCall.frames]
  · intro _ hne
    exact absurd rfl hne
  · intro s hs
    cases hs
  · intro _ s hs
    cases hs

namespace Reached

variable (h : Reached videoCodec audioCodec config calls t)

include h

theorem flush (hstep : Steps t .flush t') : Reached videoCodec audioCodec config (calls ++ [.flush]) t' := by
  cases hstep with
  | flush hdata hsegments hopener hmuxer hsettings hstart =>
    refine ⟨hsettings.trans h.settings, hmuxer ▸ h.streams, ?_, ?_, fun _ => hopener, ?_, ?_, ?_, ?_, ?_⟩
    · rw [hmuxer, frames_concat_flush]
      exact h.written
    · rw [hmuxer, frames_concat_flush]
      exact h.untouched
    · intro hvideo _
      rw [hstart]
      split
      · next hnil => exact h.start hvideo hnil
      · rfl
    · intro _ hne
      rw [frames_concat_flush] at hne
      exact ⟨calls, [], rfl, hne⟩
    · rw [hsegments, frames_concat_flush]
      exact h.complete
    · rw [hsegments]
      exact h.opened
    · rw [hsegments]
      exact fun hcalls => h.tables hcalls.of_concat

/-- What a muxer that the run has reached writes for the next frame. -/
theorem writeFrame (frame : MediaFrame) :
    ∃ tables packets, (t.remuxer.tsMuxer.writeFrame frame).2 = tables ++ packets ∧
      FramePackets videoCodec audioCodec frame packets ∧
      (frames calls = [] ∧ Tables videoCodec audioCodec tables ∨ frames calls ≠ [] ∧ tables = []) := by
  rcases writeFrame_spec h.streams frame with ⟨_, _, tables, packets, hout, hpackets, htables⟩
  refine ⟨tables, packets, hout, hpackets, ?_⟩
  by_cases hfirst : frames calls = []
  · rw [if_neg (fun hwritten => h.written.1 hwritten hfirst)] at htables
    exact .inl ⟨hfirst, htables⟩
  · rw [if_pos (h.written.2 hfirst)] at htables
    exact .inr ⟨hfirst, htables⟩

theorem stay {frame : MediaFrame} (hstep : Steps t (.pushFrame frame) t')
    (hsplit : t.remuxer.shouldSplit frame = false) :
    Reached videoCodec audioCodec config (calls ++ [.pushFrame frame]) t' := by
  cases hstep with
  | split hsplit' _ _ _ _ _ =>
    rw [hsplit] at hsplit'
    cases hsplit'
  | stay _ hdata hclosed hopener hmuxer hsettings hstart =>
    rcases writeFrame_spec h.streams frame with ⟨hwritten, hstreams, _⟩
    rcases h.writeFrame frame with ⟨tables, packets, hout, hpackets, htables⟩
    rw [hout] at hdata
    refine ⟨hsettings.trans h.settings, hmuxer ▸ hstreams, ?_, ?_, ?_, ?_, ?_, ?_, ?_, ?_⟩
    · rw [hmuxer, frames_concat_pushFrame]
      simp [hwritten]
    · simp [frames_concat_pushFrame]
    · intro hnil
      rw [hdata, append_eq_nil_iff] at hnil
      rw [hopener]
      exact h.opener hnil.1
    · intro hvideo hnil
      rw [hdata, append_eq_nil_iff, append_eq_nil_iff] at hnil
      have hframe : ¬ Muxed videoCodec audioCodec frame := fun hmuxed => hpackets.ne_nil hmuxed hnil.2.2
      have hkind : frame.kind ≠ .video := fun hkind => by simp [Muxed, hkind, hvideo] at hframe
      rw [hstart, startAfter, if_neg (by simp [hkind])]
      exact h.start hvideo hnil.1
    · intro hnil _
      rw [hdata, append_eq_nil_iff] at hnil
      rcases htables with ⟨_, htables⟩ | ⟨hmore, _⟩
      · exact absurd hnil.2 (htables.append_ne_nil packets)
      · rcases h.flushed hnil.1 hmore with ⟨before, after, rfl, hbefore⟩
        exact ⟨before, after ++ [.pushFrame frame], by simp, hbefore⟩
    · have hold := h.complete
      rw [flatten_segments] at hold
      rw [flatten_segments, hclosed, hdata, ← append_assoc, frames_concat_pushFrame]
      refine hold.concat ?_ hpackets
      rcases htables with ⟨_, htables⟩ | ⟨_, hnone⟩
      · exact .inr htables
      · exact .inl hnone
    · intro s hs frame' hs'
      rcases mem_segments.1 hs with hs | ⟨_, rfl⟩
      · exact h.opened s (mem_append_left _ (hclosed ▸ hs)) frame' hs'
      · rw [hopener] at hs'
        -- a segment with an opener had something in it before
        have hne : t.remuxer.currentSegmentData ≠ [] := by
          intro hnil
          rw [h.opener hnil] at hs'
          cases hs'
        rcases h.opened _ (current_mem_segments hne) frame' hs' with
          ⟨hkind, hkey, tables', packets', rest, htables', hpackets', hbegins⟩
        refine ⟨hkind, hkey, tables', packets', rest ++ (tables ++ packets), htables', hpackets', ?_⟩
        dsimp only at hbegins
        rw [hdata, hbegins, append_assoc]
    · intro hcalls s hs
      rcases mem_segments.1 hs with hs | ⟨hne, rfl⟩
      · exact h.tables hcalls.of_concat s (mem_append_left _ (hclosed ▸ hs))
      · by_cases hnil : t.remuxer.currentSegmentData = []
        · rw [hnil, nil_append] at hdata
          rcases htables with ⟨_, htables⟩ | ⟨hmore, rfl⟩
          · exact ⟨tables, packets, htables, hdata⟩
          · -- an emptied segment stays empty, since the frame is not written
            rcases h.flushed hnil hmore with ⟨before, after, rfl, hbefore⟩
            have hskipped := hcalls before (after ++ [.pushFrame frame]) (by simp) hbefore frame
              (by simp [frames_append, frames])
            rw [hpackets.eq_nil hskipped] at hdata
            exact absurd hdata hne
        · rw [hdata]
          exact (h.tables hcalls.of_concat _ (current_mem_segments hnil)).append _

theorem split {frame : MediaFrame} (hstep : Steps t (.pushFrame frame) t')
    (hsplit : t.remuxer.shouldSplit frame = true) : Reached videoCodec audioCodec config (calls ++ [.pushFrame frame]) t' := by
  cases hstep with
  | stay hsplit' _ _ _ _ _ _ =>
    rw [hsplit] at hsplit'
    cases hsplit'
  | split _ hdata hclosed hopener hmuxer hsettings =>
    have hvideo : t.remuxer.videoCodec = videoCodec := congrArg (·.2.2.1) h.settings
    have haudio : t.remuxer.audioCodec = audioCodec := congrArg (·.2.2.2) h.settings
    rw [hvideo, haudio] at hdata hmuxer
    have hnew : (TsMuxer.new videoCodec audioCodec).Streams videoCodec audioCodec := ⟨rfl, rfl⟩
    rcases writeFrame_spec hnew frame with
      ⟨hwritten, hstreams, tables, packets, hout, hpackets, htables : Tables _ _ _⟩
    rw [hout] at hdata
    have hne : t'.remuxer.currentSegmentData ≠ [] := by
      rw [hdata]
      exact htables.append_ne_nil packets
    refine ⟨hsettings.trans h.settings, hmuxer ▸ hstreams, ?_, ?_,
      fun hnil => absurd hnil hne, fun _ hnil => absurd hnil hne, fun hnil => absurd hnil hne, ?_, ?_, ?_⟩
    · rw [hmuxer, frames_concat_pushFrame]
      simp [hwritten]
    · simp [frames_concat_pushFrame]
    · rw [flatten_segments, hclosed, hdata, frames_concat_pushFrame]
      exact h.complete.concat (.inr htables) hpackets
    · intro s hs frame' hs'
      rcases mem_segments.1 hs with hs | ⟨_, rfl⟩
      · exact h.opened s (hclosed ▸ hs) frame' hs'
      · obtain rfl : frame = frame' := Option.some.inj (hopener.symm.trans hs')
        rcases of_shouldSplit hsplit with ⟨hkind, hkey, _⟩
        exact ⟨hkind, hkey, tables, packets, [], htables, hpackets, by rw [hdata, append_nil]⟩
    · intro hcalls s hs
      rcases mem_segments.1 hs with hs | ⟨_, rfl⟩
      · exact h.tables hcalls.of_concat s (hclosed ▸ hs)
      · exact ⟨tables, packets, htables, hdata⟩

theorem step {c : RemuxCall} (hstep : Steps t c t') : Reached videoCodec audioCodec config (calls ++ [c]) t' := by
  cases c with
  | flush => exact h.flush hstep
  | pushFrame frame =>
    cases hsplit : t.remuxer.shouldSplit frame with
    | false => exact h.stay hstep hsplit
    | true => exact h.split hstep hsplit

end Reached

theorem reached_run (h : (Tracked.new config videoCodec audioCodec).run fixed3 calls = .ok (t, outputs)) :
    Reached videoCodec audioCodec config calls t := by
  refine run_history ?_ (reached_new config) h
  intro past c t₁ t₂ output hpast hone
  exact hpast.step (steps_of_step hone)

/-! ## When the segments are self-contained -/

section SelfContained

variable (videoCodec audioCodec : CodecType)

def BeginsWithoutPat (bytes : Bytes) : Prop :=
  ∃ first rest, bytes = first ++ rest ∧ first.length = 188 ∧ Mpegts.pid first ≠ patPid

end SelfContained

theorem BeginsWithoutPat.extend {longer : Bytes} (h : BeginsWithoutPat bytes)
    (hlonger : bytes <+: longer) : BeginsWithoutPat longer := by
  rcases h with ⟨first, rest, rfl, hlen, hpid⟩
  rcases hlonger with ⟨more, rfl⟩
  exact ⟨first, rest ++ more, append_assoc _ _ _, hlen, hpid⟩

theorem BeginsWithoutPat.not_beginsWithTables (h : BeginsWithoutPat bytes) :
    ¬ BeginsWithTables videoCodec audioCodec bytes := by
  rcases h with ⟨first, rest, hbytes, hlen, hpid⟩
  rintro ⟨tables, rest', htables, hbytes'⟩
  rcases htables.begins_with_pat with ⟨pat, pmt, rfl, hlen', hpat⟩
  rw [hbytes, append_assoc] at hbytes'
  have hfirst := append_inj_left hbytes' (hlen.trans hlen'.symm)
  exact hpid (hfirst ▸ hpat)

section Returns

variable {config : HlsConfig} (hwindow : config.playlistType = .live → 0 < config.windowSize)

include hwindow

theorem finalizeCurrentSegment_returns {r : HlsRemuxer} (hconfig : r.playlist.config = config) :
    ∃ r' output, r.finalizeCurrentSegment fixed3 = .ok (r', output) ∧ r'.playlist.config = config := by
  rw [finalizeCurrentSegment]
  split
  · exact ⟨r, [], rfl, hconfig⟩
  · rcases (r.playlist.addSegment_returns_iff fixed3 r.currentSegment).2 (hconfig ▸ hwindow) with ⟨p, hadd, hp⟩
    rw [hadd]
    exact ⟨_, _, rfl, hp.trans hconfig⟩

theorem pushFrame_returns {r : HlsRemuxer} (hconfig : r.playlist.config = config) (frame : MediaFrame) :
    ∃ r' output, r.pushFrame fixed3 frame = .ok (r', output) ∧ r'.playlist.config = config := by
  have hfirst : (r.keepFirstTimestamp frame).playlist.config = config := by
    rw [keepFirstTimestamp]
    split
    · exact hconfig
    · exact hconfig
  rw [pushFrame]
  split
  · rcases @finalizeCurrentSegment_returns fixed3 _ hwindow _ hfirst with ⟨r', output, hok, hr'⟩
    rw [hok]
    exact ⟨_, _, rfl, hr'⟩
  · refine ⟨_, _, rfl, ?_⟩
    simp only [muxFrame, keepStart]
    split
    · exact hfirst
    · exact hfirst

/-- Every sequence of calls returns, unless the playlist is live and its window has size zero. -/
theorem run_returns (calls : List RemuxCall) {t : Tracked} (hconfig : t.remuxer.playlist.config = config) :
    ∃ t' outputs, t.run fixed3 calls = .ok (t', outputs) := by
  induction calls generalizing t with
  | nil => exact ⟨t, [], rfl⟩
  | cons c calls ih =>
    have hcall : ∃ r' output, (HlsRemuxer.remuxer fixed3).call t.remuxer c = .ok (r', output) ∧
        r'.playlist.config = config := by
      cases c with
      | flush => exact finalizeCurrentSegment_returns hwindow hconfig
      | pushFrame frame => exact pushFrame_returns hwindow hconfig frame
    rcases hcall with ⟨r', output, hok, hr'⟩
    obtain ⟨t₁, hone, ht₁⟩ : ∃ t₁, t.step fixed3 c = .ok (t₁, output) ∧ t₁.remuxer = r' := by
      rw [step, hok]
      exact ⟨_, rfl, rfl⟩
    rcases ih (ht₁ ▸ hr') with ⟨t', outputs, hrest⟩
    exact ⟨t', output :: outputs, run_cons_eq_ok.2 ⟨t₁, output, outputs, hone, hrest, rfl⟩⟩

end Returns

def keyframe5 : MediaFrame :=
  MediaFrame.video .h264 0 [0x65] 1 true

def vodConfig : HlsConfig :=
  { segmentDuration := 4
    windowSize := 5
    lowLatency := false
    playlistType := .vod
    outputDir := "./hls"
    streamName := "stream" }

end HlsRemuxer

end LingVoice.LmProtocol

import LingVoice.LmProtocol.Flv
import LingVoice.LmProtocol.HlsSegments
import LingVoice.LmProtocol.RtmpRemuxer
import LingVoice.LmProtocol.Rtsp
import LingVoice.LmProtocol.Srt

/-!
# RemuxerReset — `reset` against a new instance

A reset remuxer is as good as a new one when the calls on it return what they return on a new one.  For FLV, RTMP,
RTSP and SRT the reset instance is the new one.  The HLS remuxer keeps its muxer, which does not write PAT and PMT
again.  The first segment it finishes after a reset lacks them, unless no frame was pushed before
(`freshAfterReset_iff`).
-/

namespace LingVoice.LmProtocol

open Lib LmCore TsMuxer Fallible List

def FlvRemuxer.remuxer : Remuxer FlvRemuxer :=
  { pushFrame := FlvRemuxer.pushFrame
    flush := fun r => .ok r.flush
    reset := FlvRemuxer.reset }

def RtmpRemuxer.remuxer : Remuxer RtmpRemuxer :=
  { pushFrame := fun r frame => .ok (r.pushFrame frame)
    flush := fun r => .ok r.flush
    reset := RtmpRemuxer.reset }

namespace Remuxer

variable {σ : Type} {R : Remuxer σ} {init : σ}

/-- The calls `b` return after the calls `a` and a reset what they return on a new instance. -/
def FreshAfterReset (R : Remuxer σ) (init : σ) (a b : List RemuxCall) : Prop :=
  ∀ s outputsA s' outputs, R.run init a = .ok (s, outputsA) → R.run init b = .ok (s', outputs) →
    ∃ s'', R.run (R.reset s) b = .ok (s'', outputs)

/-- The rule for a remuxer whose reset forgets all that calls change. -/
theorem freshAfterReset_of_reset (hinit : R.reset init = init)
    (hcall : ∀ c s s' o, R.call s c = .ok (s', o) → R.reset s' = R.reset s) (a b : List RemuxCall) :
    R.FreshAfterReset init a b := by
  intro s outputsA s' outputs ha hb
  have hreset : R.reset s = init := by
    refine run_invariant ?_ hinit ha
    intro c s₁ s₂ o hs₁ hone
    exact (hcall c s₁ s₂ o hone).trans hs₁
  rw [hreset]
  exact ⟨s', hb⟩

end Remuxer

/-! ## The remuxers that are new after a reset -/

theorem FlvRemuxer.reset_keepParameterSets (r : FlvRemuxer) (found : Option Bytes × Option Bytes) :
    (r.keepParameterSets found).reset = r.reset := by
  rcases found with ⟨_ | sps, _ | pps⟩
  · rfl
  · rfl
  · rfl
  · rw [keepParameterSets]
    split
    · rfl
    · rfl

theorem FlvRemuxer.reset_call (c : RemuxCall) (r r' : FlvRemuxer) (o : Bytes)
    (h : FlvRemuxer.remuxer.call r c = .ok (r', o)) : r'.reset = r.reset := by
  cases c with
  | flush =>
    cases h
    rfl
  | pushFrame frame =>
    rcases bind_eq_ok.1 h with ⟨r₁, htake, hpure⟩
    cases hpure
    have hheader : (if r.headerWritten then r else r.writeHeader).reset = r.reset := by
      split
      · rfl
      · rfl
    rw [← hheader]
    rw [takeParameterSets] at htake
    split at htake
    · rcases bind_eq_ok.1 htake with ⟨found, _, hfound⟩
      cases hfound
      exact reset_keepParameterSets _ found
    · cases htake
      rfl

theorem RtmpRemuxer.reset_call (c : RemuxCall) (r r' : RtmpRemuxer) (o : Bytes)
    (h : RtmpRemuxer.remuxer.call r c = .ok (r', o)) : r'.reset = r.reset := by
  cases c with
  | flush =>
    cases h
    rfl
  | pushFrame frame =>
    have hr : r' = (r.pushFrame frame).1 := (congrArg Prod.fst (Except.ok.inj h)).symm
    rw [hr]
    rcases r with ⟨size, first, last, buffer, sent⟩
    -- the chunk size is what `reset` leaves, and no branch touches it
    cases first with
    | none | some timestamp =>
      cases sent with
      | false | true => rfl

theorem RtspRemuxer.reset_call (c : RemuxCall) (r r' : RtspRemuxer) (o : Bytes)
    (h : RtspRemuxer.remuxer.call r c = .ok (r', o)) : r'.reset = r.reset := by
  cases c with
  | flush =>
    cases h
    rfl
  | pushFrame frame =>
    have hr : r' = (r.pushFrame frame).1 := (congrArg Prod.fst (Except.ok.inj h)).symm
    rw [hr, pushFrame]
    cases frame.kind with
    | video | audio => rfl

/-! ## HLS: an instance that was reset beside a new one -/

namespace HlsRemuxer

variable {fixed3 : Float → String} {videoCodec audioCodec : CodecType}

/-- Is one of the calls the first to finish a segment?  They find one that began at `start`, and that holds something
if `pushed`. -/
def finishesSegment (config : HlsConfig) : Option UInt32 → Bool → List RemuxCall → Bool
  | _, _, [] => false
  | start, pushed, .flush :: calls => pushed || finishesSegment config start pushed calls
  | start, _, .pushFrame frame :: calls =>
    splitsAt config start frame || finishesSegment config (startAfter start frame) true calls

/-- The new instance `r`, and the same with another muxer `m` and other data `d`, at the same place of a run, before
anything has been finished. -/
structure Stale (config : HlsConfig) (videoCodec audioCodec : CodecType) (r : HlsRemuxer) (m : TsMuxer)
    (d : Bytes) : Prop where
  settings : r.settings = (config, 90000, videoCodec, audioCodec)
  playlist : r.playlist.config = config
  fresh : r.tsMuxer.Streams videoCodec audioCodec
  stale : m.Streams videoCodec audioCodec
  written : m.patPmtWritten = true
  place : (r.tsMuxer.patPmtWritten = false ∧ r.currentSegmentData = [] ∧ r.currentSegmentStartTs = none ∧ d = []) ∨
    (r.tsMuxer.patPmtWritten = true ∧ BeginsWithTables videoCodec audioCodec r.currentSegmentData ∧
      (d = [] ∨ BeginsWithoutPat d))

def withMuxer (r : HlsRemuxer) (m : TsMuxer) (d : Bytes) : HlsRemuxer :=
  { r with tsMuxer := m, currentSegmentData := d }

theorem keepFirstTimestamp_data (r : HlsRemuxer) (frame : MediaFrame) :
    (r.keepFirstTimestamp frame).currentSegmentData = r.currentSegmentData := by
  rw [keepFirstTimestamp_eq]

variable {r r' : HlsRemuxer} {m : TsMuxer} {d : Bytes} {c : RemuxCall}

theorem BeginsWithTables.ne_nil {bytes : Bytes} (h : BeginsWithTables videoCodec audioCodec bytes) :
    bytes ≠ [] := by
  rcases h with ⟨tables, rest, htables, rfl⟩
  exact htables.append_ne_nil rest

variable {o : Bytes}

/-- What is finished begins as the segment did, and the playlist had room for it. -/
theorem BeginsWithTables.finalize {r₁ s₁ : HlsRemuxer}
    (htables : BeginsWithTables videoCodec audioCodec r₁.currentSegmentData)
    (h₁ : r₁.finalizeCurrentSegment fixed3 = .ok (s₁, o)) :
    BeginsWithTables videoCodec audioCodec o ∧
      (r₁.playlist.config.playlistType = .live → 0 < r₁.playlist.config.windowSize) := by
  rcases Tracked.finalizeCurrentSegment_cases h₁ with ⟨hnil, _, _⟩ | ⟨_, playlist, hadd, _, rfl⟩
  · exact absurd hnil htables.ne_nil
  · exact ⟨htables.append _, HlsPlaylist.window_pos_of_addSegment fixed3 hadd⟩

/-- A segment with tables and one without do not look alike when they are finished. -/
theorem finalizeCurrentSegment_ne {r₂ s₂ : HlsRemuxer} (htables : BeginsWithTables videoCodec audioCodec o)
    (hbad : r₂.currentSegmentData = [] ∨ BeginsWithoutPat r₂.currentSegmentData) :
    r₂.finalizeCurrentSegment fixed3 ≠ .ok (s₂, o) := by
  intro h₂
  rcases Tracked.finalizeCurrentSegment_cases h₂ with ⟨_, _, hnil⟩ | ⟨hne, playlist, _, _, hout⟩
  · exact htables.ne_nil hnil
  · have hwithout : BeginsWithoutPat o := by
      rw [hout]
      exact (hbad.resolve_left hne).extend (prefix_append _ _)
    exact hwithout.not_beginsWithTables htables

namespace Stale

variable {config : HlsConfig} (h : Stale config videoCodec audioCodec r m d)

include h

theorem muxFrame (frame : MediaFrame) :
    Stale config videoCodec audioCodec ((r.goOn frame).muxFrame frame) (m.writeFrame frame).1
      (d ++ (m.writeFrame frame).2) := by
  rcases writeFrame_spec h.fresh frame with ⟨hwritten, hstreams, tables, packets, hout, _, htables⟩
  rcases writeFrame_spec h.stale frame with ⟨hwritten', hstreams', tables', packets', hout', hpackets', htables'⟩
  rw [if_pos h.written] at htables'
  rw [hout', htables', nil_append]
  have hdata : ((r.goOn frame).muxFrame frame).currentSegmentData = r.currentSegmentData ++ (tables ++ packets) := by
    rw [← hout]
    rfl
  refine ⟨h.settings, h.playlist, hstreams, hstreams', hwritten', .inr ⟨hwritten, ?_, ?_⟩⟩
  · rw [hdata]
    rcases h.place with ⟨hnot, hnil, _, _⟩ | ⟨_, hbegins, _⟩
    · rw [if_neg (by simp [hnot])] at htables
      rw [hnil, nil_append]
      exact ⟨tables, packets, htables, rfl⟩
    · exact hbegins.append _
  · have hempty : d = [] → d ++ packets' = [] ∨ BeginsWithoutPat (d ++ packets') := by
      rintro rfl
      by_cases hframe : Muxed videoCodec audioCodec frame
      · exact .inr (hpackets'.begins_without_pat hframe)
      · exact .inl (hpackets'.eq_nil hframe)
    rcases h.place with ⟨_, _, _, hnil⟩ | ⟨_, _, hnil | hbad⟩
    · exact hempty hnil
    · exact hempty hnil
    · exact .inr (hbad.extend (prefix_append _ _))

/-- A call finishes nothing on either instance, or the new one finishes what the other does not. -/
theorem call (hcall : (HlsRemuxer.remuxer fixed3).call r c = .ok (r', o)) :
    (o = [] ∧ (∃ m' d', (HlsRemuxer.remuxer fixed3).call (r.withMuxer m d) c = .ok (r'.withMuxer m' d', []) ∧
          Stale config videoCodec audioCodec r' m' d') ∧
        ∀ calls, finishesSegment config r.currentSegmentStartTs r.tsMuxer.patPmtWritten (c :: calls) =
          finishesSegment config r'.currentSegmentStartTs r'.tsMuxer.patPmtWritten calls) ∨
      ((∀ s, (HlsRemuxer.remuxer fixed3).call (r.withMuxer m d) c ≠ .ok (s, o)) ∧
        (config.playlistType = .live → 0 < config.windowSize) ∧
        ∀ calls, finishesSegment config r.currentSegmentStartTs r.tsMuxer.patPmtWritten (c :: calls) = true) := by
  cases c with
  | flush =>
    rcases h.place with ⟨hnot, hnil, _, hd⟩ | ⟨hwritten, hbegins, hbad⟩
    · rcases Tracked.finalizeCurrentSegment_cases hcall with ⟨_, rfl, rfl⟩ | ⟨hne, _⟩
      · exact .inl ⟨rfl, ⟨m, d, if_pos hd, h⟩, fun calls => by rw [finishesSegment, hnot, Bool.false_or]⟩
      · exact absurd hnil hne
    · rcases hbegins.finalize hcall with ⟨htables, hwindow⟩
      rw [h.playlist] at hwindow
      exact .inr ⟨fun s => finalizeCurrentSegment_ne htables hbad, hwindow,
        fun calls => by rw [finishesSegment, hwritten, Bool.true_or]⟩
  | pushFrame frame =>
    have hpush : r.pushFrame fixed3 frame = .ok (r', o) := hcall
    have hsplits : r.shouldSplit frame = _ := shouldSplit_eq h.settings
    cases hsplit : r.shouldSplit frame with
    | false =>
      rw [pushFrame_of_stay r frame hsplit] at hpush
      cases hpush
      refine .inl ⟨rfl, ⟨_, _, pushFrame_of_stay (r.withMuxer m d) frame hsplit, h.muxFrame frame⟩, fun calls => ?_⟩
      rw [finishesSegment, ← hsplits, hsplit, Bool.false_or,
        show ((r.goOn frame).muxFrame frame).tsMuxer.patPmtWritten = true from (writeFrame_spec h.fresh frame).1]
      rfl
    | true =>
      -- a split needs a start, so there is a segment to finish
      rcases h.place with ⟨_, _, hnone, _⟩ | ⟨_, hbegins, hbad⟩
      · exact absurd hnone (of_shouldSplit hsplit).2.2
      · rcases pushFrame_of_split r frame hsplit hpush with ⟨r₁, hfinal, _⟩
        rw [← keepFirstTimestamp_data r frame] at hbegins
        rcases hbegins.finalize hfinal with ⟨htables, hwindow⟩
        rw [keepFirstTimestamp_eq, h.playlist] at hwindow
        refine .inr ⟨fun s hother => ?_, hwindow, fun calls => ?_⟩
        · rcases pushFrame_of_split (r.withMuxer m d) frame hsplit hother with ⟨s₁, hfinal', _⟩
          have hd : ((r.withMuxer m d).keepFirstTimestamp frame).currentSegmentData = d := keepFirstTimestamp_data _ _
          rw [← hd] at hbad
          exact finalizeCurrentSegment_ne htables hbad hfinal'
        · rw [finishesSegment, ← hsplits, hsplit, Bool.true_or]

/-- The two instances return the same as long as nothing is finished. -/
theorem run_iff {calls : List RemuxCall} {outputs : List Bytes}
    (hrun : (HlsRemuxer.remuxer fixed3).run r calls = .ok (r', outputs)) :
    (∃ s, (HlsRemuxer.remuxer fixed3).run (r.withMuxer m d) calls = .ok (s, outputs)) ↔
      config.playlistType = .live ∧ config.windowSize = 0 ∨
        finishesSegment config r.currentSegmentStartTs r.tsMuxer.patPmtWritten calls = false := by
  induction calls generalizing r m d outputs with
  | nil =>
    cases hrun
    exact iff_of_true ⟨_, rfl⟩ (.inr rfl)
  | cons c calls ih =>
    rcases run_cons_eq_ok.1 hrun with ⟨r₁, o, rest, hone, hrest, rfl⟩
    rcases h.call hone with ⟨rfl, ⟨m', d', hcall, hstale⟩, hfinishes⟩ | ⟨hcall, hwindow, hfinishes⟩
    · rw [hfinishes, ← ih hstale hrest]
      constructor
      · rintro ⟨s, hs⟩
        rcases run_cons_eq_ok.1 hs with ⟨s₁, o, rest', hone', hrest', heq⟩
        cases hcall.symm.trans hone'
        cases heq
        exact ⟨s, hrest'⟩
      · rintro ⟨s, hs⟩
        exact ⟨s, run_cons_eq_ok.2 ⟨_, [], rest, hcall, hs, rfl⟩⟩
    · refine iff_of_false ?_ ?_
      · rintro ⟨s, hs⟩
        rcases run_cons_eq_ok.1 hs with ⟨s₁, o', rest', hone', -, heq⟩
        cases heq
        exact hcall s₁ hone'
      · rintro (⟨hlive, hzero⟩ | hnot)
        · exact (hwindow hlive).ne' hzero
        · rw [hfinishes] at hnot
          cases hnot

end Stale

/-! ## HLS: what a reset leaves -/

theorem finalizeCurrentSegment_keeps (h : r.finalizeCurrentSegment fixed3 = .ok (r', o)) (m : TsMuxer) :
    r'.reset.withMuxer m [] = r.reset.withMuxer m [] := by
  rcases Tracked.finalizeCurrentSegment_cases h with ⟨_, rfl, _⟩ | ⟨_, playlist, _, rfl, _⟩
  · rfl
  · rfl

theorem call_keeps (h : (remuxer fixed3).call r c = .ok (r', o)) (m : TsMuxer) :
    r'.reset.withMuxer m [] = r.reset.withMuxer m [] := by
  cases c with
  | flush => exact finalizeCurrentSegment_keeps h m
  | pushFrame frame =>
    have hpush : r.pushFrame fixed3 frame = .ok (r', o) := h
    cases hsplit : r.shouldSplit frame with
    | false =>
      rw [pushFrame_of_stay r frame hsplit] at hpush
      cases hpush
      rfl
    | true =>
      rcases pushFrame_of_split r frame hsplit hpush with ⟨r₁, hfinal, rfl⟩
      rw [keepFirstTimestamp_eq] at hfinal
      exact finalizeCurrentSegment_keeps hfinal m

variable {config : HlsConfig} {calls : List RemuxCall} {outputs : List Bytes}

section

variable (h : (remuxer fixed3).run (new config videoCodec audioCodec) calls = .ok (r, outputs))

include h

/-- A reset instance differs from a new one in the muxer only. -/
theorem reset_run : r.reset = (new config videoCodec audioCodec).withMuxer r.tsMuxer [] := by
  suffices hkept : ∀ m, r.reset.withMuxer m [] = (new config videoCodec audioCodec).withMuxer m [] from hkept r.tsMuxer
  refine run_invariant ?_ (fun _ => rfl) h
  intro c r₁ r₂ o hs hone m
  exact (call_keeps hone m).trans (hs m)

/-- A run of the remuxer is one with its history. -/
theorem exists_tracked :
    ∃ t, (Tracked.new config videoCodec audioCodec).run fixed3 calls = .ok (t, outputs) ∧ t.remuxer = r := by
  have hmap := Tracked.run_remuxer fixed3 (Tracked.new config videoCodec audioCodec) calls
  change _ = (remuxer fixed3).run (new config videoCodec audioCodec) calls at hmap
  rw [h] at hmap
  cases hrun : (Tracked.new config videoCodec audioCodec).run fixed3 calls with
  | error e =>
    rw [hrun] at hmap
    cases hmap
  | ok last =>
    rw [hrun] at hmap
    cases hmap
    exact ⟨last.1, rfl, rfl⟩

end

theorem new_returns (fixed3 : Float → String) (videoCodec audioCodec : CodecType)
    (hwindow : ¬ (config.playlistType = .live ∧ config.windowSize = 0)) (calls : List RemuxCall) :
    ∃ r outputs, (remuxer fixed3).run (new config videoCodec audioCodec) calls = .ok (r, outputs) := by
  have hpos : config.playlistType = .live → 0 < config.windowSize :=
    fun hlive => Nat.pos_of_ne_zero fun hzero => hwindow ⟨hlive, hzero⟩
  rcases @run_returns fixed3 config hpos calls (Tracked.new config videoCodec audioCodec) rfl with ⟨t, outputs, hrun⟩
  have hmap := Tracked.run_remuxer fixed3 (Tracked.new config videoCodec audioCodec) calls
  rw [hrun] at hmap
  exact ⟨t.remuxer, outputs, hmap.symm⟩

theorem hls_freshAfterReset_iff (a b : List RemuxCall) :
    (remuxer fixed3).FreshAfterReset (new config videoCodec audioCodec) a b ↔
      RemuxCall.frames a = [] ∨ (config.playlistType = .live ∧ config.windowSize = 0) ∨
        finishesSegment config none false b = false := by
  by_cases hframes : RemuxCall.frames a = []
  · refine ⟨fun _ => .inl hframes, fun _ => ?_⟩
    intro s outputsA s' outputs ha hb
    rcases exists_tracked ha with ⟨t, hrun, rfl⟩
    have hreset := reset_run ha
    rw [(reached_run hrun).untouched hframes] at hreset
    refine ⟨s', ?_⟩
    change (remuxer fixed3).run t.remuxer.reset b = _
    rw [hreset]
    exact hb
  · have hrun_iff : ∀ {s s' : HlsRemuxer} {outputsA outputs : List Bytes},
        (remuxer fixed3).run (new config videoCodec audioCodec) a = .ok (s, outputsA) →
        (remuxer fixed3).run (new config videoCodec audioCodec) b = .ok (s', outputs) →
        ((∃ s'', (remuxer fixed3).run s.reset b = .ok (s'', outputs)) ↔
          config.playlistType = .live ∧ config.windowSize = 0 ∨ finishesSegment config none false b = false) := by
      intro s s' outputsA outputs ha hb
      rcases exists_tracked ha with ⟨t, hrun, rfl⟩
      have hreached := reached_run hrun
      have hstale : Stale config videoCodec audioCodec (new config videoCodec audioCodec) t.remuxer.tsMuxer [] :=
        ⟨rfl, rfl, ⟨rfl, rfl⟩, hreached.streams, hreached.written.2 hframes, .inl ⟨rfl, rfl, rfl, rfl⟩⟩
      rw [reset_run ha]
      exact hstale.run_iff hb
    constructor
    · intro hfresh
      refine .inr ?_
      by_cases hwindow : config.playlistType = .live ∧ config.windowSize = 0
      · exact .inl hwindow
      · rcases new_returns fixed3 videoCodec audioCodec hwindow a with ⟨s, outputsA, ha⟩
        rcases new_returns fixed3 videoCodec audioCodec hwindow b with ⟨s', outputs, hb⟩
        exact (hrun_iff ha hb).1 (hfresh s outputsA s' outputs ha hb)
    · rintro (hnone | hcond) s outputsA s' outputs ha hb
      · exact absurd hnone hframes
      · exact (hrun_iff ha hb).2 hcond

end HlsRemuxer

/-! ## All remuxers -/

/-- A constructor of a remuxer with its arguments. -/
inductive Construction
  | hls (config : HlsConfig) (videoCodec audioCodec : CodecType)
  | flv (hasAudio hasVideo : Bool)
  | rtmp
  | rtsp
  | srt

/-- The remuxer that is constructed is as new after calls `a` and a reset, as far as calls `b` can tell. -/
def Construction.FreshAfterReset (fixed3 : Float → String) (a b : List RemuxCall) : Construction → Prop
  | .hls config videoCodec audioCodec =>
    (HlsRemuxer.remuxer fixed3).FreshAfterReset (.new config videoCodec audioCodec) a b
  | .flv hasAudio hasVideo => FlvRemuxer.remuxer.FreshAfterReset (.new hasAudio hasVideo) a b
  | .rtmp => RtmpRemuxer.remuxer.FreshAfterReset .new a b
  | .rtsp => RtspRemuxer.remuxer.FreshAfterReset .new a b
  | .srt => SrtRemuxer.remuxer.FreshAfterReset .new a b

/-- A reset remuxer is as good as a new one, except for an HLS remuxer that was given a frame, when a new one would
finish a segment. -/
theorem freshAfterReset_iff (fixed3 : Float → String) (construction : Construction) (a b : List RemuxCall) :
    construction.FreshAfterReset fixed3 a b ↔
      ∀ config videoCodec audioCodec, construction = .hls config videoCodec audioCodec →
        RemuxCall.frames a = [] ∨ (config.playlistType = .live ∧ config.windowSize = 0) ∨
          HlsRemuxer.finishesSegment config none false b = false := by
  cases construction with
  | hls config videoCodec audioCodec =>
    have hhls := @HlsRemuxer.hls_freshAfterReset_iff fixed3 videoCodec audioCodec config a b
    constructor
    · intro hfresh _ _ _ heq
      cases heq
      exact hhls.1 hfresh
    · intro hcond
      exact hhls.2 (hcond config videoCodec audioCodec rfl)
  -- the other remuxers forget everything, and the condition is about none of them
  | flv hasAudio hasVideo =>
    exact iff_of_true (Remuxer.freshAfterReset_of_reset rfl FlvRemuxer.reset_call a b) (by simp)
  | rtmp => exact iff_of_true (Remuxer.freshAfterReset_of_reset rfl RtmpRemuxer.reset_call a b) (by simp)
  | rtsp => exact iff_of_true (Remuxer.freshAfterReset_of_reset rfl RtspRemuxer.reset_call a b) (by simp)
  | srt => exact iff_of_true (Remuxer.freshAfterReset_of_reset rfl (fun _ _ _ _ _ => rfl) a b) (by simp)

open HlsRemuxer in
/-- One key frame before the reset; a key frame and a flush after it. -/
theorem not_freshAfterReset_hls :
    ¬ (Construction.hls vodConfig .h264 .aac).FreshAfterReset (fun _ => "4.000") [.pushFrame keyframe5]
      [.pushFrame keyframe5, .flush] := by
  intro hfresh
  rcases (hls_freshAfterReset_iff _ _).1 hfresh with hnone | ⟨hlive, _⟩ | hnot
  · cases hnone
  · cases hlive
  · -- the flush finishes the segment of the key frame
    simp [finishesSegment] at hnot

end LingVoice.LmProtocol

import LingVoice.Dash.Segmenter
import LingVoice.Hls.Segmenter
import Mathlib.Data.UInt

/-!
# SegmentServing — is everything served that is advertised?

What an HLS playlist lists is served.  But a part has the sequence number of the segment that is still to be cut, and the
playlist lists parts only under segments that were cut: no part is ever listed.  A DASH manifest has a media template for
the audio, whose segments are never made.  So all is well only without parts, or without segments
(`advertised_served_iff`).
-/

namespace LingVoice.SegmentServing

open Lib List
open Common (Time)

namespace Hls

open LingVoice.Hls
open LingVoice.Hls.Stream (Line)

/-- The media URI in a line; the hint at the next part is not one. -/
def mediaUri : Line → Option String
  | .segment uri => some uri
  | .part _ uri => some uri
  | _ => none

def Served (st : Stream) : Prop :=
  ∀ line ∈ st.generatePlaylist, ∀ uri, mediaUri line = some uri → (st.getSegment uri).isSome

def Listed (st : Stream) : Prop :=
  ∀ part ∈ st.parts, ∃ d, Line.part d part.uri ∈ st.generatePlaylist

/-- What every run keeps: segments are numbered down from the next number, and parts have the next number. -/
structure Numbered (st : Stream) : Prop where
  segments : ∀ before seg after, st.segments = before ++ seg :: after →
    seg.sequence = st.mediaSeq - UInt64.ofNat (after.length + 1)
  few : st.segments.length < 2 ^ 63
  parts : ∀ part ∈ st.parts, part.sequence = st.mediaSeq

variable {st st' : Stream} {p : Push}

theorem Numbered.cutSegment {later : Time} {trigger : Nat} (h : Numbered st) (hbuffer : st.gopBuffer ≠ [])
    (hcut : st.cutSegment later trigger = .ok st') : Numbered st' := by
  obtain ⟨tsMuxer, data, segments, -, hkeep, rfl⟩ := (Stream.cutSegment_eq_ok hbuffer).1 hcut
  obtain ⟨k, rfl, hfew⟩ := Slice.keepLast_eq_ok hkeep
  refine ⟨?_, ?_, by simp⟩
  · intro before seg after hsplit
    dsimp only at hsplit ⊢
    have hall := take_append_drop k (st.segments ++ [st.newSegment data later trigger])
    rw [hsplit, ← append_assoc] at hall
    -- the segment is the new one, or one of those before it
    rcases eq_nil_or_concat' after with rfl | ⟨older, last, rfl⟩
    · obtain rfl := singleton_inj.1 (append_inj_right' hall rfl)
      simp [Stream.newSegment]
    · rw [← cons_append, ← append_assoc] at hall
      have hseg := h.segments _ seg older (append_inj_left' hall rfl).symm
      rw [hseg, length_append, length_singleton, UInt64.ofNat_add (older.length + 1)]
      grind
  · have := st.config.maxSegments.toInt_lt
    show length (drop k _) < _
    omega

theorem Numbered.cutPartialSegment (h : Numbered st) (trigger : Nat) : Numbered (st.cutPartialSegment trigger) := by
  unfold Stream.cutPartialSegment
  split
  · exact h
  · refine ⟨h.segments, h.few, ?_⟩
    intro part hpart
    rcases mem_append.1 hpart with hpart | hpart
    · exact h.parts part hpart
    · obtain rfl := mem_singleton.1 hpart
      rfl

theorem Numbered.pushFrame (h : Numbered st) (hpush : st.pushFrame p = .ok st') : Numbered st' := by
  obtain ⟨next, hnext, hst⟩ := Stream.pushFrame_cases hpush
  have hbuffered : Numbered (st.buffer p.frame) := ⟨h.segments, h.few, h.parts⟩
  have hkept : Numbered next := by
    rcases hnext with ⟨rfl, -⟩ | ⟨-, cut, hcut, rfl⟩
    · exact hbuffered
    · have hkept := hbuffered.cutSegment (by simp [Stream.buffer]) hcut
      exact ⟨hkept.segments, hkept.few, hkept.parts⟩
  rcases hst with rfl | rfl
  · exact hkept
  · exact hkept.cutPartialSegment _

theorem numbered_run {id : String} {config : Config} {start : Time} {pushes : List Push}
    (hrun : Stream.run id config start pushes = .ok st) : Numbered st := by
  refine Fallible.foldlM_history ?_ ⟨by simp, by simp, by simp⟩ hrun
  intro past p st st' h hpush
  exact h.pushFrame hpush

theorem Numbered.sequence_ne {seg part : Segment} (h : Numbered st) (hseg : seg ∈ st.segments)
    (hpart : part ∈ st.parts) : part.sequence ≠ seg.sequence := by
  obtain ⟨before, after, hsplit⟩ := append_of_mem hseg
  have hlength := congrArg length hsplit
  have hfew := h.few
  rw [length_append, length_cons] at hlength
  rw [h.parts part hpart, h.segments before seg after hsplit]
  intro heq
  have hzero : UInt64.ofNat (after.length + 1) = 0 := by grind
  have hnat : (UInt64.ofNat (after.length + 1)).toNat = after.length + 1 :=
    UInt64.toNat_ofNat_of_lt' (Nat.lt_trans (by omega : _ < 2 ^ 63) (by decide))
  rw [hzero] at hnat
  exact absurd hnat.symm (Nat.succ_ne_zero _)

/-- A line with a media URI stands for a segment or a part that is held. -/
theorem of_mem_generatePlaylist {line : Line} {uri : String} (hline : line ∈ st.generatePlaylist)
    (huri : mediaUri line = some uri) : (∃ seg ∈ st.segments, line = .segment seg.uri) ∨
      ∃ seg ∈ st.segments, ∃ part ∈ st.parts, part.sequence = seg.sequence ∧ line = .part part.duration part.uri := by
  rw [Stream.generatePlaylist] at hline
  simp only [mem_append] at hline
  rcases hline with (((hline | hline) | hline) | hline) | hline
  · simp only [mem_cons, not_mem_nil, or_false] at hline
    rcases hline with rfl | rfl | rfl
    all_goals cases huri
  · cases hmode : st.config.mode with
    | classic => simp [hmode] at hline
    | llhls =>
      simp only [hmode, mem_cons, not_mem_nil, or_false] at hline
      rcases hline with rfl | rfl
      all_goals cases huri
  · obtain ⟨seg, -, rfl⟩ := Option.map_eq_some_iff.1 (Option.mem_toList.1 hline)
    cases huri
  · obtain ⟨seg, hseg, hline⟩ := mem_flatMap.1 hline
    rcases mem_append.1 hline with hline | hline
    · simp only [mem_cons, not_mem_nil, or_false] at hline
      rcases hline with rfl | rfl
      · cases huri
      · exact .inl ⟨seg, hseg, rfl⟩
    · cases hmode : st.config.mode with
      | classic => simp [hmode] at hline
      | llhls =>
        simp only [hmode, mem_map, mem_filter, decide_eq_true_eq] at hline
        obtain ⟨part, ⟨hpart, hsequence⟩, rfl⟩ := hline
        exact .inr ⟨seg, hseg, part, hpart, hsequence, rfl⟩
  · split at hline
    · obtain rfl := mem_singleton.1 hline
      cases huri
    · cases hline

theorem served (st : Stream) : Served st := by
  intro line hline uri huri
  have hfound : ∃ seg ∈ st.segments ++ st.parts, seg.uri = uri := by
    rcases of_mem_generatePlaylist hline huri with ⟨seg, hseg, rfl⟩ | ⟨-, -, part, hpart, -, rfl⟩
    · exact ⟨seg, mem_append_left _ hseg, Option.some.inj huri⟩
    · exact ⟨part, mem_append_right _ hpart, Option.some.inj huri⟩
  rw [Stream.getSegment, Option.isSome_map, find?_isSome]
  simpa using hfound

theorem Numbered.listed_iff (h : Numbered st) : Listed st ↔ st.parts = [] := by
  constructor
  · intro hlisted
    refine eq_nil_iff_forall_not_mem.2 fun part hpart => ?_
    obtain ⟨d, hline⟩ := hlisted part hpart
    rcases of_mem_generatePlaylist hline rfl with ⟨_, _, hsegment⟩ | ⟨seg, hseg, other, hother, hsequence, -⟩
    · cases hsegment
    · exact h.sequence_ne hseg hother hsequence
  · intro hnil part hpart
    rw [hnil] at hpart
    cases hpart

end Hls

namespace Dash

open LingVoice.Dash

/-- A URI that comes from a media template with a number in place of `$Number$`. -/
def Substitutes (media : String) (number : UInt64) (uri : String) : Prop :=
  ∃ front back, media = front ++ "$Number$" ++ back ∧ uri = front ++ toString number.toNat ++ back

def Served (now : Time) (st : Stream) : Prop :=
  ∀ set ∈ (st.generateMPD now).adaptationSets, ∀ seg ∈ st.segments, ∀ uri,
    Substitutes set.template.media seg.sequence uri → (st.getSegment uri).isSome

structure Reached (id : String) (audioRep : Option Representation) (st : Stream) : Prop where
  sameId : st.id = id
  sameRep : st.audioRep = audioRep
  uris : ∀ seg ∈ st.segments, ∃ n : Nat, seg.uri = id ++ "_" ++ toString n ++ ".m4s"

variable {id : String} {audioRep : Option Representation} {st st' : Stream} {p : Push}

theorem Reached.pushFrame (h : Reached id audioRep st) (hpush : st.pushFrame p = .ok st') :
    Reached id audioRep st' := by
  unfold Stream.pushFrame at hpush
  split at hpush
  · obtain ⟨cut, hcut, hst⟩ := bind_eq_ok.1 hpush
    obtain rfl := Except.ok.inj hst
    rw [Stream.cutSegment, if_neg (by simp [Stream.buffer])] at hcut
    obtain ⟨segments, hkeep, hcut⟩ := bind_eq_ok.1 hcut
    obtain rfl := Except.ok.inj hcut
    obtain ⟨k, rfl, -⟩ := Slice.keepLast_eq_ok hkeep
    refine ⟨h.sameId, h.sameRep, ?_⟩
    intro seg hseg
    rcases mem_append.1 (mem_of_mem_drop hseg) with hold | hnew
    · exact h.uris seg hold
    · obtain rfl := mem_singleton.1 hnew
      exact ⟨st.mediaSeq.toNat, by rw [← h.sameId]; rfl⟩
  · obtain rfl := Except.ok.inj hpush
    exact ⟨h.sameId, h.sameRep, h.uris⟩

/-- The name of an audio segment is not the name of a segment. -/
theorem audio_uri_ne (id : String) (k n : Nat) :
    id ++ "_" ++ toString k ++ ".m4s" ≠ id ++ "_audio_" ++ toString n ++ ".m4s" := by
  intro h
  have hlists := congrArg String.toList h
  simp only [String.toList_append, append_assoc, append_cancel_left_eq] at hlists
  have hdigits : (toString k).toList ++ ".m4s".toList = "audio_".toList ++ ((toString n).toList ++ ".m4s".toList) :=
    (cons.inj hlists).2
  rw [← append_assoc, append_cancel_right_eq] at hdigits
  have hmem : 'a' ∈ Nat.toDigits 10 k := by
    have hrepr : (toString k).toList = Nat.toDigits 10 k := by simp [toString, Nat.repr]
    rw [← hrepr, hdigits]
    exact mem_cons_self
  exact absurd (Nat.isDigit_of_mem_toDigits (by decide) (by decide) hmem) (by decide)

theorem Reached.served_iff {rep : Representation} (h : Reached id (some rep) st) (now : Time) :
    Served now st ↔ st.segments = [] := by
  constructor
  · intro hserved
    refine eq_nil_iff_forall_not_mem.2 fun seg hseg => ?_
    have hset : .audio rep (st.template (st.id ++ "_audio")) ∈ (st.generateMPD now).adaptationSets := by
      simp [Stream.generateMPD, h.sameRep]
    have hfound := hserved _ hset seg hseg (id ++ "_audio_" ++ toString seg.sequence.toNat ++ ".m4s")
      ⟨id ++ "_audio_", ".m4s", ?_, rfl⟩
    · rw [Stream.getSegment, Option.isSome_map, find?_isSome] at hfound
      obtain ⟨other, hother, huri⟩ := hfound
      obtain ⟨k, hk⟩ := h.uris other hother
      rw [decide_eq_true_eq, hk] at huri
      exact audio_uri_ne id k _ huri
    · simp [Stream.AdaptationSet.template, Stream.template, h.sameId, String.append_assoc]
  · intro hnil set _ seg hseg
    rw [hnil] at hseg
    cases hseg

end Dash

/-- After every run of pushes: the playlist serves what it lists, and lists every part if and only if there is no part;
the manifest with a representation for each kind serves what it describes if and only if there is no segment. -/
theorem advertised_served_iff (id : String) (start : Time) :
    (∀ (config : Hls.Config) (pushes : List Hls.Push) (st : Hls.Stream),
      Hls.Stream.run id config start pushes = .ok st → (Hls.Served st ∧ Hls.Listed st ↔ st.parts = [])) ∧
    ∀ (config : Dash.Config) (videoRep audioRep : Dash.Representation) (pushes : List Dash.Push) (now : Time)
      (st : Dash.Stream), Dash.Stream.run id config (some videoRep) (some audioRep) start pushes = .ok st →
        (Dash.Served now st ↔ st.segments = []) := by
  constructor
  · intro config pushes st hrun
    rw [(Hls.numbered_run hrun).listed_iff]
    exact and_iff_right (Hls.served st)
  · intro config videoRep audioRep pushes now st hrun
    have hreached : Dash.Reached id (some audioRep) st := by
      refine Fallible.foldlM_history ?_ ⟨rfl, rfl, by simp⟩ hrun
      intro past p st st' h hpush
      exact h.pushFrame hpush
    exact hreached.served_iff now

def lowLatency : Hls.Config :=
  ⟨1000000000, 200000000, 6, .llhls⟩

def keyframe (t : Time) : Hls.Push :=
  ⟨{ type := .frameVideo, codec := .h264, payload := [0x65], marker := true }, t, t⟩

/-- Parts of two seconds: there are two segments, and no part. -/
theorem advertised_served_keyframes :
    ∃ st, Hls.Stream.run "live" { lowLatency with partDuration := 2000000000 } 0
        [keyframe 1000000000, keyframe 2000000000] = .ok st ∧
      st.segments.map (·.uri) = ["live_0.m4s", "live_1.m4s"] ∧ Hls.Served st ∧ Hls.Listed st :=
  ⟨_, rfl, rfl, ((advertised_served_iff "live" 0).1 { lowLatency with partDuration := 2000000000 }
    [keyframe 1000000000, keyframe 2000000000] _ rfl).2 rfl⟩

/-- After half a second there is a part, which is not listed; after a second there is a segment, but none of audio. -/
theorem not_advertised_served :
    (Hls.Stream.run "live" lowLatency 0 [keyframe 500000000]).map (fun st =>
        (st.parts.map (·.uri), st.generatePlaylist.filterMap Hls.mediaUri)) = .ok (["live_0_part0.m4s"], []) ∧
      (Dash.Stream.run "live" ⟨1000000000, 6, 0⟩ (some ⟨"v", 640, 480, 0, 0⟩) (some ⟨"a", 0, 0, 48000, 2⟩) 0
          [⟨(keyframe 0).frame, 1000000000, 1000000000⟩]).map (fun st =>
        (st.segments.map (·.sequence), (st.generateMPD 0).adaptationSets.map (·.template.media),
          st.getSegment "live_audio_0.m4s")) =
        .ok ([0], ["live_$Number$.m4s", "live_audio_$Number$.m4s"], none) := by
  decide +kernel

end LingVoice.SegmentServing

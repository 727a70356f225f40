import LingVoice.LmProtocol.TsValidity

/-!
# TsFrames — what one call of `write_frame` writes

The packets of a frame, behind a PAT and a PMT when they have not been written yet.  The packets of a frame never
begin with a PAT, and there are none for a stream that the muxer does not have.
-/

namespace LingVoice.LmProtocol

open Lib LmCore

namespace TsMuxer

structure Streams (m : TsMuxer) (videoCodec audioCodec : CodecType) : Prop where
  video : m.hasVideo = isVideoCodec videoCodec
  audio : m.hasAudio = !isVideoCodec audioCodec

/-- Does the muxer write packets for the frame? -/
def Muxed (videoCodec audioCodec : CodecType) (frame : MediaFrame) : Prop :=
  match frame.kind with
  | .video => isVideoCodec videoCodec = true
  | .audio => isVideoCodec audioCodec = false

instance (videoCodec audioCodec : CodecType) : DecidablePred (Muxed videoCodec audioCodec) := by
  intro frame
  unfold Muxed
  split
  · infer_instance
  · infer_instance

variable {m : TsMuxer} {videoCodec audioCodec : CodecType}

variable {frame : MediaFrame} {bytes : Bytes}

theorem writeFrameInner_of_not_muxed (h : m.Streams videoCodec audioCodec)
    (hmuxed : ¬ Muxed videoCodec audioCodec frame) : m.writeFrameInner frame = (m, []) := by
  cases hkind : frame.kind with
  | video =>
    have hoff : m.hasVideo = false := by
      simpa [Muxed, hkind, h.video] using hmuxed
    simp [writeFrameInner, hkind, writeVideoFrame, hoff]
  | audio =>
    have hoff : m.hasAudio = false := by
      simpa [Muxed, hkind, h.audio] using hmuxed
    simp [writeFrameInner, hkind, writeAudioFrame, hoff]

/-- The packets of a frame do not begin with a PAT. -/
theorem writeFrameInner_of_muxed (h : m.Streams videoCodec audioCodec) (hmuxed : Muxed videoCodec audioCodec frame) :
    ∃ first rest, (m.writeFrameInner frame).2 = first ++ rest ∧ first.length = 188 ∧ Mpegts.pid first ≠ patPid := by
  cases hkind : frame.kind with
  | video =>
    have hon : m.hasVideo = true := by
      simpa [Muxed, hkind, h.video] using hmuxed
    rcases m.writeVideoFrame_packets frame hon with ⟨first, tail, hout, hcarries, _⟩
    refine ⟨first, tail.flatten, ?_, hcarries.length, ?_⟩
    · simp only [writeFrameInner, hkind, hout, List.flatten_cons]
    · rw [hcarries.pid]
      decide
  | audio =>
    have hon : m.hasAudio = true := by
      simpa [Muxed, hkind, h.audio] using hmuxed
    rcases makeTsPacket_start (.inr (.inr (.inr rfl))) (audioPes frame) m.audioCc with ⟨_, _, hcarries⟩
    refine ⟨_, [], ?_, hcarries.length, ?_⟩
    · simp only [writeFrameInner, hkind, writeAudioFrame_eq m frame hon, List.append_nil]
    · rw [hcarries.pid]
      decide

theorem writeFrameInner_keeps (m : TsMuxer) (frame : MediaFrame) :
    (m.writeFrameInner frame).1.patPmtWritten = m.patPmtWritten ∧
      (m.writeFrameInner frame).1.hasVideo = m.hasVideo ∧ (m.writeFrameInner frame).1.hasAudio = m.hasAudio := by
  cases hkind : frame.kind with
  | video =>
    cases hvideo : m.hasVideo with
    | true =>
      rcases m.writeVideoFrame_packets frame hvideo with ⟨_, _, _, _, _, _, hmux⟩
      simp only [writeFrameInner, hkind]
      rw [hmux]
      exact ⟨rfl, hvideo, rfl⟩
    | false => simp [writeFrameInner, hkind, writeVideoFrame, hvideo]
  | audio =>
    cases haudio : m.hasAudio with
    | true =>
      simp only [writeFrameInner, hkind, writeAudioFrame_eq m frame haudio]
      exact ⟨trivial, trivial, haudio⟩
    | false => simp [writeFrameInner, hkind, writeAudioFrame, haudio]

/-- A PAT packet and the PMT packet of the two streams. -/
def Tables (videoCodec audioCodec : CodecType) (bytes : Bytes) : Prop :=
  ∃ patCc pmtCc, bytes = (makeTsPacket patPid true patData patCc).1 ++
    (makeTsPacket pmtPid true (new videoCodec audioCodec).pmtData pmtCc).1

/-- The packets of one frame; the counters depend on what was written before. -/
def FramePackets (videoCodec audioCodec : CodecType) (frame : MediaFrame) (bytes : Bytes) : Prop :=
  ∃ m : TsMuxer, m.Streams videoCodec audioCodec ∧ bytes = (m.writeFrameInner frame).2

theorem Tables.begins_with_pat (h : Tables videoCodec audioCodec bytes) :
    ∃ first rest, bytes = first ++ rest ∧ first.length = 188 ∧ Mpegts.pid first = patPid := by
  rcases h with ⟨patCc, pmtCc, rfl⟩
  rcases makeTsPacket_start (.inl rfl) patData patCc with ⟨_, _, hpat⟩
  exact ⟨_, _, rfl, hpat.length, hpat.pid⟩

theorem FramePackets.eq_nil
    (h : FramePackets videoCodec audioCodec frame bytes) (hmuxed : ¬ Muxed videoCodec audioCodec frame) :
    bytes = [] := by
  rcases h with ⟨m, hm, rfl⟩
  rw [writeFrameInner_of_not_muxed hm hmuxed]

theorem FramePackets.begins_without_pat
    (h : FramePackets videoCodec audioCodec frame bytes) (hmuxed : Muxed videoCodec audioCodec frame) :
    ∃ first rest, bytes = first ++ rest ∧ first.length = 188 ∧ Mpegts.pid first ≠ patPid := by
  rcases h with ⟨m, hm, rfl⟩
  exact writeFrameInner_of_muxed hm hmuxed

theorem packet_append_ne_nil {first rest : Bytes} (hlen : first.length = 188) : first ++ rest ≠ [] := by
  intro hnil
  rw [List.append_eq_nil_iff] at hnil
  rw [hnil.1] at hlen
  exact absurd hlen (by decide)

theorem FramePackets.ne_nil
    (h : FramePackets videoCodec audioCodec frame bytes) (hmuxed : Muxed videoCodec audioCodec frame) : bytes ≠ [] := by
  rcases h.begins_without_pat hmuxed with ⟨first, rest, rfl, hlen, _⟩
  exact packet_append_ne_nil hlen

theorem Tables.append_ne_nil (h : Tables videoCodec audioCodec bytes) (more : Bytes) : bytes ++ more ≠ [] := by
  rcases h.begins_with_pat with ⟨first, rest, rfl, hlen, _⟩
  rw [List.append_assoc]
  exact packet_append_ne_nil hlen

/-- A call writes the frame's packets, behind the tables if they have not been written. -/
theorem writeFrame_spec (h : m.Streams videoCodec audioCodec) (frame : MediaFrame) :
    (m.writeFrame frame).1.patPmtWritten = true ∧ (m.writeFrame frame).1.Streams videoCodec audioCodec ∧
      ∃ tables packets, (m.writeFrame frame).2 = tables ++ packets ∧
        FramePackets videoCodec audioCodec frame packets ∧
        (if m.patPmtWritten then tables = [] else Tables videoCodec audioCodec tables) := by
  cases hwritten : m.patPmtWritten with
  | true =>
    rcases m.writeFrameInner_keeps frame with ⟨hkept, hvideo, haudio⟩
    rw [writeFrame, if_pos hwritten]
    exact ⟨hkept.trans hwritten, ⟨hvideo.trans h.video, haudio.trans h.audio⟩, [], _, rfl, ⟨m, h, rfl⟩, rfl⟩
  | false =>
    rcases m.writePatPmt.1.writeFrameInner_keeps frame with ⟨hkept, hvideo, haudio⟩
    have hstreams : m.writePatPmt.1.Streams videoCodec audioCodec := ⟨h.video, h.audio⟩
    have htables : Tables videoCodec audioCodec m.writePatPmt.2 := by
      have hv : (new videoCodec audioCodec).hasVideo = m.hasVideo := h.video.symm
      have ha : (new videoCodec audioCodec).hasAudio = m.hasAudio := h.audio.symm
      have hsection : m.pmtSection = (new videoCodec audioCodec).pmtSection := by
        rw [pmtSection, pmtSection, hv, ha]
      have hpmt : m.pmtData = (new videoCodec audioCodec).pmtData := by
        rw [pmtData, pmtData, hsection]
      exact ⟨m.patCc, m.pmtCc, by rw [← hpmt]; rfl⟩
    rw [writeFrame, if_neg (by simp [hwritten])]
    exact ⟨hkept, ⟨hvideo.trans h.video, haudio.trans h.audio⟩, _, _, rfl, ⟨_, hstreams, rfl⟩, htables⟩

end TsMuxer

end LingVoice.LmProtocol

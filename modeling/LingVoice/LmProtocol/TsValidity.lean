import LingVoice.LmProtocol.TsPacket

/-!
# TsValidity — the packets of whole muxer runs

Each operation of `TsMuxer` writes whole packets that count on from the muxer's counters.  They are
valid except for one kind: a video packet after the first whose payload is full.  It keeps the control
bits `00`, so a run is valid exactly when no video frame reaches such a packet.
-/

namespace LingVoice.LmProtocol

open Lib LmCore List Lib.Mpegts

namespace TsMuxer

/-! ## Counters -/

def counters (m : TsMuxer) (id : UInt16) : Nat :=
  if id = videoPid then m.videoCc.toNat
  else if id = audioPid then m.audioCc.toNat
  else if id = patPid then m.patCc.toNat
  else if id = pmtPid then m.pmtCc.toNat
  else 0

/-- The counters are bytes that wrap at 256, which is a multiple of 16. -/
theorem succ_mod (c : UInt8) : (c + 1).toNat % 16 = (c.toNat + 1) % 16 := by
  have hone : (1 : UInt8).toNat = 1 := rfl
  rw [UInt8.toNat_add, hone]
  omega

variable {m m' : TsMuxer}

variable {start : Bool} {data p : Bytes} {control : UInt8}

theorem counted_video (h : Carries p start videoPid control (m.videoCc &&& 0x0F) data) :
    Counted m.counters [p] { m with videoCc := m.videoCc + 1 }.counters := by
  refine .of_carries h rfl (succ_mod _) ?_
  intro id hne
  simp [counters, hne]

/-! ## Video frames -/

structure Continues (ps : List Bytes) (data : Bytes) : Prop where
  carries : ∀ p ∈ ps, ∃ control counter chunk,
    control ≠ 2 ∧ Mpegts.Carries p false videoPid control counter chunk
  payload : (ps.map Mpegts.payload).flatten = data
  valid : (∀ p ∈ ps, Mpegts.Valid p) ↔ data.length < 184

theorem Continues.length {ps : List Bytes} (h : Continues ps data) : ∀ p ∈ ps, p.length = 188 := by
  intro p hp
  rcases h.carries p hp with ⟨_, _, _, _, hcarries⟩
  exact hcarries.length

variable {id : UInt16} {counter : UInt8}

theorem not_valid_of_control_zero (h : Carries p start id 0 counter data) : ¬ Valid p := by
  intro hvalid
  have hcontrol := hvalid.control
  rw [h.afc] at hcontrol
  exact absurd hcontrol (by decide)

/-- A packet of video behind the first: only the last one, which is stuffed, is valid. -/
theorem makeVideoTsPacket_next (m : TsMuxer) (hne : data ≠ []) :
    ∃ control ≠ 2, Carries (m.makeVideoTsPacket false data none).2 false videoPid control (m.videoCc &&& 0x0F)
        (data.take 184) ∧
      (Valid (m.makeVideoTsPacket false data none).2 ↔ data.length < 184) := by
  by_cases hfull : 184 ≤ data.length
  · have hcarries := m.makeVideoTsPacket_full hfull
    exact ⟨0, by decide, hcarries, iff_of_false (not_valid_of_control_zero hcarries) (Nat.not_lt.2 hfull)⟩
  · have hshort : data.length < 184 := Nat.lt_of_not_le hfull
    have hcarries := m.makeVideoTsPacket_last hne hshort
    rw [take_of_length_le (Nat.le_of_lt hshort)]
    exact ⟨_, by decide, hcarries, iff_of_true (hcarries.valid (.inr rfl)) hshort⟩

theorem drop_min (data : Bytes) : data.drop (min data.length 184) = data.drop 184 :=
  drop_eq_drop_iff.2 (by omega)

theorem videoLoop_next (pts : UInt64) (n : Nat) (m : TsMuxer) (data : Bytes) (hfuel : data.length ≤ n) :
    ∃ ps, (videoLoop pts n m false data).2 = ps.flatten ∧ Continues ps data ∧
      Counted m.counters ps (videoLoop pts n m false data).1.counters ∧
      (videoLoop pts n m false data).1 =
        { m with videoCc := (videoLoop pts n m false data).1.videoCc } := by
  induction n generalizing m data with
  | zero =>
    obtain rfl : data = [] := length_eq_zero_iff.1 (Nat.le_zero.1 hfuel)
    exact ⟨[], rfl, ⟨by simp, rfl, by simp⟩, Counted.nil _, rfl⟩
  | succ n ih =>
    by_cases hnil : data = []
    · subst hnil
      exact ⟨[], rfl, ⟨by simp, rfl, by simp⟩, Counted.nil _, rfl⟩
    · have hpos : 0 < data.length := length_pos_iff.2 hnil
      have hlen : (data.drop 184).length ≤ n := by
        rw [length_drop]
        omega
      have hstep : videoLoop pts (n + 1) m false data =
          ((videoLoop pts n { m with videoCc := m.videoCc + 1 } false (data.drop 184)).1,
            (m.makeVideoTsPacket false data none).2 ++
              (videoLoop pts n { m with videoCc := m.videoCc + 1 } false (data.drop 184)).2) := by
        rw [videoLoop, if_neg hnil, ← drop_min]
        rfl
      rcases ih { m with videoCc := m.videoCc + 1 } (data.drop 184) hlen with ⟨ps, hout, hcont, hcount, hmux⟩
      obtain ⟨control, hcontrol, hcarries, hvalid⟩ := m.makeVideoTsPacket_next hnil
      rw [hstep]
      refine ⟨(m.makeVideoTsPacket false data none).2 :: ps, ?_, ⟨?_, ?_, ?_⟩, ?_, ?_⟩
      · rw [flatten_cons, hout]
      · rw [forall_mem_cons]
        exact ⟨⟨_, _, _, hcontrol, hcarries⟩, hcont.carries⟩
      · rw [map_cons, flatten_cons, hcarries.payload, hcont.payload, take_append_drop]
      · rw [forall_mem_cons, hvalid, hcont.valid, length_drop]
        omega
      · exact (counted_video hcarries).append hcount
      · rw [hmux]

def videoPes (frame : MediaFrame) : Bytes :=
  PesHeader.toBytes
    { streamId := 0xE0
      pesPacketLength := 0
      pts := some frame.timestamp.toUInt64
      dts := some frame.timestamp.toUInt64 } ++
    ensureH264AnnexB frame.data

theorem length_videoPes (frame : MediaFrame) : (videoPes frame).length = 18 + (ensureH264AnnexB frame.data).length := by
  simp [videoPes, PesHeader.toBytes, timestampBytes]
  omega

/-- The packets of one video frame.  The first carries 176 bytes and the second goes on 184 bytes
into the PES packet. -/
theorem writeVideoFrame_packets (m : TsMuxer) (frame : MediaFrame) (hvideo : m.hasVideo = true) :
    ∃ first tail, (m.writeVideoFrame frame).2 = (first :: tail).flatten ∧
      Carries first true videoPid 3 (m.videoCc &&& 0x0F) ((videoPes frame).take 176) ∧
      Continues tail ((videoPes frame).drop 184) ∧
      Counted m.counters (first :: tail) (m.writeVideoFrame frame).1.counters ∧
      (m.writeVideoFrame frame).1 = { m with videoCc := (m.writeVideoFrame frame).1.videoCc } := by
  obtain ⟨pts, hpts⟩ : ∃ pts, frame.timestamp.toUInt64 = pts := ⟨_, rfl⟩
  have hlen := length_videoPes frame
  have hne : videoPes frame ≠ [] := by
    intro hnil
    rw [hnil] at hlen
    simp at hlen
    omega
  obtain ⟨k, hk⟩ : ∃ k, (videoPes frame).length = k + 1 := ⟨(videoPes frame).length - 1, by omega⟩
  have hstep : m.writeVideoFrame frame =
      ((videoLoop pts k { m with videoCc := m.videoCc + 1 } false ((videoPes frame).drop 184)).1,
        (m.makeVideoTsPacket true (videoPes frame) (some pts)).2 ++
          (videoLoop pts k { m with videoCc := m.videoCc + 1 } false ((videoPes frame).drop 184)).2) := by
    have hunfold : m.writeVideoFrame frame = videoLoop pts (videoPes frame).length m true (videoPes frame) := by
      rw [writeVideoFrame, if_pos hvideo, ← hpts]
      rfl
    -- a PES packet below 184 bytes is used up by the first turn
    rw [hunfold, hk, videoLoop, if_neg hne, ← drop_min]
    rfl
  have hfuel : ((videoPes frame).drop 184).length ≤ k := by
    rw [length_drop]
    omega
  have hcarries := m.makeVideoTsPacket_start pts hne
  rcases videoLoop_next pts k { m with videoCc := m.videoCc + 1 } _ hfuel with
    ⟨tail, hout, hcont, hcount, hmux⟩
  refine ⟨_, tail, ?_, hcarries, hcont, ?_, ?_⟩
  · rw [hstep, hout, flatten_cons]
  · rw [hstep]
    exact (counted_video hcarries).append hcount
  · rw [hstep, hmux]

/-! ## Audio frames and tables -/

def audioPes (frame : MediaFrame) : Bytes :=
  PesHeader.toBytes
    { streamId := 0xC0
      pesPacketLength := UInt16.ofNat (3 + frame.data.length)
      pts := some frame.timestamp.toUInt64
      dts := none } ++
    frame.data

theorem writeAudioFrame_eq (m : TsMuxer) (frame : MediaFrame) (haudio : m.hasAudio = true) :
    m.writeAudioFrame frame =
      ({ m with audioCc := m.audioCc + 1 },
        (makeTsPacket audioPid true (audioPes frame) m.audioCc).1) := by
  rw [writeAudioFrame, if_pos haudio]
  rfl

/-! ## Runs -/

/-- `r` is the result of an operation on `m` that writes whole packets with running counters, and they
are valid exactly when `ok` holds. -/
def Emits (m : TsMuxer) (r : TsMuxer × Bytes) (ok : Prop) : Prop :=
  r.1.hasVideo = m.hasVideo ∧
    ∃ ps, r.2 = ps.flatten ∧ (∀ p ∈ ps, p.length = 188) ∧
      Mpegts.Counted m.counters ps r.1.counters ∧ ((∀ p ∈ ps, Mpegts.Valid p) ↔ ok)

theorem Emits.append {r r' : TsMuxer × Bytes} {ok ok' : Prop} (h : Emits m r ok)
    (h' : Emits r.1 r' ok') : Emits m (r'.1, r.2 ++ r'.2) (ok ∧ ok') := by
  rcases h with ⟨hvideo, ps, hout, hlen, hcount, hvalid⟩
  rcases h' with ⟨hvideo', ps', hout', hlen', hcount', hvalid'⟩
  refine ⟨hvideo'.trans hvideo, ps ++ ps', ?_, ?_, hcount.append hcount', ?_⟩
  · rw [flatten_append, hout, hout']
  · rw [forall_mem_append]
    exact ⟨hlen, hlen'⟩
  · rw [forall_mem_append, hvalid, hvalid']

theorem Emits.nothing (m : TsMuxer) : Emits m (m, []) True := by
  refine ⟨rfl, [], rfl, ?_, Counted.nil _, ?_⟩
  · simp
  · simp

theorem Emits.packet (hcarries : Carries p start id control counter data) (hcontrol : control = 1 ∨ control = 3)
    (hcount : Counted m.counters [p] m'.counters) (hvideo : m'.hasVideo = m.hasVideo) :
    Emits m (m', p) True := by
  refine ⟨hvideo, [p], ?_, ?_, hcount, ?_⟩
  · simp
  · simpa using hcarries.length
  · simpa using hcarries.valid hcontrol

theorem emits_writePatPmt (m : TsMuxer) : Emits m m.writePatPmt True := by
  rcases makeTsPacket_start (.inl rfl) patData m.patCc with ⟨_, hcontrol, hpat⟩
  rcases makeTsPacket_start (.inr (.inl rfl)) m.pmtData m.pmtCc with ⟨_, hcontrol', hpmt⟩
  have h1 : Emits m ({ m with patCc := m.patCc + 1 }, (makeTsPacket patPid true patData m.patCc).1)
      True :=
    Emits.packet hpat hcontrol (.of_carries hpat rfl (succ_mod _) fun id hne => by simp [counters, hne]) rfl
  have h2 : Emits { m with patCc := m.patCc + 1 }
      ({ m with patCc := m.patCc + 1, pmtCc := m.pmtCc + 1, patPmtWritten := true },
        (makeTsPacket pmtPid true m.pmtData m.pmtCc).1) True := by
    exact Emits.packet hpmt hcontrol' (.of_carries hpmt rfl (succ_mod _) fun id hne => by simp [counters, hne]) rfl
  have h := h1.append h2
  rwa [and_self] at h

def FrameValid (hasVideo : Bool) (frame : MediaFrame) : Prop :=
  frame.kind = .video → hasVideo = true → (ensureH264AnnexB frame.data).length < 350

theorem emits_writeFrameInner (m : TsMuxer) (frame : MediaFrame) :
    Emits m (m.writeFrameInner frame) (FrameValid m.hasVideo frame) := by
  cases hkind : frame.kind with
  | video =>
    cases hvideo : m.hasVideo with
    | true =>
      rcases m.writeVideoFrame_packets frame hvideo with
        ⟨first, tail, hout, hcarries, hcont, hcount, hmux⟩
      simp only [writeFrameInner, hkind]
      refine ⟨?_, first :: tail, hout, ?_, hcount, ?_⟩
      · rw [hmux]
      · rw [forall_mem_cons]
        exact ⟨hcarries.length, hcont.length⟩
      · -- 18 header bytes, so 166 bytes of data lie before the second packet
        have hlen := length_videoPes frame
        rw [forall_mem_cons, hcont.valid, length_drop, hlen]
        simp only [FrameValid, hkind, true_implies]
        constructor
        · intro h
          omega
        · intro h
          exact ⟨hcarries.valid (.inr rfl), by omega⟩
    | false =>
      have hnothing : m.writeFrameInner frame = (m, []) := by simp [writeFrameInner, hkind, writeVideoFrame, hvideo]
      rw [hnothing]
      have h := Emits.nothing m
      simpa [FrameValid] using h
  | audio =>
    have htrivial : FrameValid m.hasVideo frame ↔ True := by simp [FrameValid, hkind]
    rw [htrivial]
    cases haudio : m.hasAudio with
    | true =>
      rcases makeTsPacket_start (.inr (.inr (.inr rfl))) (audioPes frame) m.audioCc with
        ⟨_, hcontrol, hcarries⟩
      simp only [writeFrameInner, hkind, writeAudioFrame_eq m frame haudio]
      exact Emits.packet hcarries hcontrol (.of_carries hcarries rfl (succ_mod _) fun id hne => by simp [counters, hne])
        rfl
    | false =>
      have hnothing : m.writeFrameInner frame = (m, []) := by simp [writeFrameInner, hkind, writeAudioFrame, haudio]
      rw [hnothing]
      exact Emits.nothing m

theorem emits_writeFrame (m : TsMuxer) (frame : MediaFrame) :
    Emits m (m.writeFrame frame) (FrameValid m.hasVideo frame) := by
  cases hwritten : m.patPmtWritten with
  | true =>
    rw [writeFrame, if_pos hwritten]
    exact emits_writeFrameInner m frame
  | false =>
    have htables := emits_writePatPmt m
    have hframe := emits_writeFrameInner m.writePatPmt.1 frame
    have hvideo : m.writePatPmt.1.hasVideo = m.hasVideo := rfl
    rw [hvideo] at hframe
    have h := htables.append hframe
    simpa [writeFrame, hwritten] using h

inductive MuxCall
  | writePatPmt
  | writeFrame (frame : MediaFrame)
  deriving DecidableEq, Repr

def call (m : TsMuxer) : MuxCall → TsMuxer × Bytes
  | .writePatPmt => m.writePatPmt
  | .writeFrame frame => m.writeFrame frame

def run : TsMuxer → List MuxCall → TsMuxer × Bytes
  | m, [] => (m, [])
  | m, c :: cs => ((run (m.call c).1 cs).1, (m.call c).2 ++ (run (m.call c).1 cs).2)

theorem emits_run (m : TsMuxer) (calls : List MuxCall) :
    Emits m (m.run calls) (∀ frame, .writeFrame frame ∈ calls → FrameValid m.hasVideo frame) := by
  induction calls generalizing m with
  | nil =>
    have h := Emits.nothing m
    simpa [run] using h
  | cons c cs ih =>
    have hrest := ih (m.call c).1
    cases c with
    | writePatPmt =>
      have h := (emits_writePatPmt m).append hrest
      have hvideo : (m.call .writePatPmt).1.hasVideo = m.hasVideo := rfl
      rw [hvideo, true_and] at h
      simpa [run, call] using h
    | writeFrame frame =>
      have hstep := emits_writeFrame m frame
      have hvideo : (m.call (.writeFrame frame)).1.hasVideo = m.hasVideo := hstep.1
      have h := hstep.append hrest
      rw [hvideo] at h
      simpa [run, call, forall_eq_or_imp, or_imp, forall_and] using h

/-- The output of a run is a valid transport stream exactly when every video frame that is written
has fewer than 350 bytes: from there on its second packet is full. -/
theorem run_validStream_iff (videoCodec audioCodec : CodecType) (calls : List MuxCall) :
    Mpegts.ValidStream ((new videoCodec audioCodec).run calls).2 ↔
      ∀ frame, .writeFrame frame ∈ calls → frame.kind = .video → isVideoCodec videoCodec = true →
        (ensureH264AnnexB frame.data).length < 350 := by
  rcases emits_run (new videoCodec audioCodec) calls with ⟨_, ps, hout, hlen, hcount, hvalid⟩
  have hpackets : packets ((new videoCodec audioCodec).run calls).2 = ps := by
    rw [hout]
    exact packets_flatten hlen
  constructor
  · -- the packets of the stream are the ones that were emitted
    intro hstream
    have hall := hstream.valid
    rw [hpackets] at hall
    exact hvalid.1 hall
  · intro hok
    refine ⟨?_, ?_⟩
    · rw [hpackets]
      exact hvalid.2 hok
    · rw [hpackets]
      exact hcount.continuous

def frame350 : MediaFrame :=
  MediaFrame.video .h264 0 ([0, 0, 0, 1] ++ List.replicate 346 5) 1 true

/-- PAT, PMT and two video packets; the last one has control bits `00`. -/
theorem full_packet_not_valid :
    (Mpegts.packets ((new .h264 .aac).run [.writeFrame frame350]).2).map Mpegts.afc = [3, 3, 3, 0] ∧
      ¬ Mpegts.ValidStream ((new .h264 .aac).run [.writeFrame frame350]).2 := by
  have hafc : (packets ((new .h264 .aac).run [.writeFrame frame350]).2).map afc = [3, 3, 3, 0] := by decide +kernel
  refine ⟨hafc, ?_⟩
  intro hstream
  have hmem : (0 : UInt8) ∈
      (packets ((new .h264 .aac).run [.writeFrame frame350]).2).map afc := by
    rw [hafc]
    decide
  rcases mem_map.1 hmem with ⟨p, hp, hzero⟩
  have hcontrol := (hstream.valid p hp).control
  rw [hzero] at hcontrol
  exact absurd hcontrol (by decide)

end TsMuxer

end LingVoice.LmProtocol

import LingVoice.LmDepacketizer.Opus
import LingVoice.LmProtocol.TsValidity
import LingVoice.LmProtocol.Srt
import Mathlib.Data.UInt
import Mathlib.Tactic.IntervalCases

/-!
# TsRoundTrip — what `SrtDemuxer` gets out of the packets of `TsMuxer`

The demuxer's PES buffers are followed frame by frame.  A video frame arrives without its bytes 158 to
165, which lie between the 176 bytes the first packet carries and the 184 the loop counts; an audio
frame arrives cut to 170 bytes, and an empty one is not given out at all.
-/

namespace LingVoice.LmProtocol

open Lib LmCore List PesHeader TsMuxer Lib.Mpegts

/-! ## Timestamps -/

/-- Every bit of a timestamp of 33 bits is in one of the five bytes, beside the marker bits. -/
theorem decodePts_timestampBytes {ts : UInt64} (hts : ts.toNat < 2 ^ 33) : decodePts (timestampBytes 0x21 ts) = ts := by
  have hhigh (i : Nat) (hi : 33 ≤ i) : ts.toBitVec.getLsbD i = false :=
    Nat.testBit_lt_two_pow (Nat.lt_of_lt_of_le hts (Nat.pow_le_pow_right (by decide) hi))
  apply UInt64.toBitVec_inj.1
  apply BitVec.eq_of_getLsbD_eq
  intro i hi
  -- the bit as one of the bytes, behind the masks and shifts
  simp only [decodePts, timestampBytes, getD_cons_zero, getD_cons_succ, UInt64.toBitVec_or, UInt64.toBitVec_and,
    UInt64.toBitVec_shiftLeft, UInt64.toBitVec_shiftRight, UInt8.toBitVec_toUInt64, UInt64.toBitVec_toUInt8,
    UInt8.toBitVec_or, BitVec.getLsbD_or, BitVec.getLsbD_and, BitVec.getLsbD_setWidth, BitVec.getLsbD_shiftLeft,
    BitVec.getLsbD_ushiftRight, UInt64.toBitVec_ofNat, UInt8.toBitVec_ofNat, BitVec.shiftLeft_eq', BitVec.ushiftRight_eq']
  generalize ts.toBitVec.getLsbD = bit at hhigh ⊢
  interval_cases i <;> simp [hhigh]

/-! ## PES packets -/

/-- A header of the short layout that announces a PTS: its first five bytes after the length. -/
theorem parsePes_short {streamId l1 l2 flags n : UInt8} {pts rest : Bytes} (data : Bytes)
    (hflags : (flags &&& 0x80 != 0) = true) (hshort : (n &&& 0xC0 != 0) = false)
    (hpts : pts.length = 5) (hn : n.toNat = 5 + rest.length) :
    parsePes ([0x00, 0x00, 0x01, streamId, l1, l2, flags, n] ++ (pts ++ rest) ++ data) =
      (data, some (decodePts pts)) := by
  obtain ⟨pes, hpes⟩ : ∃ pes, [0x00, 0x00, 0x01, streamId, l1, l2, flags, n] ++ (pts ++ rest) ++ data = pes :=
    ⟨_, rfl⟩
  have hlength : pes.length = 8 + n.toNat + data.length := by
    simp only [← hpes, length_append, length_cons, length_nil, hpts]
    omega
  have hat : ptsAt true pes 8 = some (decodePts pts) := by
    have hfield : (pes.drop 8).take 5 = pts := by
      rw [← hpes, ← hpts]
      simp
    have hfits : 8 + 5 ≤ 8 + n.toNat + data.length := by omega
    simp only [ptsAt, hlength, hfits, hfield, decide_true, Bool.and_self, if_true]
  have hdrop : pes.drop (8 + n.toNat) = data := by
    rw [← hpes]
    apply drop_left'
    simp only [length_append, length_cons, length_nil, hpts]
    omega
  have h6 : pes.getD 6 0 = flags := hpes ▸ rfl
  have h7 : pes.getD 7 0 = n := hpes ▸ rfl
  -- long enough, and the start code is there
  rw [hpes, parsePes, if_neg (by omega), if_neg (by simp [← hpes])]
  simp only [h6, h7, hshort, hflags, hat, hdrop, Bool.false_eq_true, if_false]
  rw [if_neg (by omega)]

variable (streamId : UInt8) (length : UInt16)

/-- The headers of the muxer are of that layout, with a DTS or without. -/
theorem parsePes_toBytes {pts : UInt64} (hpts : pts.toNat < 2 ^ 33) (dts : Option UInt64) (data : Bytes) :
    parsePes (toBytes ⟨streamId, length, some pts, dts⟩ ++ data) = (data, some pts) := by
  have hshort {flags n : UInt8} {rest : Bytes} := @parsePes_short streamId (length >>> 8).toUInt8
    (length &&& 0xFF).toUInt8 flags n (timestampBytes 0x21 pts) rest data
  rw [decodePts_timestampBytes hpts] at hshort
  cases dts with
  | none => simpa [toBytes] using @hshort 0x80 5 [] rfl rfl rfl rfl
  | some dts => simpa [toBytes] using @hshort (0x80 ||| 0x40) 10 (timestampBytes 0x11 dts) rfl rfl rfl rfl

/-! ## One packet in the demuxer -/

namespace SrtDemuxer

variable {δ : Type} {p data : Bytes} {start : Bool} {id : UInt16} {control counter : UInt8} (d : SrtDemuxer δ)

/-- A flush is followed by a new buffer and a new PTS, so only its frames are left of it. -/
theorem restart_video (pes : Bytes) (pts : Option UInt64) :
    { d.flushVideoPes.1 with videoPts := pts, videoPes := pes } =
      { d with videoPts := pts, videoPes := pes } := by
  unfold flushVideoPes
  split
  · rfl
  · rfl

theorem restart_audio (pes : Bytes) (pts : Option UInt64) :
    { d.flushAudioPes.1 with audioPts := pts, audioPes := pes } =
      { d with audioPts := pts, audioPes := pes } := by
  unfold flushAudioPes
  split
  · rfl
  · rfl

/-- What a packet with a payload does, in terms of its fields. -/
theorem demuxPacket_carries (h : Carries p start id control counter data) (hcontrol : control ≠ 2) :
    d.demuxPacket p =
      if id ≠ tsVideoPid ∧ id ≠ tsAudioPid then
        (d, [])
      else if start then
        if id = tsVideoPid then
          ({ d with videoPts := (parsePes data).2, videoPes := (parsePes data).1 }, d.flushVideoPes.2)
        else
          ({ d with
              audioPts := (parsePes (skipPointerField data)).2
              audioPes := (parsePes (skipPointerField data)).1 }, d.flushAudioPes.2)
      else if id = tsVideoPid then
        ({ d with videoPes := d.videoPes ++ data }, [])
      else
        ({ d with audioPes := d.audioPes ++ data }, []) := by
  -- the source computes the fields inline; each is the one of the packet
  have hsync : p.getD 0 0 = 0x47 := h.sync
  have hpusi : (p.getD 1 0 &&& 0x40 != 0) = start := h.pusi
  have hpid : (p.getD 1 0 &&& 0x1F).toUInt16 <<< 8 ||| (p.getD 2 0).toUInt16 = id := h.pid
  have hafc : (p.getD 3 0 >>> 4) &&& 0x03 = control := h.afc
  have hinside : ¬ tsPktSize ≤ if control = 0x02 ∨ control = 0x03 then 5 + (p.getD 4 0).toNat else 4 := by
    have hoffset := h.inside
    rw [payloadOffset, h.afc] at hoffset
    exact Nat.not_le_of_lt hoffset
  have hdata : p.drop (if control = 0x02 ∨ control = 0x03 then 5 + (p.getD 4 0).toNat else 4) = data := by
    have hpayload := h.payload
    rw [payload, payloadOffset, h.afc] at hpayload
    exact hpayload
  simp only [demuxPacket, hsync, hpusi, hpid, hafc, hinside, hdata, ne_eq, not_true, if_false]
  rw [if_neg hcontrol, d.restart_video, d.restart_audio]

/-! ## A sequence of packets -/

def demuxPackets (d : SrtDemuxer δ) : List Bytes → SrtDemuxer δ × List MediaFrame
  | [] => (d, [])
  | p :: ps =>
    ((demuxPackets (d.demuxPacket p).1 ps).1,
      (d.demuxPacket p).2 ++ (demuxPackets (d.demuxPacket p).1 ps).2)

theorem demuxPackets_append (ps qs : List Bytes) :
    d.demuxPackets (ps ++ qs) =
      (((d.demuxPackets ps).1.demuxPackets qs).1,
        (d.demuxPackets ps).2 ++ ((d.demuxPackets ps).1.demuxPackets qs).2) := by
  induction ps generalizing d with
  | nil => rfl
  | cons p ps ih => simp only [cons_append, demuxPackets, ih, append_assoc]

theorem demuxLoop_flatten (n : Nat) (d : SrtDemuxer δ) (ps : List Bytes)
    (hps : ∀ p ∈ ps, p.length = tsPktSize) (hfuel : ps.flatten.length ≤ n) :
    demuxLoop n d ps.flatten = d.demuxPackets ps := by
  induction ps generalizing d n with
  | nil =>
    cases n with
    | zero | succ n => rfl
  | cons p ps ih =>
    rw [forall_mem_cons] at hps
    rw [flatten_cons, length_append, hps.1] at hfuel
    have hsize : tsPktSize = 188 := rfl
    cases n with
    | zero => omega
    | succ n =>
      -- the loop cuts where the packets were put together
      have hfits : tsPktSize ≤ (p ++ ps.flatten).length := by
        rw [length_append, hps.1]
        omega
      have htake : (p ++ ps.flatten).take tsPktSize = p := take_left' hps.1
      have hdrop : (p ++ ps.flatten).drop tsPktSize = ps.flatten := drop_left' hps.1
      rw [flatten_cons, demuxLoop, if_pos hfits, htake, hdrop]
      simp only [ih n (d.demuxPacket p).1 hps.2 (by omega), demuxPackets]

variable {ps : List Bytes} {header bytes : Bytes} {r : SrtDemuxer δ × List MediaFrame} {m : TsMuxer}
  {kind : TrackKind}

/-- A payload of whole packets that begins with a sync byte is taken for MPEG-TS. -/
theorem isMpegTs_flatten (hps : ∀ q ∈ p :: ps, q.length = tsPktSize) (hsync : sync p = 0x47) :
    isMpegTs (p :: ps).flatten = true := by
  have hlen : (p :: ps).flatten.length % tsPktSize = 0 := by
    rw [length_flatten hps]
    exact Nat.mul_mod_right _ _
  have hp : p.length = tsPktSize := hps p mem_cons_self
  cases p with
  | nil => exact absurd hp (by decide)
  | cons b bytes =>
    have hb : b = 0x47 := hsync
    subst hb
    rw [flatten_cons, cons_append] at hlen ⊢
    rw [isMpegTs, hlen]
    rfl

/-! ## The packets of a frame -/

def deliveredVideo (data : Bytes) : Bytes :=
  data.take 158 ++ data.drop 166

def deliveredAudio (data : Bytes) : Bytes :=
  data.take 170

theorem demuxPackets_continues (h : ∀ p ∈ ps, ∃ control counter chunk,
      control ≠ 2 ∧ Carries p false videoPid control counter chunk) :
    d.demuxPackets ps = ({ d with videoPes := d.videoPes ++ (ps.map payload).flatten }, []) := by
  induction ps generalizing d with
  | nil => simp [demuxPackets]
  | cons p ps ih =>
    rw [forall_mem_cons] at h
    rcases h.1 with ⟨control, counter, chunk, hcontrol, hcarries⟩
    have hstep : d.demuxPacket p = ({ d with videoPes := d.videoPes ++ chunk }, []) :=
      d.demuxPacket_carries hcarries hcontrol
    simp only [demuxPackets, hstep, ih _ h.2, map_cons, flatten_cons, hcarries.payload, append_assoc, append_nil]

theorem toNat_timestamp_lt (ts : UInt32) : ts.toUInt64.toNat < 2 ^ 33 := by
  have hlt := ts.toNat_lt
  rw [UInt32.toNat_toUInt64]
  omega

variable (frame : MediaFrame)

/-- The first packet carries 158 bytes of the frame and the others those from 166 on. -/
theorem demuxPackets_video {first : Bytes} {tail : List Bytes}
    (hfirst : Carries first true videoPid 3 counter ((TsMuxer.videoPes frame).take 176))
    (htail : TsMuxer.Continues tail ((TsMuxer.videoPes frame).drop 184)) :
    d.demuxPackets (first :: tail) =
      ({ d with
          videoPts := some frame.timestamp.toUInt64
          videoPes := deliveredVideo (ensureH264AnnexB frame.data) }, d.flushVideoPes.2) := by
  -- 176 and 184 bytes into the PES packet, less its 18 header bytes
  have hrest : (TsMuxer.videoPes frame).drop 184 = (ensureH264AnnexB frame.data).drop 166 := rfl
  have hparse : parsePes ((TsMuxer.videoPes frame).take 176) =
      ((ensureH264AnnexB frame.data).take 158, some frame.timestamp.toUInt64) :=
    parsePes_toBytes 0xE0 0 (toNat_timestamp_lt frame.timestamp) _ _
  have hstep : d.demuxPacket first =
      ({ d with
          videoPts := some frame.timestamp.toUInt64
          videoPes := (ensureH264AnnexB frame.data).take 158 }, d.flushVideoPes.2) := by
    have h := d.demuxPacket_carries hfirst (by decide)
    rw [hparse] at h
    exact h
  simp only [demuxPackets, hstep, demuxPackets_continues _ htail.carries, htail.payload, hrest,
    deliveredVideo, append_nil]

/-- The pointer field in front of the PES header is skipped again. -/
theorem demuxPackets_audio
    (h : Carries p true audioPid control counter ((0x00 :: TsMuxer.audioPes frame).take 184))
    (hcontrol : control ≠ 2) :
    d.demuxPackets [p] =
      ({ d with
          audioPts := some frame.timestamp.toUInt64
          audioPes := deliveredAudio frame.data }, d.flushAudioPes.2) := by
  -- the pointer is zero, and no start code stands in front of it
  have hskip : skipPointerField ((0x00 :: TsMuxer.audioPes frame).take 184) = (TsMuxer.audioPes frame).take 183 := by
    simp [skipPointerField, TsMuxer.audioPes, toBytes]
  have hparse : parsePes ((TsMuxer.audioPes frame).take 183) = (frame.data.take 170, some frame.timestamp.toUInt64) :=
    parsePes_toBytes 0xC0 _ (toNat_timestamp_lt frame.timestamp) _ _
  rw [← hskip] at hparse
  have hstep := d.demuxPacket_carries h hcontrol
  rw [hparse] at hstep
  simp only [demuxPackets, hstep, append_nil]
  rfl

/-! ## One call of `write_frame` -/

/-- `bytes` are whole packets that take the demuxer from `d` to `r.1` and give out `r.2`. -/
def Conveys (d : SrtDemuxer δ) (bytes : Bytes) (r : SrtDemuxer δ × List MediaFrame) : Prop :=
  ∃ first ps, bytes = (first :: ps).flatten ∧ (∀ q ∈ first :: ps, q.length = 188) ∧
    Mpegts.sync first = 0x47 ∧ d.demuxPackets (first :: ps) = r

theorem Conveys.append {d : SrtDemuxer δ} {bytes' : Bytes}
    {r' : SrtDemuxer δ × List MediaFrame} (h : Conveys d bytes r) (h' : Conveys r.1 bytes' r') :
    Conveys d (bytes ++ bytes') (r'.1, r.2 ++ r'.2) := by
  rcases h with ⟨first, ps, rfl, hlen, hsync, rfl⟩
  rcases h' with ⟨first', ps', rfl, hlen', _, rfl⟩
  refine ⟨first, ps ++ first' :: ps', ?_, ?_, hsync, ?_⟩
  · rw [← cons_append, flatten_append]
  · rw [← cons_append, forall_mem_append]
    exact ⟨hlen, hlen'⟩
  · rw [← cons_append, demuxPackets_append]

theorem Conveys.pushData [Depacketizer δ] {d : SrtDemuxer δ} (hheader : header.length = 16) (h : Conveys d bytes r) :
    d.pushData (header ++ bytes) = r := by
  rcases h with ⟨first, ps, rfl, hlen, hsync, rfl⟩
  have hlong : ¬ (header ++ (first :: ps).flatten).length < 16 := by
    rw [length_append, hheader]
    omega
  rw [SrtDemuxer.pushData, if_neg hlong, drop_left' hheader, if_pos (isMpegTs_flatten hlen hsync)]
  exact demuxLoop_flatten _ d _ hlen (Nat.le_refl _)

theorem conveys_table (hid : id ≠ tsVideoPid ∧ id ≠ tsAudioPid)
    (h : ∃ control, (control = 1 ∨ control = 3) ∧ Carries p start id control counter data) :
    Conveys d p (d, []) := by
  rcases h with ⟨control, hcontrol, hcarries⟩
  refine ⟨p, [], by simp, by simpa using hcarries.length, hcarries.sync, ?_⟩
  simp only [demuxPackets, d.demuxPacket_carries hcarries (ne_two_of_payload hcontrol), if_pos hid, append_nil]

theorem conveys_writePatPmt (m : TsMuxer) : Conveys d m.writePatPmt.2 (d, []) := by
  have hpat := conveys_table d (by decide) (makeTsPacket_start (.inl rfl) patData m.patCc)
  have hpmt := conveys_table d (by decide)
    (makeTsPacket_start (.inr (.inl rfl)) m.pmtData m.pmtCc)
  exact hpat.append hpmt

def received (d : SrtDemuxer δ) (frame : MediaFrame) : SrtDemuxer δ :=
  match frame.kind with
  | .video =>
    { d with
      videoPts := some frame.timestamp.toUInt64
      videoPes := deliveredVideo (ensureH264AnnexB frame.data) }
  | .audio =>
    { d with
      audioPts := some frame.timestamp.toUInt64
      audioPes := deliveredAudio frame.data }

def released (d : SrtDemuxer δ) (frame : MediaFrame) : List MediaFrame :=
  match frame.kind with
  | .video => d.flushVideoPes.2
  | .audio => d.flushAudioPes.2

theorem conveys_writeFrameInner {m : TsMuxer} (hvideo : m.hasVideo = true)
    (haudio : m.hasAudio = true) (frame : MediaFrame) :
    Conveys d (m.writeFrameInner frame).2 (d.received frame, d.released frame) ∧
      (m.writeFrameInner frame).1.hasVideo = true ∧ (m.writeFrameInner frame).1.hasAudio = true := by
  cases hkind : frame.kind with
  | video =>
    rcases m.writeVideoFrame_packets frame hvideo with ⟨first, tail, hout, hfirst, htail, -, hmux⟩
    simp only [writeFrameInner, received, released, hkind]
    refine ⟨⟨first, tail, hout, ?_, hfirst.sync, d.demuxPackets_video frame hfirst htail⟩, ?_⟩
    · rw [forall_mem_cons]
      exact ⟨hfirst.length, htail.length⟩
    · rw [hmux]
      exact ⟨hvideo, haudio⟩
  | audio =>
    rcases makeTsPacket_start (.inr (.inr (.inr rfl))) (TsMuxer.audioPes frame) m.audioCc with
      ⟨control, hcontrol, hcarries⟩
    simp only [writeFrameInner, received, released, hkind, m.writeAudioFrame_eq frame haudio]
    refine ⟨⟨_, [], by simp, by simpa using hcarries.length, hcarries.sync, ?_⟩, hvideo, haudio⟩
    exact d.demuxPackets_audio frame hcarries (ne_two_of_payload hcontrol)

theorem conveys_writeFrame (hvideo : m.hasVideo = true) (haudio : m.hasAudio = true) (frame : MediaFrame) :
    Conveys d (m.writeFrame frame).2 (d.received frame, d.released frame) ∧
      (m.writeFrame frame).1.hasVideo = true ∧ (m.writeFrame frame).1.hasAudio = true := by
  cases hwritten : m.patPmtWritten with
  | true =>
    rw [writeFrame, if_pos hwritten]
    exact d.conveys_writeFrameInner hvideo haudio frame
  | false =>
    have hframe := @conveys_writeFrameInner δ d m.writePatPmt.1 hvideo haudio frame
    have h := (d.conveys_writePatPmt m).append hframe.1
    simpa [writeFrame, hwritten, hframe.2] using h

/-! ## Whole runs -/

/-- Every frame is written by the muxer, wrapped behind its header and handed to the demuxer; the
result is all frames the demuxer gives out. -/
def relay [Depacketizer δ] :
    TsMuxer → SrtDemuxer δ → List (Bytes × MediaFrame) → List MediaFrame
  | _, _, [] => []
  | m, d, (header, frame) :: rest =>
    let (m, bytes) := m.writeFrame frame
    let (d, frames) := d.pushData (header ++ bytes)
    frames ++ relay m d rest

def track (kind : TrackKind) (frames : List MediaFrame) : List (UInt32 × Bytes) :=
  (frames.filter (fun frame => frame.kind = kind)).map (fun frame => (frame.timestamp, frame.data))

theorem track_append (kind : TrackKind) (frames more : List MediaFrame) :
    track kind (frames ++ more) = track kind frames ++ track kind more := by
  simp [track]

theorem track_cons (kind : TrackKind) (frame : MediaFrame) (frames : List MediaFrame) :
    track kind (frame :: frames) =
      if frame.kind = kind then (frame.timestamp, frame.data) :: track kind frames
      else track kind frames := by
  by_cases hkind : frame.kind = kind
  · simp [track, hkind]
  · simp [track, hkind]

def pending (d : SrtDemuxer δ) : TrackKind → UInt32 × Bytes
  | .video => ((d.videoPts.getD 0).toUInt32, d.videoPes)
  | .audio => ((d.audioPts.getD 0).toUInt32, d.audioPes)

/-- A frame's entry in its track on the way out. -/
def deliver : TrackKind → UInt32 × Bytes → UInt32 × Bytes
  | .video, (timestamp, data) => (timestamp, deliveredVideo (ensureH264AnnexB data))
  | .audio, (timestamp, data) => (timestamp, deliveredAudio data)

/-- Only a track entry with data is given out. -/
def giveOut (entries : List (UInt32 × Bytes)) : List (UInt32 × Bytes) :=
  entries.filter (fun entry => entry.2 ≠ [])

theorem track_released (kind : TrackKind) :
    track kind (d.released frame) = if frame.kind = kind then giveOut [d.pending kind] else [] := by
  cases hkind : frame.kind with
  | video =>
    by_cases hnil : d.videoPes = [] <;> cases kind <;>
      simp [released, hkind, flushVideoPes, hnil, track, giveOut, pending, MediaFrame.video]
  | audio =>
    by_cases hnil : d.audioPes = [] <;> cases kind <;>
      simp [released, hkind, flushAudioPes, hnil, track, giveOut, pending, MediaFrame.audio]

theorem pending_received (kind : TrackKind) :
    (d.received frame).pending kind =
      if frame.kind = kind then deliver kind (frame.timestamp, frame.data) else d.pending kind := by
  cases hkind : frame.kind <;> cases kind <;> simp [received, hkind, pending, deliver]

/-- What comes out on a track: what was pending at first, then every frame as it is delivered, all but
the last one of these, and nothing for an entry without data. -/
theorem track_relay [Depacketizer δ] (kind : TrackKind) (hvideo : m.hasVideo = true)
    (haudio : m.hasAudio = true) (d : SrtDemuxer δ) (sends : List (Bytes × MediaFrame))
    (hheader : ∀ send ∈ sends, send.1.length = 16) :
    track kind (relay m d sends) =
      giveOut (d.pending kind :: (track kind (sends.map Prod.snd)).map (deliver kind)).dropLast := by
  induction sends generalizing m d with
  | nil => rfl
  | cons send rest ih =>
    rcases send with ⟨header, frame⟩
    rw [forall_mem_cons] at hheader
    obtain ⟨hconveys, hvideo', haudio'⟩ := d.conveys_writeFrame hvideo haudio frame
    have hpush := hconveys.pushData hheader.1
    have hstep : relay m d ((header, frame) :: rest) =
        d.released frame ++ relay (m.writeFrame frame).1 (d.received frame) rest := by
      simp only [relay, hpush]
    rw [hstep, track_append, ih hvideo' haudio' (d.received frame) hheader.2, track_released, pending_received, map_cons,
      track_cons]
    by_cases hkind : frame.kind = kind
    · -- the pending entry goes out and the frame takes its place
      rw [if_pos hkind, if_pos hkind, if_pos hkind, giveOut, giveOut, ← filter_append, map_cons, dropLast_cons_cons]
      rfl
    · -- a frame of the other track moves nothing on this one
      rw [if_neg hkind, if_neg hkind, if_neg hkind, nil_append]

/-! ## When the round trip holds -/

theorem giveOut_map_eq_iff {f : UInt32 × Bytes → UInt32 × Bytes} (entries : List (UInt32 × Bytes)) :
    giveOut (entries.map f) = entries ↔ ∀ entry ∈ entries, f entry = entry ∧ entry.2 ≠ [] := by
  constructor
  · intro h
    have hnonempty : ∀ entry ∈ entries, entry.2 ≠ [] := by
      rw [← h]
      intro entry hentry
      simpa [giveOut] using (mem_filter.1 hentry).2
    -- nothing was dropped, so the entries are the delivered ones in place
    have hlength : (giveOut (entries.map f)).length = (entries.map f).length := by
      rw [h, length_map]
    have hall : giveOut (entries.map f) = entries.map f :=
      filter_sublist.eq_of_length hlength
    have hmap : entries.map f = entries := hall.symm.trans h
    intro entry hentry
    refine ⟨?_, hnonempty entry hentry⟩
    have hid : entries.map f = entries.map id := by rw [hmap, map_id]
    exact map_inj_left.1 hid entry hentry
  · intro h
    have hmap : entries.map f = entries := by
      rw [map_congr_left (fun entry hentry => (h entry hentry).1), map_id']
    rw [hmap, giveOut, filter_eq_self]
    intro entry hentry
    simpa using (h entry hentry).2

theorem deliveredVideo_eq_self_iff (data : Bytes) : deliveredVideo data = data ↔ data.length ≤ 158 := by
  constructor
  · intro h
    have hlength := congrArg length h
    simp only [deliveredVideo, length_append, length_take, length_drop] at hlength
    omega
  · intro h
    rw [deliveredVideo, take_of_length_le h, drop_of_length_le (by omega), append_nil]

section New

variable [Depacketizer δ] (createDepacketizer : CodecType → δ) {videoCodec audioCodec : CodecType}
  (hvideo : isVideoCodec videoCodec = true) (haudio : isVideoCodec audioCodec = false)
  {sends : List (Bytes × MediaFrame)} (hheader : ∀ send ∈ sends, send.1.length = 16)

include hvideo haudio hheader

theorem track_relay_new (kind : TrackKind) :
    track kind (relay (TsMuxer.new videoCodec audioCodec)
        (new createDepacketizer videoCodec audioCodec) sends) =
      giveOut ((track kind (sends.map Prod.snd)).dropLast.map (deliver kind)) := by
  have hflag : (TsMuxer.new videoCodec audioCodec).hasAudio = true := by simp [TsMuxer.new, haudio]
  have hfresh : (new createDepacketizer videoCodec audioCodec).pending kind = (0, []) := by
    cases kind with
    | video | audio => rfl
  rw [track_relay kind hvideo hflag _ sends hheader, hfresh, map_dropLast]
  cases (track kind (sends.map Prod.snd)).map (deliver kind) with
  | nil => rfl
  | cons entry entries =>
    simp [giveOut]

/-- Every frame but the last of each track comes back with its timestamp and data, exactly when none of
those video frames has more than 158 bytes and none of those audio frames is empty or has more than
170. -/
theorem relay_roundTrip_iff
    (hannexB : ∀ send ∈ sends, send.2.kind = .video → hasStartCode send.2.data = true) :
    (∀ kind, track kind (relay (TsMuxer.new videoCodec audioCodec)
        (new createDepacketizer videoCodec audioCodec) sends) =
      (track kind (sends.map Prod.snd)).dropLast) ↔
      (∀ entry ∈ (track .video (sends.map Prod.snd)).dropLast, entry.2.length ≤ 158) ∧
        ∀ entry ∈ (track .audio (sends.map Prod.snd)).dropLast,
          entry.2 ≠ [] ∧ entry.2.length ≤ 170 := by
  have hstart : ∀ entry ∈ (track .video (sends.map Prod.snd)).dropLast,
      hasStartCode entry.2 = true := by
    intro entry hentry
    have hmem := dropLast_subset _ hentry
    simp only [track, mem_map, mem_filter, decide_eq_true_eq] at hmem
    obtain ⟨_, ⟨⟨send, hsend, rfl⟩, hkind⟩, rfl⟩ := hmem
    exact hannexB send hsend hkind
  -- data with a start code goes through `ensure_h264_annex_b` unchanged
  have hvideoTrack : (∀ entry ∈ (track .video (sends.map Prod.snd)).dropLast,
        deliver .video entry = entry ∧ entry.2 ≠ []) ↔
      ∀ entry ∈ (track .video (sends.map Prod.snd)).dropLast, entry.2.length ≤ 158 := by
    refine forall₂_congr ?_
    rintro ⟨timestamp, data⟩ hentry
    have hcode := hstart _ hentry
    rw [deliver, ensureH264AnnexB, if_pos hcode, Prod.mk.injEq, deliveredVideo_eq_self_iff]
    have hne : data ≠ [] := by
      rintro rfl
      cases hcode
    simp [hne]
  have haudioTrack : (∀ entry ∈ (track .audio (sends.map Prod.snd)).dropLast,
        deliver .audio entry = entry ∧ entry.2 ≠ []) ↔
      ∀ entry ∈ (track .audio (sends.map Prod.snd)).dropLast,
        entry.2 ≠ [] ∧ entry.2.length ≤ 170 := by
    refine forall₂_congr ?_
    rintro ⟨timestamp, data⟩ hentry
    rw [deliver, Prod.mk.injEq, deliveredAudio, take_eq_self_iff]
    simp [and_comm]
  rw [← hvideoTrack, ← haudioTrack, ← giveOut_map_eq_iff, ← giveOut_map_eq_iff]
  simp only [track_relay_new createDepacketizer hvideo haudio hheader]
  constructor
  · intro h
    exact ⟨h .video, h .audio⟩
  · intro h kind
    cases kind with
    | video => exact h.1
    | audio => exact h.2

end New

/-- Video frames of `4 + n` and 4 bytes and two audio frames in turn, each behind a zero header. -/
def sends (n : Nat) : List (Bytes × MediaFrame) :=
  [(List.replicate 16 0, MediaFrame.video .h264 3000 ([0, 0, 0, 1] ++ List.replicate n 0x65) 1 true),
    (List.replicate 16 0, MediaFrame.audio .aac 3100 (List.replicate 170 7) 1),
    (List.replicate 16 0, MediaFrame.video .h264 6000 [0, 0, 0, 1] 1 false),
    (List.replicate 16 0, MediaFrame.audio .aac 6100 [8] 1)]

theorem relay_roundTrip_154 :
    track .video (relay (TsMuxer.new .h264 .aac)
        (new (fun _ => LmDepacketizer.OpusDepacketizerBuffered.new) .h264 .aac) (sends 154)) =
      (track .video ((sends 154).map Prod.snd)).dropLast ∧
    track .audio (relay (TsMuxer.new .h264 .aac)
        (new (fun _ => LmDepacketizer.OpusDepacketizerBuffered.new) .h264 .aac) (sends 154)) =
      (track .audio ((sends 154).map Prod.snd)).dropLast := by
  have h := (relay_roundTrip_iff (fun _ => LmDepacketizer.OpusDepacketizerBuffered.new)
    (show isVideoCodec .h264 = true from rfl) (show isVideoCodec .aac = false from rfl)
    (show ∀ send ∈ sends 154, send.1.length = 16 by decide) (by decide)).2 (by decide +kernel)
  exact ⟨h .video, h .audio⟩

/-- A video frame of 159 bytes comes back without its last byte. -/
theorem relay_loses_byte_158 :
    track .video (relay (TsMuxer.new .h264 .aac)
        (new (fun _ => LmDepacketizer.OpusDepacketizerBuffered.new) .h264 .aac) (sends 155)) =
      [(3000, [0, 0, 0, 1] ++ List.replicate 154 0x65)] ∧
      ¬ ∀ kind, track kind (relay (TsMuxer.new .h264 .aac)
          (new (fun _ => LmDepacketizer.OpusDepacketizerBuffered.new) .h264 .aac) (sends 155)) =
        (track kind ((sends 155).map Prod.snd)).dropLast := by
  refine ⟨by decide +kernel, fun h => ?_⟩
  exact absurd (h .video) (by decide +kernel)

end SrtDemuxer

end LingVoice.LmProtocol

import LingVoice.LmDepacketizer.Create
import LingVoice.LmDepacketizer.H264Pieces
import LingVoice.LmProtocol.RtspStream

/-!
# RtspRoundTrip — frames through the remuxer and the demuxer

The bytes that `RtspRemuxer` returns are RTP packets behind their lengths, so the demuxer finds every packet again.
An audio packet is a frame.  The packets of a video frame are raw pieces of it, and no video frame comes back with
its units (`roundTrip_iff`).
-/

namespace LingVoice.LmProtocol

open Lib (be16 be32 byteAt u16At u32At)
open Lib.AnnexB List Lib.Mealy RtspRemuxer
open LmCore
open LmDepacketizer

/-! ## One packet -/

namespace RtspDemuxer

variable {δ : Type} [Depacketizer δ]

def receive (depacketizer : δ) (rtpData : Bytes) : δ × List MediaFrame :=
  if 12 ≤ rtpData.length then depacketize depacketizer rtpData else (depacketizer, [])

theorem handlePacket_eq (d : RtspDemuxer δ) (channel : UInt8) (rtpData : Bytes) :
    d.handlePacket channel rtpData =
      if channel = 0 then
        ({ d with videoDepacketizer := (receive d.videoDepacketizer rtpData).1 },
          (receive d.videoDepacketizer rtpData).2)
      else
        ({ d with audioDepacketizer := (receive d.audioDepacketizer rtpData).1 },
          (receive d.audioDepacketizer rtpData).2) := by
  rw [handlePacket, receive, receive]
  by_cases hlength : 12 ≤ rtpData.length
  · rw [if_pos hlength, if_pos hlength, if_pos hlength]
  · rw [if_neg hlength, if_neg hlength, if_neg hlength]
    split
    · rfl
    · rfl

theorem marker_bit (marker : Bool) (payloadType : UInt8) :
    (((if marker then 0x80 else 0x00) ||| (payloadType &&& 0x7f)) &&& 0x80 != 0) = marker := by
  revert payloadType
  cases marker with
  | true | false => exact Lib.forall_byte (by decide +kernel)

theorem receive_createRtpPacket (depacketizer : δ) (payloadType : UInt8) (marker : Bool) (seq : UInt16)
    (timestamp ssrc : UInt32) (payload : Bytes) :
    receive depacketizer (createRtpPacket payloadType marker seq timestamp ssrc payload) =
      let pushed := Depacketizer.pushPacket depacketizer payload marker seq timestamp
      if pushed.2 = .frameComplete then
        ((Depacketizer.takeFrame pushed.1).1,
          (Depacketizer.takeFrame pushed.1).2.toList.map fun frame => { frame with ssrc := ssrc })
      else
        (pushed.1, []) := by
  generalize hpacket : createRtpPacket payloadType marker seq timestamp ssrc payload = packet
  rw [createRtpPacket] at hpacket
  have hlength : 12 ≤ packet.length := by
    rw [← hpacket]
    simp
    omega
  have hpayload : packet.drop 12 = payload := by
    rw [← hpacket]
    exact drop_left' (by simp)
  have hfields : Lib.StandsAt packet 2 (be16 seq ++ be32 timestamp ++ be32 ssrc) := by
    refine ⟨payload, ?_⟩
    rw [← hpacket]
    rfl
  simp only [Lib.standsAt_append, length_append, Lib.length_be16, Lib.length_be32, Nat.reduceAdd] at hfields
  obtain ⟨⟨hseq, htimestamp⟩, hssrc⟩ := hfields
  have hmarker : (byteAt packet 1 &&& 0x80 != 0) = marker := by
    rw [← hpacket]
    exact marker_bit marker payloadType
  rw [receive, if_pos hlength, depacketize, hseq.u16At, htimestamp.u32At, hssrc.u32At, hmarker, hpayload]

end RtspDemuxer

/-! ## The packets of a frame -/

variable (payloadType : UInt8)

namespace RtspRemuxer

def payloads (payload : Bytes) : List Bytes :=
  if payload.length ≤ maxRtpPayload then [payload] else Lib.chunks maxRtpPayload payload

/-- One packet for every piece, with the marker on the last one. -/
theorem exists_createRtpPackets (startSeq : UInt16) (timestamp ssrc : UInt32) (payload : Bytes) :
    ∃ (front : List (UInt16 × Bytes)) (seq : UInt16) (last : Bytes),
      payloads payload = front.map Prod.snd ++ [last] ∧
        createRtpPackets payloadType startSeq timestamp ssrc payload =
          front.map (fun piece => createRtpPacket payloadType false piece.1 timestamp ssrc piece.2) ++
            [createRtpPacket payloadType true seq timestamp ssrc last] := by
  rw [payloads, createRtpPackets]
  by_cases hlength : payload.length ≤ maxRtpPayload
  · rw [if_pos hlength, if_pos hlength]
    exact ⟨[], startSeq, payload, rfl, rfl⟩
  · rw [if_neg hlength, if_neg hlength]
    obtain ⟨rest, hchunks, hne, _, _⟩ := Lib.exists_chunks (by decide) (Nat.lt_of_not_le hlength)
    obtain ⟨init, last, hinit⟩ : ∃ init last, Lib.chunks maxRtpPayload payload = init ++ [last] := by
      refine ⟨_, _, (dropLast_append_getLast ?_).symm⟩
      rw [hchunks]
      exact cons_ne_nil _ _
    rw [hinit]
    refine ⟨init.zipIdx.map fun chunk => (startSeq + UInt16.ofNat chunk.2, chunk.1),
      startSeq + UInt16.ofNat init.length, last, ?_, ?_⟩
    · rw [map_map]
      exact congrArg (· ++ [last]) (zipIdx_map_fst 0 init).symm
    · have hcount : (init ++ [last]).length - 1 = init.length := by
        rw [length_append, length_singleton, Nat.add_sub_cancel]
      dsimp only
      rw [hcount, zipIdx_append, map_append, map_map]
      congr 1
      · apply map_congr_left
        intro chunk hchunk
        -- the number of a piece that is not the last one
        have hlt : chunk.2 < init.length := by
          simpa using snd_lt_of_mem_zipIdx hchunk
        dsimp only [Function.comp]
        rw [beq_false_of_ne (Nat.ne_of_lt hlt)]
      · simp

end RtspRemuxer

/-! ## A video frame -/

namespace RtspDemuxer

/-- The packets of a frame give at most one frame, and its data are what the depacketizer made of the pieces. -/
theorem run_receive_video (timestamp ssrc : UInt32) (front : List (UInt16 × Bytes))
    (seq : UInt16) (last : Bytes) (d : H264Depacketizer) :
    ∃ d', H264Depacketizer.Fed timestamp (front.map Prod.snd ++ [last]) d d' ∧
      ∀ frames, frames = (run receive d
          (front.map (fun piece => createRtpPacket payloadType false piece.1 timestamp ssrc piece.2) ++
            [createRtpPacket payloadType true seq timestamp ssrc last])).2.flatten →
        frames.length ≤ 1 ∧ ∀ frame ∈ frames, d'.frameBuffer ≠ [] ∧ frame.data = d'.frameBuffer := by
  induction front generalizing d with
  | nil =>
    refine ⟨(d.pushPacket last true seq timestamp).1, .cons true seq (.nil _), ?_⟩
    rintro frames rfl
    rw [map_nil, nil_append, run_cons, receive_createRtpPacket]
    dsimp only [Depacketizer.pushPacket]
    split
    · dsimp only [Depacketizer.takeFrame]
      cases htake : (d.pushPacket last true seq timestamp).1.takeFrame.2 with
      | none => exact ⟨Nat.zero_le 1, fun _ h => nomatch h⟩
      | some frame =>
        refine ⟨Nat.le_refl 1, ?_⟩
        intro returned hreturned
        obtain ⟨hne, hdata⟩ := H264Depacketizer.data_of_takeFrame htake
        rw [mem_singleton.1 hreturned]
        exact ⟨hne, hdata⟩
    · exact ⟨Nat.zero_le 1, fun _ h => nomatch h⟩
  | cons piece front ih =>
    obtain ⟨d', hfed, hframes⟩ := ih (d.pushPacket piece.2 false piece.1 timestamp).1
    refine ⟨d', .cons false piece.1 hfed, ?_⟩
    rintro frames rfl
    have hnone := H264Depacketizer.pushPacket_ne_frameComplete d piece.2 piece.1 timestamp
    rw [map_cons, cons_append, run_cons, receive_createRtpPacket]
    dsimp only [Depacketizer.pushPacket]
    rw [if_neg hnone]
    exact hframes _ rfl

theorem headD_assemble (units : List (Bool × NalUnit)) : (assemble units).headD 0 = 0 := by
  match units with
  | [] | (true, _) :: _ | (false, _) :: _ => rfl

/-- A new depacketizer makes nothing of the packets of a frame, or something with other units. -/
theorem fed_payloads {units : List (Bool × NalUnit)} (hheads : ∀ u ∈ units, u.2.bytes.head? ≠ some 0)
    {timestamp : UInt32} {d' : H264Depacketizer}
    (hfed : H264Depacketizer.Fed timestamp (payloads (assemble units)) .new d') :
    d'.frameBuffer = [] ∨ splitAnnexbNalus d'.frameBuffer ≠ splitAnnexbNalus (assemble units) := by
  rw [payloads] at hfed
  split at hfed
  · cases hfed with
    | cons marker seq hfed =>
      cases hfed with
      | nil => exact .inl (H264Depacketizer.pushPacket_of_headD_eq_zero .new (headD_assemble units) marker seq timestamp).1
  · rename_i hlong
    have hlong := Nat.lt_of_not_le hlong
    obtain ⟨rest, hchunks, _, hflatten, hlengths⟩ := Lib.exists_chunks (by decide) hlong
    rw [hchunks] at hfed
    cases hfed with
    | cons marker seq hfed =>
      have hhead : ((assemble units).take maxRtpPayload).headD 0 = 0 := by
        have hwhole := headD_assemble units
        rw [headD_eq_head?_getD] at hwhole ⊢
        rw [head?_take, if_neg (by decide)]
        exact hwhole
      have hfirst : 10 ≤ ((assemble units).take maxRtpPayload).length := by
        have hsize : 10 ≤ maxRtpPayload := by decide
        rw [length_take]
        omega
      have hstream : assemble units = (assemble units).take maxRtpPayload ++ rest.flatten := by
        rw [hflatten, take_append_drop]
      obtain ⟨hframe, hfu⟩ := H264Depacketizer.pushPacket_of_headD_eq_zero .new hhead marker seq timestamp
      refine .inr (H264Depacketizer.fed_units_ne hheads hfirst ?_ hstream hframe hfu hfed)
      intro piece hpiece
      rw [hlengths piece hpiece]
      decide

end RtspDemuxer

/-! ## Frame by frame -/

namespace RtspRemuxer

def channelOf (r : RtspRemuxer) (frame : MediaFrame) : UInt8 :=
  match frame.kind with
  | .video => r.videoChannel
  | .audio => r.audioChannel

def packetsOf (r : RtspRemuxer) (frame : MediaFrame) : List Bytes :=
  match frame.kind with
  | .video => createRtpPackets 96 r.videoSeq frame.timestamp frame.ssrc frame.data
  | .audio => createRtpPackets 97 r.audioSeq frame.timestamp frame.ssrc frame.data

theorem pushFrame_fst (r : RtspRemuxer) (frame : MediaFrame) :
    (r.pushFrame frame).1 = match frame.kind with
      | .video =>
        { r with videoSeq := r.videoSeq + UInt16.ofNat (r.packetsOf frame).length, outputBuffer := [] }
      | .audio =>
        { r with audioSeq := r.audioSeq + UInt16.ofNat (r.packetsOf frame).length, outputBuffer := [] } := by
  rw [pushFrame, packetsOf]
  cases hkind : frame.kind with
  | audio | video => rfl

variable {r : RtspRemuxer}

theorem pushFrame_snd (hbuffer : r.outputBuffer = []) (frame : MediaFrame) :
    (r.pushFrame frame).2 = (r.packetsOf frame).flatMap (createInterleaved (r.channelOf frame)) := by
  rw [pushFrame, packetsOf, channelOf]
  cases hkind : frame.kind with
  | audio | video => exact congrArg (· ++ _) hbuffer

variable {payload packet : Bytes}

theorem length_le_of_mem_payloads {piece : Bytes} (h : piece ∈ payloads payload) :
    piece.length ≤ maxRtpPayload := by
  rw [payloads] at h
  split at h
  · rename_i hshort
    rw [mem_singleton.1 h]
    exact hshort
  · exact Lib.length_le_of_mem_chunksLoop h

theorem length_lt_of_mem_createRtpPackets {payloadType : UInt8} {startSeq : UInt16} {timestamp ssrc : UInt32}
    (h : packet ∈ createRtpPackets payloadType startSeq timestamp ssrc payload) : packet.length < 2 ^ 16 := by
  obtain ⟨front, seq, last, hpayloads, hpackets⟩ :=
    exists_createRtpPackets payloadType startSeq timestamp ssrc payload
  obtain ⟨marker, seq, piece, hpiece, rfl⟩ : ∃ marker seq piece, piece ∈ payloads payload ∧
      packet = createRtpPacket payloadType marker seq timestamp ssrc piece := by
    rw [hpackets] at h
    rw [hpayloads]
    rcases mem_append.1 h with hfront | hlast
    · obtain ⟨piece, hpiece, rfl⟩ := mem_map.1 hfront
      exact ⟨false, piece.1, piece.2, mem_append_left _ (mem_map_of_mem hpiece), rfl⟩
    · exact ⟨true, seq, last, mem_append_right _ mem_cons_self, mem_singleton.1 hlast⟩
  have hsmall : maxRtpPayload + 12 < 2 ^ 16 := by decide
  have hlength := length_le_of_mem_payloads hpiece
  simp [createRtpPacket]
  omega

def itemsOf (r : RtspRemuxer) : List MediaFrame → List (Option (UInt8 × Bytes))
  | [] => []
  | frame :: rest =>
    (r.packetsOf frame).map (fun packet => some (r.channelOf frame, packet)) ++ itemsOf (r.pushFrame frame).1 rest

def encodeItem : Option (UInt8 × Bytes) → Bytes
  | none => []
  | some (channel, packet) => createInterleaved channel packet

theorem flatten_pushFrame (hbuffer : r.outputBuffer = []) (frames : List MediaFrame) :
    (run pushFrame r frames).2.flatten = (r.itemsOf frames).flatMap encodeItem := by
  induction frames generalizing r with
  | nil => rfl
  | cons frame rest ih =>
    rw [run_cons, flatten_cons, pushFrame_snd hbuffer, ih rfl, itemsOf, flatMap_append, flatMap_map]
    rfl

end RtspRemuxer

namespace RtspDemuxer

variable {data : Bytes} {frame : MediaFrame}

theorem nextItem_createInterleaved (channel : UInt8) (hlength : data.length < 2 ^ 16) (rest : Bytes) :
    nextItem (createInterleaved channel data ++ rest) = some (some (channel, data), rest) := by
  have hcount : u16At (createInterleaved channel data ++ rest) 2 = UInt16.ofNat data.length := by
    apply Lib.StandsAt.u16At
    refine ⟨data ++ rest, ?_⟩
    rfl
  have hnat : (UInt16.ofNat data.length).toNat = data.length := UInt16.toNat_ofNat_of_lt hlength
  have hwhole : (createInterleaved channel data).length = 4 + data.length := by
    simp [createInterleaved]
    omega
  have hdata : (createInterleaved channel data).drop 4 = data := by
    exact drop_left' (by simp)
  have hfour : 4 ≤ (createInterleaved channel data ++ rest).length := by
    rw [length_append]
    omega
  have hfits : ¬ (createInterleaved channel data ++ rest).length < 4 + data.length := by
    rw [length_append]
    omega
  have hdollar : byteAt (createInterleaved channel data ++ rest) 0 = 0x24 := rfl
  have hchannel : byteAt (createInterleaved channel data ++ rest) 1 = channel := rfl
  rw [nextItem, if_pos hfour, hcount, hnat, if_neg (not_not.2 hdollar), if_neg hfits, hchannel,
    take_left' hwhole, drop_left' hwhole, hdata]

variable {frames : List MediaFrame} {video : H264Depacketizer} {s : RtspRemuxer × RtspDemuxer BoxedDepacketizer}

theorem nextItem_itemsOf {r : RtspRemuxer} :
    ∀ item ∈ r.itemsOf frames, ∀ rest, nextItem (encodeItem item ++ rest) = some (item, rest) := by
  induction frames generalizing r with
  | nil => exact fun _ h => nomatch h
  | cons frame frames ih =>
    intro item hitem rest
    rcases mem_append.1 hitem with hframe | hlater
    · obtain ⟨packet, hpacket, rfl⟩ := mem_map.1 hframe
      refine nextItem_createInterleaved _ ?_ rest
      rw [packetsOf] at hpacket
      split at hpacket
      · exact length_lt_of_mem_createRtpPackets hpacket
      · exact length_lt_of_mem_createRtpPackets hpacket
    · exact ih item hlater rest

section Step

variable {δ : Type} [Depacketizer δ]

/-- A frame goes into the remuxer, and its packets go to the demuxer. -/
def frameStep (s : RtspRemuxer × RtspDemuxer δ) (frame : MediaFrame) :
    (RtspRemuxer × RtspDemuxer δ) × List MediaFrame :=
  let received := Lib.Mealy.run (fun d packet => d.handlePacket (s.1.channelOf frame) packet) s.2 (s.1.packetsOf frame)
  (((s.1.pushFrame frame).1, received.1), received.2.flatten)

theorem run_itemsOf (r : RtspRemuxer) (d : RtspDemuxer δ) (frames : List MediaFrame) :
    (run handleItem d (r.itemsOf frames)).2.flatten = (run frameStep (r, d) frames).2.flatten := by
  induction frames generalizing r d with
  | nil => rfl
  | cons frame frames ih =>
    rw [itemsOf, run_append, run_map_inputs, flatten_append, ih]
    rfl

end Step

/-! ## Audio and video frames -/

open BoxedDepacketizer

/-- A depacketizer in its box receives as it does by itself. -/
theorem receive_boxed {δ : Type} [Depacketizer δ] (box : δ → BoxedDepacketizer)
    (hpush : ∀ d payload marker seq timestamp, Depacketizer.pushPacket (box d) payload marker seq timestamp =
      Prod.map box id (Depacketizer.pushPacket d payload marker seq timestamp))
    (htake : ∀ d, Depacketizer.takeFrame (box d) = Prod.map box id (Depacketizer.takeFrame d)) (d : δ)
    (rtpData : Bytes) : receive (box d) rtpData = Prod.map box id (receive d rtpData) := by
  unfold receive depacketize
  simp only [hpush, htake, Prod.map, id]
  split_ifs
  · rfl
  · rfl
  · rfl

/-- A packet with the next number is not stale, and it is a frame. -/
theorem receive_audio {d : OpusDepacketizerBuffered} {seq : UInt16}
    (hseq : d.lastSeq = none ∨ d.lastSeq = some (seq - 1)) (timestamp ssrc : UInt32) (hdata : data ≠ []) :
    receive d (createRtpPacket 97 true seq timestamp ssrc data) =
      ({ lastSeq := some seq, frameData := [], frameTimestamp := timestamp, frameReady := false },
        [MediaFrame.audio .opus timestamp data ssrc]) := by
  have hstale : d.isStale seq = false := by
    rw [OpusDepacketizerBuffered.isStale]
    rcases hseq with hnone | hsome
    · rw [hnone]
    · have hone : seq - (seq - 1) = 1 := by grind
      rw [hsome]
      dsimp only
      rw [hone]
      rfl
  have hpush : Depacketizer.pushPacket d data true seq timestamp =
      ({ lastSeq := some seq, frameData := data, frameTimestamp := timestamp, frameReady := true },
        .frameComplete) := by
    change d.pushPacket data true seq timestamp = _
    rw [OpusDepacketizerBuffered.pushPacket, hstale]
    rfl
  obtain ⟨b, rest, rfl⟩ := exists_cons_of_ne_nil hdata
  rw [receive_createRtpPacket, hpush]
  rfl

/-- The demuxer with this video depacketizer behind the remuxer; the audio depacketizer is up to date. -/
structure Linked (video : H264Depacketizer) (s : RtspRemuxer × RtspDemuxer BoxedDepacketizer) : Prop where
  videoChannel : s.1.videoChannel = 0
  audioChannel : s.1.audioChannel = 1
  videoDepacketizer : s.2.videoDepacketizer = .h264 video
  audioDepacketizer : ∃ audio : OpusDepacketizerBuffered, s.2.audioDepacketizer = .opus audio ∧
    (audio.lastSeq = none ∨ audio.lastSeq = some (s.1.audioSeq - 1))

/-- The frame came back: as it was, or a video frame with the same units. -/
structure Returned (frame returned : MediaFrame) : Prop where
  kind : returned.kind = frame.kind
  timestamp : returned.timestamp = frame.timestamp
  ssrc : returned.ssrc = frame.ssrc
  data : match frame.kind with
    | .video => splitAnnexbNalus returned.data = splitAnnexbNalus frame.data
    | .audio => returned.data = frame.data

/-- An Opus frame that fits in a packet, or an H.264 frame of units in Annex B. -/
def Legal (frame : MediaFrame) : Prop :=
  match frame.kind with
  | .video => ∃ units : List (Bool × NalUnit), frame.data = assemble units ∧
      ∀ u ∈ units, 1 ≤ h264NaluType u.2.bytes ∧ h264NaluType u.2.bytes ≤ 23
  | .audio => 1 ≤ frame.data.length ∧ frame.data.length ≤ 1388

theorem frameStep_audio (h : Linked video s) (hkind : frame.kind = .audio) (hlegal : Legal frame) :
    (∃ returned, (frameStep s frame).2 = [returned] ∧ Returned frame returned) ∧
      Linked video (frameStep s frame).1 := by
  obtain ⟨audio, haudio, hseq⟩ := h.audioDepacketizer
  rw [Legal, hkind] at hlegal
  have hpackets : s.1.packetsOf frame =
      [createRtpPacket 97 true s.1.audioSeq frame.timestamp frame.ssrc frame.data] := by
    rw [packetsOf, hkind]
    exact if_pos hlegal.2
  have hchannel : s.1.channelOf frame = 1 := by
    rw [channelOf, hkind]
    exact h.audioChannel
  have hreceived := receive_audio hseq frame.timestamp frame.ssrc (ne_nil_of_length_pos hlegal.1)
  have hstep : frameStep s frame =
      (((s.1.pushFrame frame).1, { s.2 with
            audioDepacketizer := .opus
              { lastSeq := some s.1.audioSeq
                frameData := []
                frameTimestamp := frame.timestamp
                frameReady := false } }),
        [MediaFrame.audio .opus frame.timestamp frame.data frame.ssrc]) := by
    rw [frameStep, hpackets, hchannel, run_cons, run_nil, handlePacket_eq, if_neg (by decide),
      haudio, receive_boxed opus (fun _ _ _ _ _ => rfl) (fun _ => rfl), hreceived]
    rfl
  rw [hstep]
  constructor
  · refine ⟨_, rfl, hkind.symm, rfl, rfl, ?_⟩
    rw [hkind]
    rfl
  · rw [pushFrame_fst, hkind, hpackets]
    refine ⟨h.videoChannel, h.audioChannel, h.videoDepacketizer, _, rfl, .inr (congrArg some ?_)⟩
    change s.1.audioSeq = s.1.audioSeq + 1 - 1
    grind

theorem head_ne_zero_of_naluType {bytes : Bytes} (h : 1 ≤ h264NaluType bytes) : bytes.head? ≠ some 0 := by
  intro hhead
  cases bytes with
  | nil => cases hhead
  | cons b rest =>
    have hb : b = 0 := Option.some.inj hhead
    rw [h264NaluType, hb] at h
    exact absurd h (by decide)

/-- A video frame gives at most one frame, and the first one none that has its units. -/
theorem frameStep_video (h : Linked video s) (hkind : frame.kind = .video) (hlegal : Legal frame) :
    (frameStep s frame).2.length ≤ 1 ∧ (∃ video', Linked video' (frameStep s frame).1) ∧
      (video = .new → ∀ returned ∈ (frameStep s frame).2, ¬ Returned frame returned) := by
  have hpackets : s.1.packetsOf frame = createRtpPackets 96 s.1.videoSeq frame.timestamp frame.ssrc frame.data := by
    rw [packetsOf, hkind]
  have hchannel : s.1.channelOf frame = 0 := by
    rw [channelOf, hkind]
    exact h.videoChannel
  have hstep : frameStep s frame =
      (((s.1.pushFrame frame).1, { s.2 with videoDepacketizer := .h264 (run receive video (s.1.packetsOf frame)).1 }),
        (run receive video (s.1.packetsOf frame)).2.flatten) := by
    have hview : ∀ (d : H264Depacketizer) (packet : Bytes),
        handlePacket { s.2 with videoDepacketizer := .h264 d } 0 packet =
          ({ s.2 with videoDepacketizer := .h264 (receive d packet).1 }, (receive d packet).2) := by
      intro d packet
      rw [handlePacket_eq, if_pos rfl, receive_boxed h264 (fun _ _ _ _ _ => rfl) (fun _ => rfl)]
      rfl
    have hsame : s.2 = { s.2 with videoDepacketizer := .h264 video } := by
      rw [← h.videoDepacketizer]
    have hrun := @run_map _ _ _ (fun d packet => handlePacket d 0 packet) _ receive
      (fun d => { s.2 with videoDepacketizer := .h264 d }) hview video (s.1.packetsOf frame)
    rw [frameStep, hchannel]
    rw [← hsame] at hrun
    rw [hrun]
  obtain ⟨front, seq, last, hpayloads, hfront⟩ :=
    exists_createRtpPackets 96 s.1.videoSeq frame.timestamp frame.ssrc frame.data
  obtain ⟨d', hfed, hframes⟩ := run_receive_video 96 frame.timestamp frame.ssrc front seq last video
  rw [← hfront, ← hpackets] at hframes
  obtain ⟨hone, hdata⟩ := hframes _ rfl
  rw [hstep]
  refine ⟨hone, ⟨(run receive video (s.1.packetsOf frame)).1, ?_⟩, ?_⟩
  · rw [pushFrame_fst, hkind]
    exact ⟨h.videoChannel, h.audioChannel, rfl, h.audioDepacketizer⟩
  · rintro rfl returned hreturned hsame
    rw [Legal, hkind] at hlegal
    obtain ⟨units, hunits, htypes⟩ := hlegal
    have hheads : ∀ u ∈ units, u.2.bytes.head? ≠ some 0 :=
      fun u hu => head_ne_zero_of_naluType (htypes u hu).1
    obtain ⟨hne, hbuffer⟩ := hdata returned hreturned
    have hequal := hsame.data
    rw [hkind, hbuffer, hunits] at hequal
    rw [← hpayloads, hunits] at hfed
    rcases fed_payloads hheads hfed with hempty | hother
    · exact hne hempty
    · exact hother hequal

theorem length_frames_le (h : Linked video s) (hlegal : ∀ frame ∈ frames, Legal frame) :
    (run frameStep s frames).2.flatten.length ≤ frames.length := by
  induction frames generalizing video s with
  | nil => exact Nat.le_refl 0
  | cons frame frames ih =>
    obtain ⟨hframe, hrest⟩ := forall_mem_cons.1 hlegal
    rw [run_cons, flatten_cons, length_append, length_cons]
    cases hkind : frame.kind with
    | audio =>
      obtain ⟨⟨returned, hreturned, _⟩, hnext⟩ := frameStep_audio h hkind hframe
      have hlater := ih hnext hrest
      rw [hreturned, length_singleton]
      omega
    | video =>
      obtain ⟨hone, ⟨video', hnext⟩, _⟩ := frameStep_video h hkind hframe
      have hlater := ih hnext hrest
      omega

/-- With a new video depacketizer, all frames come back if and only if none of them is a video frame. -/
theorem run_frameStep_iff (h : Linked .new s) (hlegal : ∀ frame ∈ frames, Legal frame) :
    Forall₂ Returned frames (run frameStep s frames).2.flatten ↔ ∀ frame ∈ frames, frame.kind = .audio := by
  induction frames generalizing s with
  | nil => exact ⟨fun _ _ h => (nomatch h), fun _ => .nil⟩
  | cons frame frames ih =>
    obtain ⟨hframe, hrest⟩ := forall_mem_cons.1 hlegal
    rw [run_cons, flatten_cons, forall_mem_cons]
    cases hkind : frame.kind with
    | audio =>
      obtain ⟨⟨returned, hreturned, hsame⟩, hnext⟩ := frameStep_audio h hkind hframe
      rw [hreturned, singleton_append, forall₂_cons, ih hnext hrest]
      exact and_congr_left fun _ => iff_of_true hsame rfl
    | video =>
      obtain ⟨hone, ⟨video', hnext⟩, hlost⟩ := frameStep_video h hkind hframe
      constructor
      · intro hall
        -- as many frames as went in: so there is one for this frame
        have hlater := length_frames_le hnext hrest
        have hlength := hall.length_eq
        rw [length_append, length_cons] at hlength
        obtain ⟨returned, hreturned⟩ : ∃ returned, (frameStep s frame).2 = [returned] :=
          length_eq_one_iff.1 (by omega)
        rw [hreturned, singleton_append, forall₂_cons] at hall
        refine absurd hall.1 (hlost rfl returned ?_)
        rw [hreturned]
        exact mem_cons_self
      · rintro ⟨haudio, _⟩
        cases haudio

/-- Whatever the slices in which the output arrives, every frame comes back if and only if there is no video frame
among them. -/
theorem roundTrip_iff {frames : List MediaFrame} (hlegal : ∀ frame ∈ frames, Legal frame)
    {slices : List Bytes}
    (hslices : slices.flatten = (Lib.Mealy.run RtspRemuxer.pushFrame RtspRemuxer.new frames).2.flatten) :
    List.Forall₂ Returned frames
        (Lib.Mealy.run pushData (new createDepacketizer .h264 .opus) slices).2.flatten ↔
      ∀ frame ∈ frames, frame.kind = .audio := by
  have hlinked : Linked .new (RtspRemuxer.new, new createDepacketizer .h264 .opus) :=
    ⟨rfl, rfl, rfl, _, rfl, .inl rfl⟩
  change Forall₂ _ _ (run pushData (withBuffer (new createDepacketizer .h264 .opus, [])) slices).2.flatten ↔ _
  rw [(run_withBuffer rfl slices).1, hslices, flatten_pushFrame rfl,
    Lib.Stream.push_encoded nextItem_prompt rfl nextItem_itemsOf, run_itemsOf, run_frameStep_iff hlinked hlegal]

theorem roundTrip_two_audio :
    List.Forall₂ Returned
      [MediaFrame.audio .opus 960 [0xf8, 0xff, 0xfe] 7, MediaFrame.audio .opus 1920 [0xf8] 7]
      (Lib.Mealy.run pushData (new createDepacketizer .h264 .opus)
        (Lib.Mealy.run RtspRemuxer.pushFrame RtspRemuxer.new
          [MediaFrame.audio .opus 960 [0xf8, 0xff, 0xfe] 7, MediaFrame.audio .opus 1920 [0xf8] 7]).2).2.flatten := by
  refine (roundTrip_iff ?_ rfl).2 ?_
  · simp [MediaFrame.audio, Legal]
  · simp [MediaFrame.audio]

/-- One video frame with one unit of one byte: nothing comes out. -/
theorem not_roundTrip_one_unit :
    Legal (MediaFrame.video .h264 3000 [0, 0, 0, 1, 0x65] 7 true) ∧
      ¬ List.Forall₂ Returned [MediaFrame.video .h264 3000 [0, 0, 0, 1, 0x65] 7 true]
        (Lib.Mealy.run pushData (new createDepacketizer .h264 .opus)
          (Lib.Mealy.run RtspRemuxer.pushFrame RtspRemuxer.new
            [MediaFrame.video .h264 3000 [0, 0, 0, 1, 0x65] 7 true]).2).2.flatten := by
  constructor
  · refine ⟨[(true, ⟨[0x65], by decide, by decide, by decide⟩)], rfl, ?_⟩
    intro u hu
    rw [mem_singleton.1 hu]
    decide
  · exact nofun

end RtspDemuxer

end LingVoice.LmProtocol

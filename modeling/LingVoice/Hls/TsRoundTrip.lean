import LingVoice.Hls.TsMuxer
import LingVoice.Srt.TsParserSpec

/-!
# TsRoundTrip — the packets of `TSMuxer` in `parseTSPacket` of the SRT package

A turn of `stuffTS` always fills its packet up to byte 188, also where the computed stuffing is zero or
negative and the packet takes less than what remains (`afContent_fills`).  So a PES packet comes out
as the concatenation of the payloads from one start packet to the next, for every run of `MuxFrame`.
-/

namespace LingVoice.Hls

open Lib Common List Mpegts Srt

/-! ## Header bytes -/

def Used (pid : UInt16) : Prop :=
  pid = tsPATPID ∨ pid = tsPMTPID ∨ pid = tsVideoPID ∨ pid = tsAudioPID

theorem pidByte1_fields {pid : UInt16} (hpid : Used pid) (start : Bool) :
    ((((pid >>> 8) &&& 0x1F).toUInt8 ||| (if start then 0x40 else 0x00)) &&& 0x40 != 0) = start ∧
      ((((pid >>> 8) &&& 0x1F).toUInt8 ||| (if start then 0x40 else 0x00)) &&& 0x1F).toUInt16 <<< 8 |||
        ((pid &&& 0xFF).toUInt8).toUInt16 = pid := by
  rcases hpid with rfl | rfl | rfl | rfl
  all_goals
    cases start with
    | true | false => decide

theorem controlByte_fields {control : UInt8} (hcontrol : control = 1 ∨ control = 3) (cc : UInt8) :
    ((control <<< 4 ||| (cc &&& 0x0F)) >>> 4) &&& 0x03 = control ∧
      (control <<< 4 ||| (cc &&& 0x0F)) &&& 0x0F = cc &&& 0x0F := by
  revert cc
  rcases hcontrol with rfl | rfl
  all_goals
    refine forall_byte ?_
    decide +kernel

/-! ## One turn of `stuffTS` -/

namespace TSMuxer

/-- The adaptation field and what is left of the payload always fill a packet: with its length byte the
field leaves at most `remaining` bytes, and there is no field only when a full packet remains. -/
theorem afContent_fills (first withPCR : Bool) (pcr : UInt64) {remaining : Nat} (hpos : 0 < remaining) :
    (afContent first withPCR pcr remaining = [] ∧ 184 ≤ remaining) ∨
      (afContent first withPCR pcr remaining ≠ [] ∧
        (afContent first withPCR pcr remaining).length < 183 ∧
        183 - (afContent first withPCR pcr remaining).length ≤ remaining) := by
  -- the field holds a PCR, only a flag byte, or is missing
  cases hpcr : withPCR && first with
  | true =>
    right
    by_cases hshort : remaining < 184
    · simp [afContent, hpcr, hshort, pcrBytes]
      omega
    · simp [afContent, hpcr, hshort, pcrBytes]
      omega
  | false =>
    by_cases hshort : remaining < 184
    · right
      simp [afContent, hpcr, hshort]
      omega
    · left
      simp [afContent, hpcr, hshort]
      omega

variable {control : UInt8} {data payload : Bytes} {pid id : UInt16} {m : TSMuxer} {ps : List Bytes}

variable {content p : Bytes} {offset : Nat} {start : Bool}

theorem carries_packetBytes (hpid : Used pid) (start : Bool) (cc : UInt8) (hdata : data ≠ [])
    (hfill : (afField content).length + data.length = 184)
    (hcontrol : (control = 3 ∧ content ≠ []) ∨ (control = 1 ∧ content = [])) :
    Carries (packetBytes pid start control cc content data) start pid control (cc &&& 0x0F) data := by
  rcases pidByte1_fields hpid start with ⟨hstart, hid⟩
  rcases controlByte_fields (hcontrol.imp And.left And.left).symm cc with ⟨hafc, hcc⟩
  have hparts := @carries_of_parts
    (((pid >>> 8) &&& 0x1F).toUInt8 ||| (if start then 0x40 else 0x00)) (pid &&& 0xFF).toUInt8
    ((control <<< 4) ||| (cc &&& 0x0F)) (afField content) data hfill hdata
  rw [hstart, hid, hafc, hcc] at hparts
  apply hparts
  rcases hcontrol with ⟨hthree, hne⟩ | ⟨hone, hnil⟩
  · refine .inl ⟨hthree, content, ?_⟩
    rw [afField, if_neg hne]
  · refine .inr ⟨.inr hone, ?_⟩
    rw [afField, if_pos hnil]

/-- What one turn writes: a packet that the payload fills up to its last byte. -/
theorem stuffPacket_carries (m : TSMuxer) (hpid : Used pid) (start : Bool) (withPCR : Bool) (pcr : UInt64)
    (hoffset : offset < payload.length) :
    ∃ packet len control, m.stuffPacket pid start payload withPCR pcr offset =
        ((m.nextCC pid).1, packet, len) ∧
      0 < len ∧ offset + len ≤ payload.length ∧ (control = 1 ∨ control = 3) ∧
      Carries packet (start && offset == 0) pid control (m.cc pid &&& 0x0F)
        ((payload.drop offset).take len) := by
  obtain ⟨remaining, hremaining⟩ : ∃ remaining, remaining = payload.length - offset := ⟨_, rfl⟩
  obtain ⟨content, hcontent⟩ : ∃ content, content = afContent (offset == 0) withPCR pcr remaining :=
    ⟨_, rfl⟩
  obtain ⟨len, hlen⟩ : ∃ len, len = min (188 - (4 + (afField content).length)) remaining := ⟨_, rfl⟩
  have hstep : m.stuffPacket pid start payload withPCR pcr offset =
      ((m.nextCC pid).1, packetBytes pid (start && offset == 0) (afControl content remaining) (m.cc pid) content
            ((payload.drop offset).take len) ++
          List.replicate (188 - (packetBytes pid (start && offset == 0) (afControl content remaining) (m.cc pid) content
            ((payload.drop offset).take len)).length) 0, len) := by
    rw [hlen, hcontent, hremaining]
    rfl
  have hfills := afContent_fills (offset == 0) withPCR pcr (show 0 < remaining by omega)
  rw [← hcontent] at hfills
  have hdata : ((payload.drop offset).take len).length = len := by
    rw [length_take, length_drop]
    omega
  -- what the field leaves is what the payload takes, so no zero byte is left
  have hroom : 0 < len ∧ (afField content).length + len = 184 := by
    rcases hfills with ⟨hnil, hfull⟩ | ⟨hne, hlong, hfits⟩
    · rw [afField, if_pos hnil] at hlen ⊢
      simp only [length_nil] at hlen ⊢
      omega
    · rw [afField, if_neg hne] at hlen ⊢
      simp only [length_cons] at hlen ⊢
      omega
  have hcontrol : (afControl content remaining = 3 ∧ content ≠ []) ∨
      (afControl content remaining = 1 ∧ content = []) := by
    rcases hfills with ⟨hnil, hfull⟩ | ⟨hne, _, _⟩
    · right
      simp [afControl, hnil, Nat.not_lt.2 hfull]
    · left
      by_cases hshort : remaining < 184
      · have hpos : 0 < remaining := by omega
        simp [afControl, hshort, hpos, hne]
      · simp [afControl, hshort, hne]
  have hne : (payload.drop offset).take len ≠ [] := by
    intro hnil
    rw [hnil, length_nil] at hdata
    omega
  have hcarries := carries_packetBytes hpid (start && offset == 0) (m.cc pid) hne
    (by rw [hdata]; exact hroom.2) hcontrol
  refine ⟨_, len, _, hstep, hroom.1, by omega, (hcontrol.imp And.left And.left).symm, ?_⟩
  rw [hcarries.length]
  simpa using hcarries

/-! ## What an operation emits -/

/-- The counter the next packet of a PID will carry. -/
def counters (m : TSMuxer) (id : UInt16) : Nat :=
  (m.cc id).toNat

theorem counted_nextCC (h : Carries p start pid control (m.cc pid &&& 0x0F) data) :
    Counted m.counters [p] (m.nextCC pid).1.counters := by
  refine .of_carries h rfl ?_ ?_
  · have hone : (1 : UInt8).toNat = 1 := rfl
    have hmask : (0x0F : UInt8).toNat = 2 ^ 4 - 1 := rfl
    simp only [counters, nextCC, Function.update_self]
    rw [UInt8.toNat_and, hmask, Nat.and_two_pow_sub_one_eq_mod, UInt8.toNat_add, hone]
    omega
  · intro id hne
    simp only [counters, nextCC, Function.update_of_ne hne]

/-- `r` is the result of an operation on `m` that writes the packets `ps`. -/
structure Emits (m : TSMuxer) (r : TSMuxer × Bytes) (ps : List Bytes) : Prop where
  bytes : r.2 = ps.flatten
  valid : ∀ p ∈ ps, Mpegts.Valid p
  counted : Mpegts.Counted m.counters ps r.1.counters
  config : r.1 = { m with cc := r.1.cc, patSent := r.1.patSent }

namespace Emits

variable {m : TSMuxer} {r r' : TSMuxer × Bytes} {ps ps' : List Bytes}

theorem nothing (m : TSMuxer) : Emits m (m, []) [] :=
  ⟨rfl, by simp, Counted.nil _, rfl⟩

theorem framePID (h : Emits m r ps) (frame : MediaFrame) : r.1.framePID frame = m.framePID frame := by
  rw [h.config]
  rfl

theorem append (h : Emits m r ps) (h' : Emits r.1 r' ps') : Emits m (r'.1, r.2 ++ r'.2) (ps ++ ps') := by
  refine ⟨?_, ?_, h.counted.append h'.counted, ?_⟩
  · rw [flatten_append, h.bytes, h'.bytes]
  · rw [forall_mem_append]
    exact ⟨h.valid, h'.valid⟩
  · have hconfig := h'.config
    rw [h.config] at hconfig
    exact hconfig

theorem packet {p data : Bytes} {start : Bool} {pid : UInt16} {control : UInt8}
    (h : Carries p start pid control (m.cc pid &&& 0x0F) data)
    (hcontrol : control = 1 ∨ control = 3) : Emits m ((m.nextCC pid).1, p) [p] := by
  refine ⟨?_, ?_, counted_nextCC h, rfl⟩
  · simp
  · simpa using h.valid hcontrol

end Emits

/-! ## Payloads from one start packet to the next -/

/-- What comes before the first start packet, and then the payloads from each start packet up to the
next one, put together. -/
def regroup : List Srt.TsPacket → Bytes × List Bytes
  | [] => ([], [])
  | pkt :: pkts =>
    if pkt.payloadUnitStart then ([], (pkt.payload ++ (regroup pkts).1) :: (regroup pkts).2)
    else (pkt.payload ++ (regroup pkts).1, (regroup pkts).2)

theorem regroup_append {pkts more : List TsPacket} (h : (regroup more).1 = []) :
    regroup (pkts ++ more) = ((regroup pkts).1, (regroup pkts).2 ++ (regroup more).2) := by
  induction pkts with
  | nil => exact Prod.ext h rfl
  | cons pkt pkts ih =>
    -- `more` begins with a start packet, so it closes what is open
    rw [cons_append, regroup, ih, regroup]
    split
    · rfl
    · rfl

/-- The turns from an offset on: the packets carry the rest of the payload, and only the first of all starts. -/
theorem stuffLoop_emits (n : Nat) (m : TSMuxer) (hpid : Used pid) (withPCR : Bool) (pcr : UInt64) (hne : payload ≠ [])
    (hoffset : offset ≤ payload.length) (hn : payload.length - offset < n) :
    ∃ r ps, stuffLoop pid true payload withPCR pcr n m offset = .ok r ∧ Emits m r ps ∧
      (∀ p ∈ ps, Mpegts.pid p = pid) ∧
      regroup (ps.map packetOf) = if offset = 0 then ([], [payload]) else (payload.drop offset, []) := by
  have hlong : 0 < payload.length := length_pos_iff.2 hne
  induction n generalizing m offset with
  | zero => omega
  | succ n ih =>
    by_cases hmore : offset < payload.length
    · rcases m.stuffPacket_carries hpid true withPCR pcr hmore with
        ⟨packet, len, control, hstep, hpos, hend, hcontrol, hcarries⟩
      have hstart : (packetOf packet).payloadUnitStart = _ := hcarries.pusi
      have hdata : (packetOf packet).payload = (payload.drop offset).take len := by
        rw [packetOf, hcarries.afc, if_pos hcontrol, hcarries.payload]
      rcases ih (m.nextCC pid).1 hend (by omega) with ⟨r, ps, hr, hrest, hids, hgroup⟩
      rw [if_neg (by omega), ← drop_drop] at hgroup
      refine ⟨(r.1, packet ++ r.2), packet :: ps, ?_, (Emits.packet hcarries hcontrol).append hrest, ?_, ?_⟩
      · rw [stuffLoop, if_pos (.inl hmore), hstep]
        simp only [hr]
        rfl
      · rw [forall_mem_cons]
        exact ⟨hcarries.pid, hids⟩
      · rw [map_cons, regroup, hstart, hdata, hgroup]
        by_cases hzero : offset = 0
        · simp [hzero]
        · simp [hzero]
    · -- everything is written, and the loop ends
      have hdone : ¬ (offset < payload.length ∨ (offset = 0 ∧ payload.length = 0)) := by omega
      refine ⟨(m, []), [], ?_, .nothing m, ?_, ?_⟩
      · rw [stuffLoop, if_neg hdone]
        rfl
      · simp
      · rw [if_neg (by omega), drop_of_length_le (by omega)]
        rfl

theorem stuffTS_emits (m : TSMuxer) (hpid : Used pid) (hne : payload ≠ []) (withPCR : Bool) (pcr : UInt64) :
    ∃ r ps, m.stuffTS pid true payload withPCR pcr = .ok r ∧ Emits m r ps ∧
      (∀ p ∈ ps, Mpegts.pid p = pid) ∧ regroup (ps.map packetOf) = ([], [payload]) :=
  stuffLoop_emits (payload.length + 1) m hpid withPCR pcr hne (Nat.zero_le _) (by omega)

/-! ## Frames -/

def framePES (frame : MediaFrame) : Bytes :=
  buildPESHeader (frameStreamID frame) frame.payload (framePTS frame) (framePTS frame) ++ frame.payload

structure Configured (m : TSMuxer) : Prop where
  pmt : m.pmtPID = tsPMTPID
  video : m.videoPID = tsVideoPID
  audio : m.audioPID = tsAudioPID

theorem Emits.configured {r : TSMuxer × Bytes} (h : Emits m r ps) (hm : Configured m) : Configured r.1 := by
  rw [h.config]
  exact ⟨hm.pmt, hm.video, hm.audio⟩

def Elementary (id : UInt16) : Prop :=
  id = tsVideoPID ∨ id = tsAudioPID

theorem Elementary.used (h : Elementary id) : Used id := by
  rcases h with rfl | rfl
  · exact .inr (.inr (.inl rfl))
  · exact .inr (.inr (.inr rfl))

/-- The tables come on PIDs of their own. -/
theorem frameTables_emits (hm : Configured m) (frame : MediaFrame) :
    ∃ r ps, m.frameTables frame = .ok r ∧ Emits m r ps ∧
      ∀ p ∈ ps, ¬ Elementary (Mpegts.pid p) := by
  by_cases hneeded : frame.type = .frameVideo ∧ frame.marker
  · rcases m.stuffTS_emits (.inl rfl) (cons_ne_nil 0x00 m.buildPATSection) false 0 with
      ⟨r, ps, hpat, hemits, hids, _⟩
    have hpmtPID : Used r.1.pmtPID := .inr (.inl (hemits.configured hm).pmt)
    rcases r.1.stuffTS_emits hpmtPID (cons_ne_nil 0x00 r.1.buildPMTSection) false 0 with
      ⟨r', ps', hpmt, hemits', hids', _⟩
    have htables : m.frameTables frame = .ok ({ r'.1 with patSent := true }, r.2 ++ r'.2) := by
      rw [frameTables, if_pos hneeded]
      simp only [muxPAT, hpat, muxPMT, hpmt, bind, Except.bind]
      rfl
    have hboth := hemits.append hemits'
    refine ⟨_, ps ++ ps', htables, ⟨hboth.bytes, hboth.valid, hboth.counted, ?_⟩, ?_⟩
    · rw [hboth.config]
    · rw [forall_mem_append]
      refine ⟨?_, ?_⟩
      · intro p hp
        rw [hids p hp, Elementary]
        decide
      · intro p hp
        rw [hids' p hp, (hemits.configured hm).pmt, Elementary]
        decide
  · refine ⟨(m, []), [], ?_, .nothing m, ?_⟩
    · rw [frameTables, if_neg hneeded]
      rfl
    · simp

theorem elementary_framePID (hm : Configured m) (frame : MediaFrame) : Elementary (m.framePID frame) := by
  unfold framePID
  split
  · exact .inr hm.audio
  · exact .inl hm.video

def packetsOf (id : UInt16) (ps : List Bytes) : List Srt.TsPacket :=
  (ps.map Srt.packetOf).filter (fun pkt => pkt.pid == id)

theorem packetsOf_append (id : UInt16) (ps ps' : List Bytes) :
    packetsOf id (ps ++ ps') = packetsOf id ps ++ packetsOf id ps' := by
  rw [packetsOf, map_append, filter_append]
  rfl

theorem packetsOf_eq_nil (h : ∀ p ∈ ps, Mpegts.pid p ≠ id) : packetsOf id ps = [] := by
  rw [packetsOf, filter_eq_nil_iff]
  intro pkt hpkt
  rcases mem_map.1 hpkt with ⟨p, hp, rfl⟩
  simpa [packetOf] using h p hp

theorem packetsOf_eq_self (h : ∀ p ∈ ps, Mpegts.pid p = id) : packetsOf id ps = ps.map packetOf := by
  rw [packetsOf, filter_eq_self]
  intro pkt hpkt
  rcases mem_map.1 hpkt with ⟨p, hp, rfl⟩
  simpa [packetOf] using h p hp

theorem muxFrame_emits (hm : Configured m) (frame : MediaFrame) :
    ∃ r ps, m.muxFrame frame = .ok r ∧ Emits m r ps ∧ ∀ id, Elementary id →
      regroup (packetsOf id ps) = ([], if m.framePID frame = id then [framePES frame] else []) := by
  rcases frameTables_emits hm frame with ⟨r, ps, htables, hemits, hids⟩
  have hne : framePES frame ≠ [] := by simp [framePES, buildPESHeader]
  rcases r.1.stuffTS_emits (elementary_framePID hm frame).used hne frame.marker
      (if frame.marker then framePTS frame * 300 else 0) with
    ⟨r', ps', hframe, hemits', hids', hgroup⟩
  have hmux : m.muxFrame frame = .ok (r'.1, r.2 ++ r'.2) := by
    simp only [muxFrame, htables, bind, Except.bind, muxPES, hemits.framePID]
    rw [framePES] at hframe
    rw [hframe]
    rfl
  refine ⟨_, ps ++ ps', hmux, hemits.append hemits', ?_⟩
  intro id helementary
  have hnone : packetsOf id ps = [] := by
    apply packetsOf_eq_nil
    intro p hp heq
    exact hids p hp (heq ▸ helementary)
  rw [packetsOf_append, hnone, nil_append]
  by_cases hthis : m.framePID frame = id
  · rw [if_pos hthis, ← hthis, packetsOf_eq_self hids', hgroup]
  · have hother : packetsOf id ps' = [] := by
      apply packetsOf_eq_nil
      intro p hp
      rw [hids' p hp]
      exact hthis
    rw [if_neg hthis, hother]
    rfl

/-! ## Runs -/

def muxAll : TSMuxer → List MediaFrame → Except Fault (TSMuxer × Bytes)
  | m, [] => return (m, [])
  | m, frame :: frames => do
      let (m, bytes) ← m.muxFrame frame
      let (m, out) ← muxAll m frames
      return (m, bytes ++ out)

theorem muxAll_emits (hm : Configured m) (frames : List MediaFrame) :
    ∃ r ps, m.muxAll frames = .ok r ∧ Emits m r ps ∧ ∀ id, Elementary id →
      regroup (packetsOf id ps) = ([], (frames.filter (fun frame => m.framePID frame == id)).map framePES) := by
  induction frames generalizing m with
  | nil =>
    refine ⟨_, [], rfl, .nothing m, ?_⟩
    intro id _
    rfl
  | cons frame frames ih =>
    rcases muxFrame_emits hm frame with ⟨r, ps, hframe, hemits, hgroup⟩
    rcases ih (hemits.configured hm) with ⟨r', ps', hrest, hemits', hgroup'⟩
    have hrun : m.muxAll (frame :: frames) = .ok (r'.1, r.2 ++ r'.2) := by
      simp only [muxAll, hframe, hrest, bind, Except.bind]
      rfl
    refine ⟨_, ps ++ ps', hrun, hemits.append hemits', ?_⟩
    intro id helementary
    -- the later frames begin with a start packet on every PID
    have hlater := hgroup' id helementary
    rw [packetsOf_append, regroup_append (by rw [hlater]), hgroup id helementary, hlater]
    simp only [hemits.framePID]
    by_cases hthis : m.framePID frame = id
    · simp [hthis]
    · simp [hthis]

theorem configured_new : Configured new :=
  ⟨rfl, rfl, rfl⟩

/-- Every run of `MuxFrame` on a new muxer returns whole packets that parse and count on, PID by PID; on each elementary
PID the payloads from one start packet to the next are the PES packets of the frames, and each gives the frame's payload
back. -/
theorem muxAll_roundTrip (frames : List MediaFrame) :
    ∃ (m : TSMuxer) (bytes : Bytes) (pkts : List Srt.TsPacket), new.muxAll frames = .ok (m, bytes) ∧
      bytes.length = 188 * pkts.length ∧
      (Mpegts.packets bytes).map Srt.parseTSPacket = pkts.map (fun pkt => .ok (some pkt)) ∧
      (∀ id, id = tsVideoPID ∨ id = tsAudioPID →
        regroup (pkts.filter (fun pkt => pkt.pid == id)) =
          ([], (frames.filter (fun frame => new.framePID frame == id)).map framePES)) ∧
      (∀ frame ∈ frames, Srt.parsePESHeader (framePES frame) = .ok (some frame.payload)) ∧
      ∀ id, ((pkts.filter (fun pkt => pkt.pid == id)).map Srt.TsPacket.continuityCounter).IsChain
        (fun a b => b.toNat = (a.toNat + 1) % 16) := by
  rcases muxAll_emits configured_new frames with ⟨⟨m, bytes⟩, ps, hrun, hemits, hgroup⟩
  have hlen : ∀ p ∈ ps, p.length = 188 := by
    intro p hp
    exact (hemits.valid p hp).length
  have hbytes : bytes = ps.flatten := hemits.bytes
  refine ⟨m, bytes, ps.map packetOf, hrun, ?_, ?_, hgroup, ?_, ?_⟩
  · rw [hbytes, length_flatten hlen, length_map]
  · rw [hbytes, packets_flatten hlen, map_map]
    apply map_congr_left
    intro p hp
    rw [parseTSPacket_eq (hlen p hp), if_pos (hemits.valid p hp).sync]
    rfl
  · intro frame _
    -- the header has 14 bytes, and byte 8 counts the five behind it
    have hcount : (0x05 : UInt8).toNat = 5 := rfl
    rw [parsePESHeader_eq]
    simp [pesPayload, framePES, buildPESHeader, ptsBytes, hcount]
  · intro id
    have hchain := hemits.counted.continuous id
    rw [filter_map, map_map]
    exact hchain

end TSMuxer

end LingVoice.Hls

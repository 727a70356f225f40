import LingVoice.Lib.Mpegts
import LingVoice.Srt.TsParser

/-!
# TsParserSpec — what each function of the demuxer returns

One equation per function, in terms of total definitions.  Where an index or slice expression of the
function is in range whatever the input is, the equation has no hypothesis beyond the ones its callers
establish, and its right-hand side is `.ok`: the function neither panics nor runs on.
-/

namespace LingVoice.Srt

open Lib Lib.Slice Common List Lib.Mpegts

/-! ## One packet -/

def packetOf (p : Bytes) : TsPacket :=
  { pid := Mpegts.pid p
    payloadUnitStart := Mpegts.pusi p
    transportError := p.getD 1 0 &&& 0x80 != 0
    adaptationFieldControl := Mpegts.afc p
    continuityCounter := Mpegts.cc p
    payload := if Mpegts.afc p = 1 ∨ Mpegts.afc p = 3 then Mpegts.payload p else [] }

variable {p data : Bytes} {i : Nat} {start : Option Nat}

/-- An adaptation field that runs past the end leaves an empty payload. -/
theorem payloadOffset_eq (hlen : p.length = 188) :
    payloadOffset p (Mpegts.afc p) = .ok (min (Mpegts.payloadOffset p) 188) := by
  have hindex : index p 4 = .ok (p.getD 4 0) := index_eq_ok (by omega) 0
  unfold payloadOffset Mpegts.payloadOffset afcAdaptationOnly afcBoth
  rw [hindex, ← hlen]
  split
  · rfl
  · rw [hlen]
    rfl

theorem packetPayload_eq (hlen : p.length = 188) :
    packetPayload p (Mpegts.afc p) (min (Mpegts.payloadOffset p) 188) =
      .ok (if afc p = 1 ∨ afc p = 3 then payload p else []) := by
  -- an offset past the end gives the empty payload on both sides
  have hdrop : p.drop (min (Mpegts.payloadOffset p) 188) = Mpegts.payload p := drop_eq_drop_iff.2 (by omega)
  have hslice := @slice_to_end _ p (min (Mpegts.payloadOffset p) 188) (by omega)
  rw [hlen, hdrop] at hslice
  unfold packetPayload afcPayloadOnly afcBoth
  split
  · exact hslice
  · rfl

theorem parseTSPacket_eq (hlen : p.length = 188) :
    parseTSPacket p = .ok (if sync p = 0x47 then some (packetOf p) else none) := by
  have hindex : ∀ i < 188, index p i = .ok (p.getD i 0) := by
    intro i hi
    exact index_eq_ok (by omega) 0
  have hafc : (p.getD 3 0 >>> 4) &&& 0x03 = afc p := rfl
  rw [parseTSPacket, if_neg (by rw [hlen]; decide)]
  simp only [hindex 0 (by decide), hindex 1 (by decide), hindex 2 (by decide), hindex 3 (by decide),
    hafc, payloadOffset_eq hlen, packetPayload_eq hlen, bind, Except.bind]
  unfold sync tsSyncByte
  rw [ite_not]
  split
  · rfl
  · rfl

def pesPayload (payload : Bytes) : Option Bytes :=
  if 9 ≤ payload.length ∧
      (payload.getD 0 0 = 0x00 ∧ payload.getD 1 0 = 0x00 ∧ payload.getD 2 0 = 0x01) ∧
      9 + (payload.getD 8 0).toNat ≤ payload.length then
    some (payload.drop (9 + (payload.getD 8 0).toNat))
  else
    none

theorem parsePESHeader_eq (payload : Bytes) : parsePESHeader payload = .ok (pesPayload payload) := by
  unfold parsePESHeader pesPayload
  by_cases hshort : payload.length < 9
  · rw [if_pos hshort, if_neg (by omega)]
    rfl
  · have hindex : ∀ i < 9, index payload i = .ok (payload.getD i 0) := by
      intro i hi
      exact index_eq_ok (by omega) 0
    rw [if_neg hshort]
    simp only [hindex 0 (by decide), hindex 1 (by decide), hindex 2 (by decide),
      hindex 8 (by decide), bind, Except.bind]
    by_cases hcode : payload.getD 0 0 = 0x00 ∧ payload.getD 1 0 = 0x00 ∧ payload.getD 2 0 = 0x01
    · rw [if_neg (by tauto)]
      by_cases hoff : payload.length < 9 + (payload.getD 8 0).toNat
      · rw [if_pos hoff, if_neg (by omega)]
        rfl
      · rw [if_neg hoff, slice_to_end (by omega), if_pos ⟨by omega, hcode, by omega⟩]
        rfl
    · rw [if_pos (by tauto), if_neg (by tauto)]
      rfl

/-! ## NAL units -/

theorem startCodeAt_ok (zeros : Nat) (h : i + zeros < data.length) : ∃ found, startCodeAt data i zeros = .ok found := by
  induction zeros generalizing i with
  | zero =>
    refine ⟨data.getD i 0 == 0x01, ?_⟩
    rw [startCodeAt, index_eq_ok (by omega) 0]
    rfl
  | succ zeros ih =>
    rw [startCodeAt, index_eq_ok (by omega) 0]
    by_cases hzero : data.getD i 0 = 0
    · rcases ih (show i + 1 + zeros < data.length by omega) with ⟨found, hfound⟩
      refine ⟨found, ?_⟩
      simp only [bind, Except.bind, hzero, if_true, hfound]
    · refine ⟨false, ?_⟩
      simp only [bind, Except.bind, hzero, if_false]
      rfl

theorem hasStartCode_ok (data : Bytes) (i zeros : Nat) :
    ∃ found, hasStartCode data i zeros = .ok found ∧ (found = true → i + zeros < data.length) := by
  unfold hasStartCode
  by_cases hfits : i + zeros < data.length
  · rcases startCodeAt_ok zeros hfits with ⟨found, h⟩
    rw [if_pos hfits]
    exact ⟨found, h, fun _ => hfits⟩
  · rw [if_neg hfits]
    exact ⟨false, rfl, by simp⟩

theorem startCodeLen_ok (hi : i ≤ data.length) : ∃ k, startCodeLen data i = .ok k ∧ i + k ≤ data.length := by
  rcases hasStartCode_ok data i 2 with ⟨three, hthree, hfits3⟩
  rcases hasStartCode_ok data i 3 with ⟨four, hfour, hfits4⟩
  rw [startCodeLen, hthree]
  cases three with
  | true =>
    have hend := hfits3 rfl
    exact ⟨3, rfl, by omega⟩
  | false =>
    simp only [bind, Except.bind, Bool.false_eq_true, if_false, hfour]
    cases four with
    | true =>
      have hend := hfits4 rfl
      exact ⟨4, rfl, by omega⟩
    | false => exact ⟨0, rfl, by omega⟩

theorem nalUpTo_ok (hi : i ≤ data.length)
    (hstart : ∀ k, start = some k → k ≤ i) : ∃ nal, nalUpTo data start i = .ok nal := by
  cases start with
  | none => exact ⟨[], rfl⟩
  | some k =>
    refine ⟨[(data.take i).drop k], ?_⟩
    rw [nalUpTo, slice_eq_ok (hstart k rfl) hi]
    rfl

theorem lastNAL_ok (data : Bytes) (start : Option Nat) : ∃ nals, lastNAL data start = .ok nals := by
  cases start with
  | none => exact ⟨[], rfl⟩
  | some k =>
    by_cases hk : k < data.length
    · rw [lastNAL, if_pos hk]
      refine nalUpTo_ok (Nat.le_refl _) ?_
      intro j hj
      rw [← Option.some.inj hj]
      exact Nat.le_of_lt hk
    · rw [lastNAL, if_neg hk]
      exact ⟨[], rfl⟩

/-- The invariant of the loop: the open NAL unit starts at or before the position, which stays inside
the data. -/
theorem splitLoop_ok (n : Nat)
    (hi : i ≤ data.length) (hstart : ∀ k, start = some k → k ≤ i) (hn : data.length - i < n) :
    ∃ nals, splitLoop data n start i = .ok nals := by
  induction n generalizing start i with
  | zero => omega
  | succ n ih =>
    by_cases hmore : i < data.length
    · rcases startCodeLen_ok hi with ⟨k, hk, hend⟩
      simp only [splitLoop, if_pos hmore, hk, bind, Except.bind]
      by_cases hnone : k = 0
      · -- no start code: one byte on, and the open unit stays open
        rw [if_pos hnone]
        refine ih hmore ?_ (by omega)
        intro j hj
        exact Nat.le_succ_of_le (hstart j hj)
      · rcases nalUpTo_ok hi hstart with ⟨nal, hnal⟩
        rcases @ih (i + k) (some (i + k)) hend
            (fun j hj => Nat.le_of_eq (Option.some.inj hj).symm) (by omega) with ⟨nals, hnals⟩
        rw [if_neg hnone, hnal, hnals]
        exact ⟨nal ++ nals, rfl⟩
    · rw [splitLoop, if_neg hmore]
      exact lastNAL_ok data start

theorem splitNALUnits_ok (data : Bytes) : ∃ nals, splitNALUnits data = .ok nals :=
  splitLoop_ok _ (Nat.zero_le _) (fun _ h => nomatch h) (by omega)

theorem isKeyFrameNAL_ok (codec : CodecType) (nal : Bytes) : ∃ key, isKeyFrameNAL codec nal = .ok key := by
  unfold isKeyFrameNAL
  by_cases hempty : nal.length = 0
  · rw [if_pos hempty]
    exact ⟨false, rfl⟩
  · have hindex : index nal 0 = .ok (nal.getD 0 0) := index_eq_ok (by omega) 0
    rw [if_neg hempty, hindex]
    split
    · exact ⟨_, rfl⟩
    · exact ⟨_, rfl⟩
    · exact ⟨false, rfl⟩

/-! ## Sections -/

def sectionLength (sec : Bytes) : Nat :=
  (uint16 (sec.getD 1 0) (sec.getD 2 0) &&& 0x0FFF).toNat

/-- The section that a packet starts and its length, when both are inside the payload. -/
def completeSection (pkt : TsPacket) (size : Nat) : Option (Bytes × Nat) :=
  let off := 1 + (pkt.payload.getD 0 0).toNat
  if pkt.payloadUnitStart = false ∨ pkt.payload.length < off + size then none
  else if (pkt.payload.drop off).length < 3 + sectionLength (pkt.payload.drop off) then none
  else some (pkt.payload.drop off, sectionLength (pkt.payload.drop off))

theorem completeSection_some {pkt : TsPacket} {sec : Bytes} {size sectionLen : Nat}
    (h : completeSection pkt size = some (sec, sectionLen)) : size ≤ sec.length ∧ 3 + sectionLen ≤ sec.length := by
  simp only [completeSection] at h
  split at h
  · simp at h
  · split at h
    · simp at h
    · next hsize hlen =>
        cases h
        rw [length_drop] at hlen ⊢
        omega

namespace Session

theorem sectionOf_eq {size : Nat} (hsize : 3 ≤ size) (pkt : TsPacket) :
    sectionOf pkt size = .ok (completeSection pkt size) := by
  rcases pkt with ⟨pid, start, err, afc, cc, payload⟩
  cases start with
  | false => rfl
  | true =>
    simp only [sectionOf, completeSection, Bool.not_true, Bool.false_or, decide_eq_true_eq,
      Bool.true_eq_false, false_or]
    by_cases hempty : payload.length < 1
    · rw [if_pos hempty, if_pos (by omega)]
      rfl
    · rw [if_neg hempty, index_eq_ok (by omega) 0]
      simp only [bind, Except.bind]
      by_cases hshort : payload.length < 1 + (payload.getD 0 0).toNat + size
      · rw [if_pos hshort, if_pos hshort]
        rfl
      · have hlen : (payload.drop (1 + (payload.getD 0 0).toNat)).length =
            payload.length - (1 + (payload.getD 0 0).toNat) := length_drop
        rw [if_neg hshort, if_neg hshort, slice_to_end (by omega)]
        simp only [uint16At_eq_ok (show 1 + 2 ≤ (payload.drop (1 + (payload.getD 0 0).toNat)).length by omega)]
        -- both sides now compare the announced length with what is there
        by_cases hend : (payload.drop (1 + (payload.getD 0 0).toNat)).length <
            3 + sectionLength (payload.drop (1 + (payload.getD 0 0).toNat))
        · rw [if_pos hend]
          exact if_pos hend
        · rw [if_neg hend]
          exact if_neg hend

/-- The PMT PID after the entries of a PAT: the last one with a program number and a PID. -/
def programPID (pmtPID : UInt16) : Bytes → UInt16
  | b0 :: b1 :: b2 :: b3 :: rest =>
    programPID
      (if uint16 b0 b1 ≠ 0 ∧ uint16 b2 b3 &&& 0x1FFF ≠ 0 then uint16 b2 b3 &&& 0x1FFF else pmtPID)
      rest
  | _ => pmtPID

theorem patLoop_eq {body : Bytes} (n : Nat) (t : TsParser) {i : Nat} (hn : body.length - i < n) :
    patLoop body n t i = .ok { t with pmtPID := programPID t.pmtPID (body.drop i) } := by
  induction n generalizing t i with
  | zero => omega
  | succ n ih =>
    by_cases hmore : i + 4 ≤ body.length
    · -- the loop reads at positions, `programPID` takes entries off the front
      have hentry : body.drop i = body.getD i 0 :: body.getD (i + 1) 0 :: body.getD (i + 2) 0 ::
          body.getD (i + 3) 0 :: body.drop (i + 4) := by
        rw [drop_eq_getD_cons (by omega), drop_eq_getD_cons (by omega),
          drop_eq_getD_cons (by omega), drop_eq_getD_cons (by omega)]
      have hnum := @uint16At_eq_ok body i (by omega)
      have hpid := @uint16At_eq_ok body (i + 2) (by omega)
      simp only [patLoop, if_pos hmore, hnum, hpid, bind, Except.bind]
      rw [ih _ (by omega), hentry, programPID]
      split
      · rfl
      · rfl
    · have hlast : programPID t.pmtPID (body.drop i) = t.pmtPID := by
        refine programPID.eq_2 _ _ fun b0 b1 b2 b3 rest hdrop => ?_
        have hlen := congrArg length hdrop
        simp only [length_drop, length_cons] at hlen
        omega
      rw [patLoop, if_neg hmore, hlast]
      rfl

theorem registerStream_pmtPID (t : TsParser) (streamType : UInt8) (esPID : UInt16) :
    (registerStream t streamType esPID).pmtPID = t.pmtPID := by
  unfold registerStream
  split
  · rfl
  · -- whether or not the stream was known, only the tables of streams are written
    cases t.streams esPID with
    | some info | none => simp only [apply_ite TsParser.pmtPID, ite_self]

theorem pmtLoop_ok {body : Bytes} (n : Nat) (t : TsParser) {i : Nat} (hn : body.length - i < n) :
    ∃ t', pmtLoop body n t i = .ok t' ∧ t'.pmtPID = t.pmtPID := by
  induction n generalizing t i with
  | zero => omega
  | succ n ih =>
    by_cases hmore : i + 5 ≤ body.length
    · have htype := @index_eq_ok _ body i (by omega) 0
      have hpid := @uint16At_eq_ok body (i + 1) (by omega)
      have hinfo := @uint16At_eq_ok body (i + 3) (by omega)
      simp only [pmtLoop, if_pos hmore, htype, hpid, hinfo, bind, Except.bind]
      obtain ⟨esInfoLen, hesInfoLen⟩ : ∃ esInfoLen, esInfoLen =
          (uint16 (body.getD (i + 3) 0) (body.getD (i + 3 + 1) 0) &&& 0x0FFF).toNat := ⟨_, rfl⟩
      rw [← hesInfoLen]
      rcases @ih (registerStream t (body.getD i 0) (uint16 (body.getD (i + 1) 0) (body.getD (i + 1 + 1) 0) &&& 0x1FFF))
          (i + (5 + esInfoLen)) (by omega) with ⟨t', hloop, hsame⟩
      exact ⟨t', hloop, hsame.trans (registerStream_pmtPID t _ _)⟩
    · rw [pmtLoop, if_neg hmore]
      exact ⟨t, rfl, rfl⟩

/-! ## Flushing a PES packet -/

theorem flushNALs_ok (codec : CodecType) (trackID : String) (nals : List Bytes) (s : Session) :
    ∃ s', flushNALs codec trackID s nals = .ok s' ∧ s' = { s with frames := s'.frames } := by
  induction nals generalizing s with
  | nil => exact ⟨s, rfl, rfl⟩
  | cons nal nals ih =>
    by_cases hempty : nal.length = 0
    · rw [flushNALs, if_pos hempty]
      exact ih s
    · rcases isKeyFrameNAL_ok codec nal with ⟨marker, hmarker⟩
      simp only [flushNALs, if_neg hempty, hmarker, bind, Except.bind]
      exact ih (s.onMediaFrame trackID { type := .frameVideo, codec := codec, payload := nal, marker := marker })

theorem flushPES_ok (s : Session) (info : TsStreamInfo) :
    ∃ s', s.flushPES info = .ok s' ∧ s' = { s with frames := s'.frames } := by
  unfold flushPES
  split
  · exact ⟨s, rfl, rfl⟩
  · rcases splitNALUnits_ok info.pesBuffer with ⟨nals, hnals⟩
    generalize (if info.kind = .trackAudio then "audio" else "video") = trackID
    simp only [hnals, bind, Except.bind]
    split
    · exact flushNALs_ok info.codec trackID nals s
    · exact flushNALs_ok info.codec trackID nals s
    all_goals exact ⟨_, rfl, rfl⟩

theorem flushPending_ok (s : Session) (info : TsStreamInfo) :
    ∃ s', s.flushPending info = .ok s' ∧ s' = { s with frames := s'.frames } := by
  unfold flushPending
  split
  · exact s.flushPES_ok info
  · exact ⟨s, rfl, rfl⟩

/-! ## Sync bytes -/

def firstSync : Bytes → Option Nat
  | [] => none
  | b :: rest =>
    if tsPacketSize ≤ rest.length + 1 then
      if b = tsSyncByte then some 0 else (firstSync rest).map (· + 1)
    else
      none

theorem findSync_eq {buf : Bytes} (n : Nat) {i : Nat} (hn : buf.length - i < n) :
    findSync buf n i = .ok ((firstSync (buf.drop i)).map (· + i)) := by
  induction n generalizing i with
  | zero => omega
  | succ n ih =>
    have hsize : tsPacketSize = 188 := rfl
    have hlen : (buf.drop i).length = buf.length - i := length_drop
    by_cases hfits : i + tsPacketSize ≤ buf.length
    · have hi : i < buf.length := by omega
      have hrest : (buf.drop (i + 1)).length = buf.length - (i + 1) := length_drop
      rw [drop_eq_getD_cons hi, firstSync, if_pos (show tsPacketSize ≤ (buf.drop (i + 1)).length + 1 by omega)]
      simp only [findSync, if_pos hfits, index_eq_ok hi 0, bind, Except.bind]
      by_cases hsync : buf.getD i 0 = tsSyncByte
      · rw [if_pos hsync, if_pos hsync, Option.map_some, Nat.zero_add]
        rfl
      · -- positions behind this one are counted from the next byte
        rw [if_neg hsync, if_neg hsync, ih (by omega), Option.map_map]
        congr 2
        funext k
        exact Nat.add_right_comm k i 1
    · rw [findSync, if_neg hfits]
      cases hdrop : buf.drop i with
      | nil => rfl
      | cons b rest =>
        rw [hdrop, length_cons] at hlen
        rw [firstSync, if_neg (by omega)]
        rfl

/-- A sync byte that is found has a whole packet behind it. -/
theorem firstSync_some {buf : Bytes} {k : Nat} (h : firstSync buf = some k) :
    k + 188 ≤ buf.length ∧ buf.getD k 0 = 0x47 := by
  induction buf generalizing k with
  | nil => exact nomatch h
  | cons b rest ih =>
    have hsize : tsPacketSize = 188 := rfl
    rw [firstSync] at h
    split at h
    · next hfits =>
        split at h
        · next hsync =>
            cases h
            rw [length_cons]
            exact ⟨by omega, hsync⟩
        · rcases Option.map_eq_some_iff.1 h with ⟨j, hj, rfl⟩
          rcases ih hj with ⟨hend, hbyte⟩
          rw [length_cons]
          exact ⟨by omega, hbyte⟩
    · exact nomatch h

end Session

end LingVoice.Srt

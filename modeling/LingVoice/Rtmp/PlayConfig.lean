import LingVoice.Lib.Avcc
import LingVoice.Lib.Fallible
import LingVoice.Lib.Herald
import LingVoice.Rtmp.Play

/-!
# PlayConfig — decoder configuration in front of the frames

When does a player get the configuration in front of every frame?  `Heralded` says it about the messages on the
connection; `FrameOk` says it about the calls.
-/

namespace LingVoice.Rtmp

open Lib Lib.Herald List
open Common (MediaFrame)
open Avcc (readConfig readConfig_record_iff)

/-! ## What a message is to a player -/

def avcPacket (m : Message) : Option (UInt8 × Bytes) :=
  match m.payload with
  | first :: packetType :: _ :: _ :: _ :: body =>
    if m.type = 9 ∧ first &&& 0x0F = 7 then some (packetType, body) else none
  | _ => none

def aacPacket (m : Message) : Option (UInt8 × Bytes) :=
  match m.payload with
  | first :: packetType :: body =>
    if m.type = 8 ∧ first >>> 4 = 10 then some (packetType, body) else none
  | _ => none

namespace PlaySession

def Call.videoConfig : Call → Option AvcDecoderConfig
  | .setVideoConfig sps pps => some ⟨sps, pps⟩
  | _ => none

def Call.audioConfig : Call → Option (Option Bytes × AacDecoderConfig)
  | .setAudioConfig asc sampleRate channels => some (asc, ⟨sampleRate, channels⟩)
  | _ => none

/-- A sequence header announces the parameter sets that are read from its record. -/
def videoRoles : Roles Event AvcDecoderConfig where
  set
    | .setVideo sps pps => some ⟨sps, pps⟩
    | _ => none
  announce
    | .wrote m =>
      match avcPacket m with
      | some (0, record) => some ((readConfig record).map fun sets => ⟨sets.1, sets.2⟩)
      | _ => none
    | _ => none
  uses e := ∃ m body, e = .wrote m ∧ avcPacket m = some (1, body)

def audioRoles : Roles Event Bytes where
  set
    | .setAudio asc => some asc
    | _ => none
  announce
    | .wrote m =>
      match aacPacket m with
      | some (0, asc) => some (some asc)
      | _ => none
    | _ => none
  uses e := ∃ m body, e = .wrote m ∧ aacPacket m = some (1, body)

@[simp] theorem videoRoles_uses_wrote (m : Message) :
    videoRoles.uses (.wrote m) ↔ ∃ body, avcPacket m = some (1, body) := by
  simp [videoRoles]

@[simp] theorem audioRoles_uses_wrote (m : Message) :
    audioRoles.uses (.wrote m) ↔ ∃ body, aacPacket m = some (1, body) := by
  simp [audioRoles]

/-- No call of the run panics, and the configuration set last is announced before every frame. -/
def ConfigurationFirst (streamID : UInt32) (calls : List Call) : Prop :=
  ∃ ps answers, Fallible.run call (new streamID) calls = .ok (ps, answers) ∧
    Heralded videoRoles answers.flatten ∧ Heralded audioRoles answers.flatten

/-! ## The condition -/

/-- There is something of the frame to be sent. -/
def HasUnits (frame : MediaFrame) : Prop :=
  (frameToAVC frame.payload).1 ≠ []

/-- Without a configuration there is nothing to send; a header is made of one with both parameter sets, and then the
profile bytes must be there and, for a frame with units, the lengths must fit in the record. -/
def VideoOk (config : Option AvcDecoderConfig) (frame : MediaFrame) : Prop :=
  match config with
  | none => ¬ HasUnits frame
  | some c => c.sps = [] ∨ c.pps = [] ∨
      (4 ≤ c.sps.length ∧ (HasUnits frame → c.sps.length < 2 ^ 16 ∧ c.pps.length < 2 ^ 16))

/-- Without an AudioSpecificConfig there is nothing to send, and otherwise some sample rate is known. -/
def AudioOk (config : Option (Option Bytes × AacDecoderConfig)) (frame : MediaFrame) : Prop :=
  match config with
  | none => frame.payload = []
  | some (none, _) => frame.payload = []
  | some (some asc, c) => asc = [] ∨ frame.payload = [] ∨ frame.sampleRate ≠ 0 ∨ c.sampleRate ≠ 0

/-- The frame comes at a time at which it can be sent. -/
def FrameOk (past : List Call) (frame : MediaFrame) : Prop :=
  match frame.type with
  | .frameVideo => frame.codec = .h264 → VideoOk (latest Call.videoConfig past) frame
  | .frameAudio => frame.codec = .aac → AudioOk (latest Call.audioConfig past) frame

/-! ## Messages -/

theorem avcPacket_mediaMessage (ps : PlaySession) (timestamp : UInt32) {first : UInt8} (h : first &&& 0x0F = 7)
    (packetType : UInt8) (body : Bytes) :
    avcPacket (ps.mediaMessage 9 timestamp ([first, packetType, 0, 0, 0] ++ body)) = some (packetType, body) := by
  simp [avcPacket, mediaMessage, h]

theorem aacPacket_mediaMessage (ps : PlaySession) (timestamp : UInt32) (packetType : UInt8) (body : Bytes) :
    aacPacket (ps.mediaMessage 8 timestamp ([ps.audioFirstByte, packetType] ++ body)) = some (packetType, body) := by
  have hfirst : ps.audioFirstByte >>> 4 = 10 := by
    unfold audioFirstByte
    cases ps.aacConfig with
    | none => decide
    | some config =>
      dsimp only
      split <;> decide
  simp [aacPacket, mediaMessage, hfirst]

variable {frame : MediaFrame} {config : AvcDecoderConfig} {ps ps' : PlaySession} {calls : List Call}
  {events trace : List Event} {before : List Message} {packet : UInt8 × Bytes} {m : Message}

theorem aacPacket_eq_none (h : avcPacket m = some packet) : aacPacket m = none := by
  have htype : m.type = 9 := by
    unfold avcPacket at h
    split at h
    · split at h
      · rename_i hvideo
        exact hvideo.1
      · cases h
    · cases h
  unfold aacPacket
  split
  · simp [htype]
  · rfl

theorem audioRoles_idle (h : avcPacket m = some packet) : audioRoles.Idle (.wrote m) where
  set := rfl
  announce := by simp [audioRoles, aacPacket_eq_none h]
  uses := by simp [aacPacket_eq_none h]

theorem videoRoles_idle (h : aacPacket m = some packet) : videoRoles.Idle (.wrote m) := by
  have hnone : avcPacket m = none := by
    cases hvideo : avcPacket m with
    | none => rfl
    | some packet =>
      rw [aacPacket_eq_none hvideo] at h
      cases h
  exact ⟨rfl, by simp [videoRoles, hnone], by simp [hnone]⟩

/-! ## How the state stands to the calls and to the trace -/

/-- A sequence header is made of two parameter sets, and holds them when their lengths fit. -/
structure VideoHeader (c : AvcDecoderConfig) (announced : Option AvcDecoderConfig) : Prop where
  sps : 4 ≤ c.sps.length
  pps : c.pps ≠ []
  fits : announced = some c ↔ c.sps.length < 2 ^ 16 ∧ c.pps.length < 2 ^ 16

def AudioHeader (asc : Bytes) (announced : Option Bytes) : Prop :=
  asc ≠ [] ∧ announced = some asc

structure Reached (ps : PlaySession) (calls : List Call) (trace : List Event) : Prop where
  avcConfig : ps.avcConfig = latest Call.videoConfig calls
  aacConfig : (ps.aacConfig.map fun c => (ps.aacASC, c)) = latest Call.audioConfig calls
  /-- There is no AudioSpecificConfig before the first call that sets it. -/
  unset : ps.aacConfig = none → ps.aacASC = none
  video : Kept videoRoles VideoHeader ps.avcConfig ps.videoSeqHeaderSent trace
  audio : Kept audioRoles AudioHeader (ps.aacConfig.map fun _ => ps.aacASC.getD []) ps.audioSeqHeaderSent trace

/-- What is seen of a frame that was processed. -/
def answer (outcome : Outcome) : PlaySession × List Event :=
  (outcome.session, outcome.written.map .wrote)

/-! ## Video -/

theorem exists_body_sendNalus (ps : PlaySession) (frame : MediaFrame) (before : List Message) :
    ∃ body, Body videoRoles audioRoles (HasUnits frame) body ∧
      answer (ps.sendNalus frame before) = (ps, before.map .wrote ++ body) := by
  by_cases hunits : (frameToAVC frame.payload).1 = []
  · exact ⟨[], .nothing (not_not.2 hunits), by simp [sendNalus, answer, hunits]⟩
  · obtain ⟨first, hfirst, hcodec⟩ : ∃ first : UInt8,
        first = ((if (frameToAVC frame.payload).2 then 1 else 2 : UInt8) <<< 4) ||| 7 ∧ first &&& 0x0F = 7 := by
      refine ⟨_, rfl, ?_⟩
      split <;> decide
    have hpacket := avcPacket_mediaMessage ps (frame.timestamp / 90) hcodec 1 (frameToAVC frame.payload).1
    refine ⟨[.wrote _], .one hunits rfl ?_ ⟨_, _, rfl, hpacket⟩ (audioRoles_idle hpacket), ?_⟩
    · simp only [videoRoles, hpacket]
      rfl
    · simp [sendNalus, answer, hunits, hfirst]

theorem exists_header (hconfig : ps.avcConfig = some config) (hsps : 4 ≤ config.sps.length) (hpps : config.pps ≠ []) :
    ∃ header record, ps.sendAVCSequenceHeader = .ok (.ok header) ∧ avcPacket header = some (0, record) ∧
      VideoHeader config ((readConfig record).map fun sets => ⟨sets.1, sets.2⟩) := by
  obtain ⟨a, profile, compatibility, level, rest, hbytes⟩ :
      ∃ a b c d rest, config.sps = a :: b :: c :: d :: rest := by
    match config.sps, hsps with
    | a :: b :: c :: d :: rest, _ => exact ⟨a, b, c, d, rest, rfl⟩
  refine ⟨ps.mediaMessage 9 0 ([0x17, 0, 0, 0, 0] ++ avcRecord profile compatibility level config),
    avcRecord profile compatibility level config, ?_, avcPacket_mediaMessage ps 0 (by decide) 0 _, hsps, hpps, ?_⟩
  · have hset : ¬ (config.sps = [] ∨ config.pps = []) := by
      simp [hbytes, hpps]
    unfold sendAVCSequenceHeader
    rw [hconfig]
    dsimp only
    rw [if_neg hset]
    split
    · rename_i hsplit
      simp only [hbytes, List.cons.injEq] at hsplit
      obtain ⟨-, rfl, rfl, rfl, -⟩ := hsplit
      rfl
    · rename_i hno
      exact absurd hbytes (hno _ _ _ _ _)
  · have hread : readConfig (avcRecord profile compatibility level config) = some (config.sps, config.pps) ↔ _ :=
      readConfig_record_iff (?_ : _ = [0x01, profile, compatibility, level, 0xFF, 0xE1] ++ _)
    · rw [← hread]
      cases config
      cases readConfig _ with
      | none => simp
      | some sets => simp [Prod.ext_iff]
    · simp [avcRecord, be16_ofNat]

theorem sendAVCSequenceHeader_short (hconfig : ps.avcConfig = some config)
    (hset : ¬ (config.sps = [] ∨ config.pps = [])) (hshort : config.sps.length < 4) :
    ps.sendAVCSequenceHeader = .error .indexOutOfRange := by
  unfold sendAVCSequenceHeader
  rw [hconfig]
  dsimp only
  rw [if_neg hset]
  split
  · rename_i hsplit
    simp [hsplit] at hshort
    omega
  · rfl

/-- With a header the frame is all right if the lengths fit. -/
theorem VideoHeader.ok_iff {announced : Option AvcDecoderConfig} (h : VideoHeader config announced) (frame : MediaFrame) :
    VideoOk (some config) frame ↔ (HasUnits frame → announced = some config) := by
  have hsps : config.sps ≠ [] := ne_nil_of_length_pos (Nat.lt_of_lt_of_le (by decide) h.sps)
  simp only [VideoOk, h.fits, hsps, h.pps, h.sps, false_or, true_and]

theorem Reached.sends_video (h : Reached ps calls trace) (frame : MediaFrame) :
    Sends videoRoles audioRoles VideoHeader ps.avcConfig ps.videoSeqHeaderSent
      (fun sent => { ps with videoSeqHeaderSent := sent }) (HasUnits frame)
      (frame.codec = .h264 → VideoOk (latest Call.videoConfig calls) frame)
      ((ps.sendVideoFrame frame).map answer) := by
  rw [← h.avcConfig]
  unfold sendVideoFrame
  split
  · rename_i hcodec
    exact .quiet fun h264 => absurd h264 hcodec
  · rename_i hcodec
    simp only [not_not.1 hcodec, true_implies]
    split
    · rename_i hfirst
      obtain ⟨-, hsome⟩ : ps.videoSeqHeaderSent = false ∧ ps.avcConfig.isSome = true := by simpa using hfirst
      obtain ⟨config, hconfig⟩ := Option.isSome_iff_exists.1 hsome
      by_cases hset : config.sps = [] ∨ config.pps = []
      · have hrefused : ps.sendAVCSequenceHeader = .ok (.error "avc config not set (sps/pps missing)") := by
          simp only [sendAVCSequenceHeader, hconfig, if_pos hset]
        rw [hrefused]
        refine .quiet ?_
        rw [hconfig]
        exact hset.imp_right .inl
      · rcases Nat.lt_or_ge config.sps.length 4 with hshort | hlong
        · rw [sendAVCSequenceHeader_short hconfig hset hshort]
          refine .failed ?_
          rw [hconfig]
          rintro (hsps | hpps | ⟨hlong, -⟩)
          · exact hset (.inl hsps)
          · exact hset (.inr hpps)
          · omega
        · obtain ⟨header, record, hsend, hpacket, hheader⟩ := exists_header hconfig hlong fun hpps => hset (.inr hpps)
          obtain ⟨body, hbody, hanswer⟩ := exists_body_sendNalus { ps with videoSeqHeaderSent := true } frame [header]
          rw [hsend]
          dsimp only [Except.map]
          rw [hanswer]
          exact .first hconfig hheader rfl (by simp only [videoRoles, hpacket]) (by simp [hpacket])
            (audioRoles_idle hpacket) hbody (hconfig ▸ hheader.ok_iff frame)
    · rename_i hplain
      obtain ⟨body, hbody, hanswer⟩ := exists_body_sendNalus ps frame []
      dsimp only [Except.map]
      rw [hanswer]
      rw [Bool.and_eq_true, not_and_or] at hplain
      rcases hplain with hsent | hnone
      · refine .behind (by simpa using hsent) hbody fun c a hconfig hheader => ?_
        rw [hconfig]
        exact hheader.ok_iff frame
      · obtain hnone : ps.avcConfig = none := by simpa using hnone
        refine .unset (fun c hconfig => ?_) hbody (by simp [hnone, VideoOk])
        rw [hnone] at hconfig
        cases hconfig

/-! ## Audio -/

theorem clockRate_ne_zero_iff {config : AacDecoderConfig} (hconfig : ps.aacConfig = some config)
    (frame : MediaFrame) : ps.clockRate frame ≠ 0 ↔ frame.sampleRate ≠ 0 ∨ config.sampleRate ≠ 0 := by
  unfold clockRate
  rw [hconfig]
  by_cases hrate : frame.sampleRate = 0
  · simp [hrate]
  · simp [hrate, UInt32.pos_iff_ne_zero]

/-- A raw message goes out when the frame is not empty and a sample rate is known. -/
theorem sends_sendRaw {ConfigOk Good : Prop} {P : Except Panic (PlaySession × List Event) → Prop}
    (hok : ConfigOk ↔ frame.payload = [] ∨ (ps.clockRate frame ≠ 0 ∧ Good)) (hfailed : ∀ err, ¬ ConfigOk → P (.error err))
    (hbody : ∀ body, Body audioRoles videoRoles (frame.payload ≠ []) body →
      (ConfigOk ↔ (frame.payload ≠ [] → Good)) → P (.ok (ps, before.map .wrote ++ body))) :
    P ((ps.sendRaw frame before).map answer) := by
  unfold sendRaw
  split
  · rename_i hpayload
    have hanswer := hbody [] (.nothing (by simp [hpayload])) (by simp [hok, hpayload])
    rwa [append_nil] at hanswer
  · rename_i hpayload
    split
    · rename_i hrate
      exact hfailed _ (by simp [hok, hpayload, hrate])
    · rename_i hrate
      have hpacket (ts : UInt32) := aacPacket_mediaMessage ps ts 1 frame.payload
      dsimp only [Except.map, answer]
      rw [map_append, map_singleton]
      exact hbody _ (.one hpayload rfl (by simp only [audioRoles, hpacket]; rfl) ⟨_, _, rfl, hpacket _⟩
        (videoRoles_idle (hpacket _))) (by simp [hok, hpayload, hrate])

theorem Reached.sends_audio (h : Reached ps calls trace) (frame : MediaFrame) :
    Sends audioRoles videoRoles AudioHeader (ps.aacConfig.map fun _ => ps.aacASC.getD []) ps.audioSeqHeaderSent
      (fun sent => { ps with audioSeqHeaderSent := sent }) (frame.payload ≠ [])
      (frame.codec = .aac → AudioOk (latest Call.audioConfig calls) frame)
      ((ps.sendAudioFrame frame).map answer) := by
  -- behind a header the frame is all right if a sample rate is known
  have hrated {asc : Bytes} (hasc : ps.aacASC = some asc) (hset : asc ≠ []) :
      (ps.aacConfig.map fun _ => ps.aacASC.getD []) = some asc ∧
        (AudioOk (latest Call.audioConfig calls) frame ↔ frame.payload = [] ∨ (ps.clockRate frame ≠ 0 ∧ True)) := by
    cases hconfig : ps.aacConfig with
    | none =>
      rw [h.unset hconfig] at hasc
      cases hasc
    | some config =>
      rw [← h.aacConfig, hconfig, hasc, clockRate_ne_zero_iff hconfig]
      simp [AudioOk, hset]
  unfold sendAudioFrame
  split
  · rename_i hcodec
    exact .quiet fun aac => absurd aac hcodec
  · rename_i hcodec
    simp only [not_not.1 hcodec, true_implies]
    split
    · rename_i hfirst
      obtain ⟨-, hsome⟩ : ps.audioSeqHeaderSent = false ∧ ps.aacASC.isSome = true := by simpa using hfirst
      obtain ⟨asc, hasc⟩ := Option.isSome_iff_exists.1 hsome
      have hget : ps.aacASC.getD [] = asc := by simp [hasc]
      unfold sendAACSequenceHeader
      by_cases hset : asc = []
      · rw [if_pos (hget.trans hset)]
        refine .quiet ?_
        cases hconfig : ps.aacConfig with
        | none =>
          rw [h.unset hconfig] at hasc
          cases hasc
        | some config =>
          rw [← h.aacConfig, hconfig, hasc]
          exact .inl hset
      · rw [if_neg (hget ▸ hset)]
        obtain ⟨hconfig, hok⟩ := hrated hasc hset
        have hpacket := aacPacket_mediaMessage ps 0 0 asc
        refine sends_sendRaw hok (fun _ => .failed) fun body hbody hgood => ?_
        rw [hget] at hconfig ⊢
        exact .first hconfig ⟨hset, rfl⟩ rfl (by simp only [audioRoles, hpacket]) (by rw [audioRoles_uses_wrote, hpacket]; simp)
          (videoRoles_idle hpacket) hbody (by simp [hgood])
    · rename_i hplain
      rw [Bool.and_eq_true, not_and_or] at hplain
      rcases hplain with hsent | hnone
      · have hsent : ps.audioSeqHeaderSent = true := by simpa using hsent
        obtain ⟨asc, announced, hconfig, ⟨hset, rfl⟩, -⟩ := h.audio.sent hsent
        have hasc : ps.aacASC = some asc := by
          obtain ⟨-, -, hget⟩ := Option.map_eq_some_iff.1 hconfig
          cases hvalue : ps.aacASC with
          | none => exact absurd (by simpa [hvalue] using hget.symm) hset
          | some _ => simpa [hvalue] using hget
        refine sends_sendRaw (hrated hasc hset).2 (fun _ => .failed) fun body hbody hgood => ?_
        exact .behind hsent hbody fun c a _ hheader => by simp [hgood, hheader.2]
      · have hnone : ps.aacASC = none := by simpa using hnone
        have hok : AudioOk (latest Call.audioConfig calls) frame ↔
            frame.payload = [] ∨ (ps.clockRate frame ≠ 0 ∧ False) := by
          rw [← h.aacConfig, hnone]
          cases ps.aacConfig with
          | none | some config => simp [AudioOk]
        refine sends_sendRaw hok (fun _ => .failed) fun body hbody hgood => ?_
        refine .unset (fun c hconfig c' hheader => ?_) hbody hgood
        -- no header is made of an empty AudioSpecificConfig
        obtain ⟨-, -, rfl⟩ := Option.map_eq_some_iff.1 hconfig
        rw [hnone] at hheader
        obtain rfl : [] = c' := Option.some.inj hheader.2
        exact hheader.1 rfl

/-! ## Runs -/

theorem reached_new (streamID : UInt32) : Reached (new streamID) [] [] :=
  ⟨rfl, rfl, fun _ => rfl, kept_nil _ _, kept_nil _ _⟩

theorem call_processFrame (ps : PlaySession) (frame : MediaFrame) :
    ps.call (.processFrame frame) = (ps.processFrame frame).map answer :=
  rfl

theorem Reached.call (h : Reached ps calls trace) {c : Call} (hcall : ps.call c = .ok (ps', events)) :
    Reached ps' (calls ++ [c]) (trace ++ events) := by
  cases c with
  | setVideoConfig sps pps =>
    obtain ⟨rfl, rfl⟩ := Prod.mk.inj (Except.ok.inj hcall)
    refine ⟨?_, ?_, h.unset, h.video.setting rfl rfl, h.audio.append (by simp [audioRoles])⟩
    · simp [latest_concat, Call.videoConfig, setVideoConfig]
    · simpa [latest_concat, Call.audioConfig, setVideoConfig] using h.aacConfig
  | setAudioConfig asc sampleRate channels =>
    obtain ⟨rfl, rfl⟩ := Prod.mk.inj (Except.ok.inj hcall)
    refine ⟨?_, ?_, fun hnone => by (cases hnone), h.video.append (by simp [videoRoles]), h.audio.setting rfl rfl⟩
    · simpa [latest_concat, Call.videoConfig, setAudioConfig] using h.avcConfig
    · simp [latest_concat, Call.audioConfig, setAudioConfig]
  | processFrame frame =>
    have hvideo : latest Call.videoConfig (calls ++ [.processFrame frame]) = latest Call.videoConfig calls := by
      simp [latest_concat, Call.videoConfig]
    have haudio : latest Call.audioConfig (calls ++ [.processFrame frame]) = latest Call.audioConfig calls := by
      simp [latest_concat, Call.audioConfig]
    rw [call_processFrame] at hcall
    unfold processFrame at hcall
    split at hcall
    · obtain ⟨⟨sent, rfl, hkept⟩, hidle⟩ := (h.sends_video frame).kept h.video hcall
      exact ⟨hvideo ▸ h.avcConfig, haudio ▸ h.aacConfig, h.unset, hkept,
        h.audio.append fun e he => ⟨(hidle e he).set, (hidle e he).announce⟩⟩
    · obtain ⟨⟨sent, rfl, hkept⟩, hidle⟩ := (h.sends_audio frame).kept h.audio hcall
      exact ⟨hvideo ▸ h.avcConfig, haudio ▸ h.aacConfig, h.unset,
        h.video.append fun e he => ⟨(hidle e he).set, (hidle e he).announce⟩, hkept⟩

theorem reached_of_run {streamID : UInt32} {answers : List (List Event)}
    (hrun : Fallible.run call (new streamID) calls = .ok (ps, answers)) : Reached ps calls answers.flatten := by
  induction calls using List.reverseRecOn generalizing ps answers with
  | nil =>
    obtain ⟨rfl, rfl⟩ : new streamID = ps ∧ [] = answers := by simpa using hrun
    exact reached_new streamID
  | append_singleton calls c ih =>
    obtain ⟨ps₁, answers₁, events, hbefore, hcall, rfl⟩ := Fallible.run_concat_eq_ok.1 hrun
    rw [flatten_concat]
    exact (ih hbefore).call hcall

/-- A frame goes on with a run that is all right exactly when it comes at the right time. -/
theorem heralded_processFrame_iff
    (h : Reached ps calls trace) (hvideo : Heralded videoRoles trace) (haudio : Heralded audioRoles trace)
    (frame : MediaFrame) :
    (∃ ps' events, ps.call (.processFrame frame) = .ok (ps', events) ∧
        Heralded videoRoles (trace ++ events) ∧ Heralded audioRoles (trace ++ events)) ↔ FrameOk calls frame := by
  rw [call_processFrame]
  unfold processFrame FrameOk
  cases frame.type with
  | frameVideo =>
    rw [← (h.sends_video frame).heralded_iff h.video hvideo]
    refine exists₂_congr fun ps' events => and_congr_right fun hcall => and_iff_left ?_
    exact (heralded_append_of_idle ((h.sends_video frame).kept h.video hcall).2).2 haudio
  | frameAudio =>
    rw [← (h.sends_audio frame).heralded_iff h.audio haudio]
    refine exists₂_congr fun ps' events => and_congr_right fun hcall => and_iff_right ?_
    exact (heralded_append_of_idle ((h.sends_audio frame).kept h.audio hcall).2).2 hvideo

theorem configurationFirst_concat_iff {streamID : UInt32} (calls : List Call) (c : Call) :
    ConfigurationFirst streamID (calls ++ [c]) ↔
      ConfigurationFirst streamID calls ∧ ∀ frame, c = .processFrame frame → FrameOk calls frame := by
  constructor
  · rintro ⟨ps', answers', hrun, hvideo, haudio⟩
    obtain ⟨ps, answers, events, hbefore, hcall, rfl⟩ := Fallible.run_concat_eq_ok.1 hrun
    rw [flatten_concat] at hvideo haudio
    refine ⟨⟨ps, answers, hbefore, hvideo.of_append, haudio.of_append⟩, ?_⟩
    rintro frame rfl
    exact (heralded_processFrame_iff (reached_of_run hbefore) hvideo.of_append haudio.of_append frame).1
      ⟨ps', events, hcall, hvideo, haudio⟩
  · rintro ⟨⟨ps, answers, hrun, hvideo, haudio⟩, hok⟩
    obtain ⟨ps', events, hcall, hboth⟩ : ∃ ps' events, ps.call c = .ok (ps', events) ∧
        Heralded videoRoles (answers.flatten ++ events) ∧ Heralded audioRoles (answers.flatten ++ events) := by
      cases c with
      | setVideoConfig sps pps | setAudioConfig asc sampleRate channels =>
        refine ⟨_, _, rfl, ?_, ?_⟩
        · exact (heralded_concat_of_not_uses (by simp [videoRoles])).2 hvideo
        · exact (heralded_concat_of_not_uses (by simp [audioRoles])).2 haudio
      | processFrame frame =>
        exact (heralded_processFrame_iff (reached_of_run hrun) hvideo haudio frame).2 (hok frame rfl)
    rw [← flatten_concat] at hboth
    exact ⟨ps', answers ++ [events], Fallible.run_concat_eq_ok.2 ⟨ps, answers, events, hrun, hcall, rfl⟩, hboth⟩

/-- A player gets the configuration in front of every frame exactly when every frame comes at a right time. -/
theorem configuration_first_iff (streamID : UInt32) (calls : List Call) :
    ConfigurationFirst streamID calls ↔
      ∀ past frame later, calls = past ++ .processFrame frame :: later → FrameOk past frame := by
  have hnil : ConfigurationFirst streamID [] := ⟨new streamID, [], rfl, heralded_nil, heralded_nil⟩
  rw [iff_atEvery hnil configurationFirst_concat_iff]
  constructor
  · intro h past frame later hsplit
    exact h past (.processFrame frame) later hsplit frame rfl
  · rintro h past c later hsplit frame rfl
    exact h past frame later hsplit

/-- The record copies bytes that a short SPS does not have. -/
theorem not_configurationFirst_short_sps :
    ¬ ConfigurationFirst 1 [.setVideoConfig [0x67] [0x68],
      .processFrame { type := .frameVideo, codec := .h264, payload := [0x65] }] := by
  rintro ⟨ps, answers, hrun, -⟩
  cases hrun

end PlaySession
end LingVoice.Rtmp

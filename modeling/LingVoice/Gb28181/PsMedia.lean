import LingVoice.Gb28181.PsReceiver
import LingVoice.Lib.Records

/-!
# PsMedia — what the receiver hands on of a payload

The state of the receiver goes into the sequence numbers of frames and into events, but not into what is handed on:
`handed_eq` says that this is `mediaOf` of each payload.
-/

namespace LingVoice.Gb28181

open Lib (byteAt u16At Mealy.run)
open Common List Output

/-! ## The media of a payload -/

def Output.media : Output → Option (FrameType × Bytes)
  | .trackAdded _ => none
  | .mediaFrame _ frame => some (frame.type, frame.payload)

def videoMedia (payload : Bytes) : List (FrameType × Bytes) :=
  ((splitAnnexB payload).filter (· ≠ [])).map fun nal => (.frameVideo, nal)

def audioMedia (payload : Bytes) : List (FrameType × Bytes) :=
  if payload = [] then [] else [(.frameAudio, payload)]

def pesMedia : Option (TrackKind × PesPacket) → List (FrameType × Bytes)
  | none => []
  | some (.trackVideo, pes) => videoMedia pes.payload
  | some (.trackAudio, pes) => audioMedia pes.payload

def mediaLoop : Nat → Bytes → List (FrameType × Bytes)
  | 0, _ => []
  | fuel + 1, rest =>
    match findStartCode rest with
    | none => []
    | some found =>
      match parseStartCode found with
      | .error _ => []
      | .ok (pes, stop) => pesMedia pes ++ mediaLoop fuel (found.drop stop)

/-- What the receiver hands on of a payload.  It does not depend on the receiver's state. -/
def mediaOf (data : Bytes) : List (FrameType × Bytes) :=
  mediaLoop data.length data

namespace PSReceiver

variable (r : PSReceiver)

theorem media_reportVideoTrack : r.reportVideoTrack.2.filterMap media = [] := by
  unfold reportVideoTrack
  split
  · rfl
  · rfl

theorem media_reportAudioTrack : r.reportAudioTrack.2.filterMap media = [] := by
  unfold reportAudioTrack
  split
  · rfl
  · rfl

variable (rtpTS : UInt32) (rtpMarker : Bool)

theorem media_videoLoop (nalus : List Bytes) (r : PSReceiver) :
    (videoLoop rtpTS rtpMarker r nalus).2.filterMap media =
      (nalus.filter (· ≠ [])).map fun nal => (.frameVideo, nal) := by
  induction nalus generalizing r with
  | nil => rfl
  | cons nal nalus ih =>
    cases nal with
    | nil => exact ih r
    | cons b nal =>
      have hpos : ¬ (b :: nal).length = 0 := Nat.succ_ne_zero _
      simp only [videoLoop, if_neg hpos, filterMap_cons, media, ih]
      rfl

theorem media_handlePES (pes : Option (TrackKind × PesPacket)) :
    (r.handlePES rtpTS rtpMarker pes).2.filterMap media = pesMedia pes := by
  match pes with
  | none => rfl
  | some (.trackVideo, pes) =>
    simp only [handlePES, handleVideoPES, pesMedia, videoMedia]
    by_cases hnil : pes.payload = []
    · rw [hnil]
      rfl
    · have hpos : ¬ pes.payload.length = 0 := fun hzero => hnil (length_eq_zero_iff.1 hzero)
      simp only [if_neg hpos, filterMap_append, media_reportVideoTrack, media_videoLoop, nil_append]
  | some (.trackAudio, pes) =>
    simp only [handlePES, handleAudioPES, pesMedia, audioMedia]
    by_cases hnil : pes.payload = []
    · rw [hnil]
      rfl
    · have hpos : ¬ pes.payload.length = 0 := fun hzero => hnil (length_eq_zero_iff.1 hzero)
      simp only [if_neg hpos, if_neg hnil, filterMap_append, media_reportAudioTrack, nil_append]
      rfl

theorem media_parseLoop (fuel : Nat) (r : PSReceiver) (rest : Bytes) :
    (parseLoop rtpTS rtpMarker fuel r rest).2.filterMap media = mediaLoop fuel rest := by
  induction fuel generalizing r rest with
  | zero => rfl
  | succ fuel ih =>
    rw [parseLoop, mediaLoop]
    cases findStartCode rest with
    | none => rfl
    | some found =>
      cases hparse : parseStartCode found with
      | error e =>
        simp only [hparse]
        rfl
      | ok unit => simp only [hparse, filterMap_append, media_handlePES, ih]

def handed (r : PSReceiver) (pkts : List RtpPacket) : List (FrameType × Bytes) :=
  (Mealy.run processPacket r (pkts.map .rtp)).2.flatten.filterMap Output.media

theorem handed_eq (pkts : List RtpPacket) : r.handed pkts = (pkts.map RtpPacket.payload).flatMap mediaOf := by
  unfold handed
  induction pkts generalizing r with
  | nil => rfl
  | cons pkt pkts ih =>
    have hone : (r.processPacket (.rtp pkt)).2.filterMap media = mediaOf pkt.payload := by
      rw [processPacket]
      split
      · rename_i hzero
        rw [length_eq_zero_iff.1 hzero]
        rfl
      · exact media_parseLoop pkt.timestamp pkt.marker _ r pkt.payload
    rw [map_cons, Lib.Mealy.run_cons, flatten_cons, filterMap_append, hone, ih, map_cons, flatMap_cons]

end PSReceiver

/-! ## One turn of the loop -/

variable {rest : Bytes} {stop : Nat}

theorem atStartCode_iff : AtStartCode rest ↔ ∃ b tail, rest = 0 :: 0 :: 1 :: b :: tail := by
  constructor
  · rintro ⟨hlen, h0, h1, h2⟩
    match rest, hlen with
    | _ :: _ :: _ :: b :: tail, _ =>
      obtain rfl : _ = (0 : UInt8) := h0
      obtain rfl : _ = (0 : UInt8) := h1
      obtain rfl : _ = (1 : UInt8) := h2
      exact ⟨b, tail, rfl⟩
  · rintro ⟨b, tail, rfl⟩
    refine ⟨?_, rfl, rfl, rfl⟩
    simp

theorem AtStartCode.begins (h : AtStartCode rest) : [0, 0, 1] <+: rest := by
  obtain ⟨b, tail, rfl⟩ := atStartCode_iff.1 h
  exact ⟨b :: tail, rfl⟩

theorem findStartCode_cons (b : UInt8) (tail : Bytes) :
    findStartCode (0 :: 0 :: 1 :: b :: tail) = some (0 :: 0 :: 1 :: b :: tail) :=
  Lib.firstSuffix_of_pos (atStartCode_iff.2 ⟨b, tail, rfl⟩)

variable {found : Bytes} {unit : Option (TrackKind × PesPacket)}

theorem findStartCode_eq_some (h : findStartCode rest = some found) :
    found <:+ rest ∧ ∃ b tail, found = 0 :: 0 :: 1 :: b :: tail :=
  ⟨(Lib.firstSuffix_eq_some h).1, atStartCode_iff.1 (Lib.firstSuffix_eq_some h).2⟩

theorem skipPackHeader_pos (h : skipPackHeader rest = .ok stop) : 0 < stop := by
  unfold skipPackHeader at h
  split at h
  · cases h
  · dsimp only at h
    split at h
    · cases h
    · cases h
      omega

theorem skipSection_pos (h : skipSection rest = .ok stop) : 0 < stop := by
  unfold skipSection at h
  split at h
  · cases h
  · dsimp only at h
    split at h
    · cases h
      omega
    · split at h
      · cases h
        omega
      · cases h
        omega

theorem parsePES_pos {pes : PesPacket} (h : parsePES rest = .ok (pes, stop)) : 0 < stop := by
  unfold parsePES at h
  split at h
  · cases h
  · cases h
    split
    · omega
    · omega

def IsVideoId (code : UInt8) : Prop :=
  0xE0 ≤ code ∧ code ≤ 0xEF

def IsAudioId (code : UInt8) : Prop :=
  0xC0 ≤ code ∧ code ≤ 0xDF

instance (code : UInt8) : Decidable (IsVideoId code) :=
  inferInstanceAs (Decidable (_ ∧ _))

instance (code : UInt8) : Decidable (IsAudioId code) :=
  inferInstanceAs (Decidable (_ ∧ _))

/-- The codes that are not those of a pack header or a PES packet are those of sections. -/
theorem parseStartCode_eq : parseStartCode rest =
    if byteAt rest 3 = 0xBA then (skipPackHeader rest).map fun stop => (none, stop)
    else if IsVideoId (byteAt rest 3) then (parsePES rest).map fun r => (some (.trackVideo, r.1), r.2)
    else if IsAudioId (byteAt rest 3) then (parsePES rest).map fun r => (some (.trackAudio, r.1), r.2)
    else (skipSection rest).map fun stop => (none, stop) := by
  have hvideo (code : UInt8) : (code = 0xE0 ∨ 0xE0 ≤ code ∧ code ≤ 0xEF) ↔ IsVideoId code :=
    or_iff_right_of_imp (by rintro rfl; decide)
  have haudio (code : UInt8) : (code = 0xC0 ∨ 0xC0 ≤ code ∧ code ≤ 0xDF) ↔ IsAudioId code :=
    or_iff_right_of_imp (by rintro rfl; decide)
  have hsection (code : UInt8) (h : code = 0xBB ∨ code = 0xBC) : ¬ IsVideoId code ∧ ¬ IsAudioId code := by
    rcases h with rfl | rfl <;> decide
  simp only [parseStartCode, hvideo, haudio]
  split_ifs <;> first | rfl | grind

theorem parseStartCode_video (h : IsVideoId (byteAt rest 3)) :
    parseStartCode rest = (parsePES rest).map fun r => (some (.trackVideo, r.1), r.2) := by
  have hpack : byteAt rest 3 ≠ 0xBA := fun heq => absurd (heq ▸ h) (by decide)
  rw [parseStartCode_eq, if_neg hpack, if_pos h]

theorem parseStartCode_audio (h : IsAudioId (byteAt rest 3)) :
    parseStartCode rest = (parsePES rest).map fun r => (some (.trackAudio, r.1), r.2) := by
  have hpack : byteAt rest 3 ≠ 0xBA := fun heq => absurd (heq ▸ h) (by decide)
  have hvideo : ¬ IsVideoId (byteAt rest 3) := fun hvideo =>
    absurd (UInt8.le_trans hvideo.1 h.2) (by decide)
  rw [parseStartCode_eq, if_neg hpack, if_neg hvideo, if_pos h]

theorem map_eq_ok {ε α β : Type} {x : Except ε α} {f : α → β} {b : β} : x.map f = .ok b ↔ ∃ a, x = .ok a ∧ f a = b := by
  cases x with
  | error e | ok a => simp [Except.map]

theorem stop_pos (h : parseStartCode rest = .ok (unit, stop)) : 0 < stop := by
  rw [parseStartCode_eq] at h
  split_ifs at h <;>
  · obtain ⟨_, hread, heq⟩ := map_eq_ok.1 h
    cases heq
    first | exact skipPackHeader_pos hread | exact parsePES_pos hread | exact skipSection_pos hread

theorem length_drop_lt (hfind : findStartCode rest = some found) (hparse : parseStartCode found = .ok (unit, stop)) :
    (found.drop stop).length < rest.length := by
  rcases findStartCode_eq_some hfind with ⟨hsuffix, b, tail, hfound⟩
  have hle := hsuffix.length_le
  have hpos := stop_pos hparse
  have hlen : found.length = tail.length + 4 := by
    rw [hfound]
    rfl
  rw [length_drop]
  omega

theorem mediaLoop_fuel {m n : Nat} (hm : rest.length ≤ m) (hn : rest.length ≤ n) :
    mediaLoop m rest = mediaLoop n rest := by
  refine Lib.loop_fuel (fun rest hnil => by rw [length_eq_zero_iff.1 hnil]; rfl) ?_ hm hn
  intro n rest ih
  rw [mediaLoop, mediaLoop]
  cases hfind : findStartCode rest with
  | none => rfl
  | some found =>
    cases hparse : parseStartCode found with
    | error e => simp only [hparse]
    | ok unit => simp only [hparse, ih _ (length_drop_lt hfind hparse)]

theorem mediaOf_eq (data : Bytes) :
    mediaOf data =
      match findStartCode data with
      | none => []
      | some found =>
        match parseStartCode found with
        | .error _ => []
        | .ok (unit, stop) => pesMedia unit ++ mediaOf (found.drop stop) := by
  rw [mediaOf, mediaLoop_fuel (Nat.le_refl _) (Nat.le_succ _), mediaLoop]
  cases hfind : findStartCode data with
  | none => rfl
  | some found =>
    cases hparse : parseStartCode found with
    | error e => simp only [hparse]
    | ok unit =>
      have hlt := length_drop_lt hfind hparse
      simp only [hparse, mediaOf]
      rw [mediaLoop_fuel (by omega) (Nat.le_refl _)]

/-- The receiver looks at nothing before the start code it finds. -/
theorem mediaOf_congr {data : Bytes} (h : findStartCode data = findStartCode rest) :
    mediaOf data = mediaOf rest := by
  rw [mediaOf_eq, mediaOf_eq rest, h]

@[simp] theorem mediaOf_nil : mediaOf [] = [] := rfl

end LingVoice.Gb28181

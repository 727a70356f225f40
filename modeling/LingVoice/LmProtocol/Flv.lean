import LingVoice.Lib.AnnexB
import LingVoice.Lib.Avcc
import LingVoice.Lib.Scan
import LingVoice.Lib.Slice
import LingVoice.LmCore.Media

/-!
# Flv — media frames as an FLV stream (`lm-protocol/src/flv.rs`)

`FlvRemuxer` puts out the FLV header before its first tag and then one tag per frame.  H.264 frames go from Annex B
to units with a length of four bytes.  The first keyframe with an SPS and a PPS puts an AVC sequence header before its
own tag.

The two scanners over Annex B data, `extract_sps_pps` and `annex_b_to_avcc`, have the same loop, which is `nalLoop`
here; a position in the data is modelled by the data from there on.
-/

namespace LingVoice.LmProtocol

open Lib (be32 firstSuffix Fault Slice.index)
open LmCore List

/-! ## Headers and codes -/

structure FlvHeader where
  hasAudio : Bool
  hasVideo : Bool
  deriving DecidableEq, Repr

def FlvHeader.toBytes (h : FlvHeader) : Bytes :=
  let flags : UInt8 := (if h.hasAudio then 0x04 else 0) ||| (if h.hasVideo then 0x01 else 0)
  -- "FLV", version 1, the flags, header size 9
  [0x46, 0x4C, 0x56, 0x01, flags, 0x00, 0x00, 0x00, 0x09]

inductive FlvTagType
  | audio
  | video
  | scriptData
  deriving DecidableEq, Repr

def FlvTagType.code : FlvTagType → UInt8
  | .audio => 8
  | .video => 9
  | .scriptData => 18

inductive FlvFrameType
  | keyFrame
  | interFrame
  | disposableInterFrame
  | generatedKeyFrame
  | videoInfoCommandFrame
  deriving DecidableEq, Repr

def FlvFrameType.code : FlvFrameType → UInt8
  | .keyFrame => 1
  | .interFrame => 2
  | .disposableInterFrame => 3
  | .generatedKeyFrame => 4
  | .videoInfoCommandFrame => 5

inductive FlvVideoCodecId
  | sorensonH263
  | screenVideo
  | vp6
  | vp6Alpha
  | screenVideoV2
  | avc
  deriving DecidableEq, Repr

def FlvVideoCodecId.code : FlvVideoCodecId → UInt8
  | .sorensonH263 => 2
  | .screenVideo => 3
  | .vp6 => 4
  | .vp6Alpha => 5
  | .screenVideoV2 => 6
  | .avc => 7

inductive FlvAudioCodecId
  | linearPcmHostEndian
  | adpcm
  | mp3
  | linearPcmLittleEndian
  | nellymoser16K
  | nellymoser8K
  | nellymoser
  | g711ALaw
  | g711MuLaw
  | reserved
  | aac
  | speex
  | opus
  deriving DecidableEq, Repr

def FlvAudioCodecId.code : FlvAudioCodecId → UInt8
  | .linearPcmHostEndian => 0
  | .adpcm => 1
  | .mp3 => 2
  | .linearPcmLittleEndian => 3
  | .nellymoser16K => 4
  | .nellymoser8K => 5
  | .nellymoser => 6
  | .g711ALaw => 7
  | .g711MuLaw => 8
  | .reserved => 9
  | .aac => 10
  | .speex => 11
  | .opus => 13

namespace FlvRemuxer

/-! ## The scanner -/

def startCodeLen (rest : Bytes) : Nat :=
  if rest.take 4 = [0, 0, 0, 1] then 4 else if rest.take 3 = [0, 0, 1] then 3 else 0

def AtStartCode (rest : Bytes) : Prop :=
  4 ≤ rest.length ∧ startCodeLen rest ≠ 0

instance (rest : Bytes) : Decidable (AtStartCode rest) :=
  inferInstanceAs (Decidable (_ ∧ _))

/-- The slices `nal_data`, in order.  Every turn takes at least one byte. -/
def nalLoop : Nat → Bytes → List Bytes
  | 0, _ => []
  | fuel + 1, rest =>
    if rest.length < 4 then
      []
    else if startCodeLen rest = 0 then
      nalLoop fuel (rest.drop 1)
    else
      let nal := rest.drop (startCodeLen rest)
      -- the next start code is looked for behind the first byte of the unit
      match firstSuffix AtStartCode (nal.drop 1) with
      | some next => nal.take (nal.length - next.length) :: nalLoop fuel next
      | none => [nal]

def nalus (data : Bytes) : List Bytes :=
  nalLoop data.length data

def annexBToAvcc (data : Bytes) : Bytes :=
  (nalus data).flatMap fun nal => be32 (UInt32.ofNat nal.length) ++ nal

/-- One turn of `extract_sps_pps`; a later parameter set takes the place of an earlier one. -/
def keepSpsPps (found : Option Bytes × Option Bytes) (nal : Bytes) :
    Except Fault (Option Bytes × Option Bytes) := do
  let header ← Slice.index nal 0
  let nalType := header &&& 0x1F
  if nalType = 7 then
    return (some nal, found.2)
  else if nalType = 8 then
    return (found.1, some nal)
  else
    return found

def extractSpsPps (data : Bytes) : Except Fault (Option Bytes × Option Bytes) :=
  (nalus data).foldlM keepSpsPps (none, none)

/-! ## Tags -/

def buildAvcDecoderConfig (sps pps : Bytes) : Bytes :=
  let profile : Bytes :=
    match sps with
    | _ :: profile :: compatibility :: level :: _ => [profile, compatibility, level]
    | _ => [0x42, 0x00, 0x1E]
  0x01 :: profile ++
    [0xFF, 0xE1, UInt8.ofNat (sps.length >>> 8), UInt8.ofNat (sps.length &&& 0xFF)] ++ sps ++
    [0x01, UInt8.ofNat (pps.length >>> 8), UInt8.ofNat (pps.length &&& 0xFF)] ++ pps

def createTag (tagType : FlvTagType) (timestamp : UInt32) (data : Bytes) : Bytes :=
  let dataSize := UInt32.ofNat data.length
  [tagType.code, (dataSize >>> 16).toUInt8, (dataSize >>> 8).toUInt8, dataSize.toUInt8,
    (timestamp >>> 16).toUInt8, (timestamp >>> 8).toUInt8, timestamp.toUInt8, (timestamp >>> 24).toUInt8,
    0, 0, 0] ++ data ++ be32 (UInt32.ofNat (11 + data.length))

/-- Every codec has the id of H.264. -/
def encodeVideoFrame (frame : MediaFrame) : Bytes :=
  let frameType := if frame.keyframe then FlvFrameType.keyFrame else FlvFrameType.interFrame
  let firstByte := (frameType.code <<< 4) ||| FlvVideoCodecId.avc.code
  firstByte ::
    (if frame.codec = .h264 then [0x01, 0, 0, 0] ++ annexBToAvcc frame.data else frame.data)

def audioCodecId : CodecType → FlvAudioCodecId
  | .opus => .opus
  | .pcmU => .g711MuLaw
  | .pcmA => .g711ALaw
  | .aac => .aac
  | _ => .opus

def encodeAudioFrame (frame : MediaFrame) : Bytes :=
  -- 44 kHz, 16 bits, mono
  let firstByte := ((audioCodecId frame.codec).code <<< 4) ||| ((3 : UInt8) <<< 2) ||| ((1 : UInt8) <<< 1) ||| 0
  firstByte :: ((if frame.codec = .aac then [0x01] else []) ++ frame.data)

def sequenceHeader (sps pps : Bytes) : Bytes :=
  [(FlvFrameType.keyFrame.code <<< 4) ||| FlvVideoCodecId.avc.code, 0x00, 0, 0, 0] ++ buildAvcDecoderConfig sps pps

/-- The clock of RTP in milliseconds; audio is taken to have 48 kHz. -/
def timestampMs (frame : MediaFrame) : UInt32 :=
  match frame.kind with
  | .video => frame.timestamp / 90
  | .audio => frame.timestamp / 48

def tagType : TrackKind → FlvTagType
  | .video => .video
  | .audio => .audio

def tagData (frame : MediaFrame) : Bytes :=
  match frame.kind with
  | .video => encodeVideoFrame frame
  | .audio => encodeAudioFrame frame

end FlvRemuxer

/-! ## The remuxer -/

structure FlvRemuxer where
  headerWritten : Bool
  hasAudio : Bool
  hasVideo : Bool
  lastTimestamp : UInt32
  outputBuffer : Bytes
  avcHeaderWritten : Bool
  sps : Option Bytes
  pps : Option Bytes
  deriving DecidableEq, Repr

namespace FlvRemuxer

def new (hasAudio hasVideo : Bool) : FlvRemuxer :=
  { headerWritten := false
    hasAudio := hasAudio
    hasVideo := hasVideo
    lastTimestamp := 0
    outputBuffer := []
    avcHeaderWritten := false
    sps := none
    pps := none }

def writeHeader (r : FlvRemuxer) : FlvRemuxer :=
  { r with
    outputBuffer := r.outputBuffer ++ (FlvHeader.mk r.hasAudio r.hasVideo).toBytes ++ [0, 0, 0, 0]
    headerWritten := true }

/-- What `push_frame` does with the parameter sets of a keyframe. -/
def keepParameterSets (r : FlvRemuxer) : Option Bytes × Option Bytes → FlvRemuxer
  | (some sps, some pps) =>
    let r := { r with sps := some sps, pps := some pps }
    if r.avcHeaderWritten then
      r
    else
      { r with
        outputBuffer := r.outputBuffer ++ createTag .video 0 (sequenceHeader sps pps)
        avcHeaderWritten := true }
  | _ => r

/-- Only keyframes of H.264 are searched for parameter sets. -/
def takeParameterSets (r : FlvRemuxer) (frame : MediaFrame) : Except Fault FlvRemuxer :=
  if frame.kind = .video ∧ frame.codec = .h264 ∧ frame.keyframe then do
    let found ← extractSpsPps frame.data
    return r.keepParameterSets found
  else
    return r

def pushFrame (r : FlvRemuxer) (frame : MediaFrame) : Except Fault (FlvRemuxer × Bytes) := do
  let r := if r.headerWritten then r else r.writeHeader
  let r ← r.takeParameterSets frame
  let r := { r with
    outputBuffer := r.outputBuffer ++ createTag (tagType frame.kind) (timestampMs frame) (tagData frame)
    lastTimestamp := timestampMs frame }
  return ({ r with outputBuffer := [] }, r.outputBuffer)

def flush (r : FlvRemuxer) : FlvRemuxer × Bytes :=
  ({ r with outputBuffer := [] }, r.outputBuffer)

def reset (r : FlvRemuxer) : FlvRemuxer :=
  { r with
    headerWritten := false
    outputBuffer := []
    lastTimestamp := 0
    avcHeaderWritten := false
    sps := none
    pps := none }

end FlvRemuxer

/-! ## The scanner finds the units -/

namespace FlvRemuxer

section Scanner

open Lib.AnnexB

theorem startCodeLen_startCode (long : Bool) (b : UInt8) (rest : Bytes) :
    startCodeLen (startCode long ++ b :: rest) = (startCode long).length := by
  cases long with
  | true => rfl
  | false =>
    have hfour : ¬ [(0 : UInt8), 0, 1, b] = [0, 0, 0, 1] := by simp
    exact if_neg hfour

theorem not_atStartCode {rest : Bytes} (hshort : ¬ [0, 0, 1] <+: rest) (hlong : ¬ [0, 0, 0, 1] <+: rest) :
    ¬ AtStartCode rest := by
  rintro ⟨-, hcode⟩
  apply hcode
  have hfour : ¬ rest.take 4 = [0, 0, 0, 1] := fun htake => hlong (htake ▸ List.take_prefix 4 rest)
  have hthree : ¬ rest.take 3 = [0, 0, 1] := fun htake => hshort (htake ▸ List.take_prefix 3 rest)
  rw [startCodeLen, if_neg hfour, if_neg hthree]

variable (units : List (Bool × NalUnit))

theorem assemble_eq_nil_or (units : List (Bool × NalUnit)) : assemble units = [] ∨ AtStartCode (assemble units) := by
  cases units with
  | nil => exact .inl rfl
  | cons u units =>
    obtain ⟨b, bytes, hbytes⟩ := exists_cons_of_ne_nil u.2.ne_nil
    refine .inr ?_
    rw [assemble_cons, hbytes, cons_append, AtStartCode, startCodeLen_startCode]
    cases u.1 with
    | true | false => simp [startCode]

/-- One turn on a unit: the unit is cut off where the next start code begins. -/
theorem nalLoop_unit (long : Bool) (unit : NalUnit) (units : List (Bool × NalUnit)) (fuel : Nat) :
    nalLoop (fuel + 1) (assemble ((long, unit) :: units)) = unit.bytes :: nalLoop fuel (assemble units) := by
  obtain ⟨b, bytes, hbytes⟩ := exists_cons_of_ne_nil unit.ne_nil
  have hdata : assemble ((long, unit) :: units) = startCode long ++ b :: (bytes ++ assemble units) := by
    rw [assemble_cons, hbytes, cons_append]
  have hlen := startCodeLen_startCode long b (bytes ++ assemble units)
  have hlong : ¬ (startCode long ++ b :: (bytes ++ assemble units)).length < 4 := by
    cases long with
    | true | false => simp [startCode]
  have hpos : ¬ (startCode long).length = 0 := mt length_eq_zero_iff.1 (startCode_ne_nil long)
  -- the search starts behind the first byte of the unit and passes over the others
  have hnext : firstSuffix AtStartCode (bytes ++ assemble units) = firstSuffix AtStartCode (assemble units) := by
    apply Lib.firstSuffix_append
    intro u hne hsuffix
    have hunit : u <:+ unit.bytes := hbytes ▸ hsuffix.trans (suffix_cons b bytes)
    have hcodes := unit.no_code hne hunit (assemble units)
    exact not_atStartCode hcodes.1 hcodes.2
  rw [hdata, nalLoop, if_neg hlong, hlen, if_neg hpos, drop_left, hbytes]
  simp only [drop_succ_cons, drop_zero]
  rcases Lib.firstSuffix_cut b hnext (assemble_eq_nil_or units) with ⟨hfind, hnil⟩ | ⟨hfind, htake⟩
  · rw [hfind, hnil, append_nil]
    cases fuel with
    | zero | succ fuel => rfl
  · simp only [hfind, htake]

/-- Both scanners see the units of the data. -/
theorem nalus_assemble : nalus (assemble units) = units.map fun u => u.2.bytes := by
  refine loop_assemble (fun fuel => ?_) nalLoop_unit units (Nat.le_refl _)
  cases fuel <;> rfl

theorem annexBToAvcc_assemble :
    annexBToAvcc (assemble units) = (units.map fun u => u.2.bytes).flatMap Lib.Avcc.encodeUnit := by
  rw [annexBToAvcc, nalus_assemble]
  rfl

end Scanner

end FlvRemuxer

end LingVoice.LmProtocol

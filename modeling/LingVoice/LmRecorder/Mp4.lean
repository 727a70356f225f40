import LingVoice.Lib.Isobmff
import LingVoice.Lib.Scan
import LingVoice.Lib.Slice
import Mathlib.Data.UInt

/-!
# Mp4 — the native MP4 muxer (`lm-recorder/src/lib.rs`, `native_mp4_from_h264` and `build_mp4`)

An Annex B stream is scanned for parameter sets and slices; the slices are then copied, each behind its length, into
an `mdat` box that stands behind `ftyp` and `moov`.  The chunk offset in `moov` is computed before `moov` is, from the
size of `ftyp` alone.

Index and slice expressions may be out of range, and a panic is a `Fault`.
-/

namespace LingVoice.LmRecorder.Mp4

open Lib
open Lib.Isobmff

/-! ## Boxes -/

def vp08 : Bytes := [0x76, 0x70, 0x30, 0x38]
def vp09 : Bytes := [0x76, 0x70, 0x30, 0x39]
def vpcC : Bytes := [0x76, 0x70, 0x63, 0x43]
def vide : Bytes := [0x76, 0x69, 0x64, 0x65]

def boxHeader (size : Nat) (boxType : Bytes) : Bytes :=
  be32 (UInt32.ofNat size + 8) ++ boxType

def fullBoxHeader (payloadSize : Nat) (boxType : Bytes) (version : UInt8) (flags : UInt32) : Bytes :=
  be32 (UInt32.ofNat payloadSize + 12) ++ boxType ++ [version] ++ (be32 flags).drop 1

def boxed (boxType payload : Bytes) : Bytes :=
  boxHeader payload.length boxType ++ payload

/-! ## The sample table -/

inductive Mp4VideoCodec
  | avc1
  | vp08
  | vp09
  deriving DecidableEq, Repr

structure SampleOffset where
  offset : UInt64
  size : UInt32
  duration : UInt32
  isKeyframe : Bool
  deriving DecidableEq, Repr

def visualSampleEntry : Bytes :=
  List.replicate 6 0 ++ be16 1 ++ List.replicate 16 0 ++ be16 320 ++ be16 240 ++ be32 0x00480000 ++ be32 0x00480000 ++
    be32 0 ++ be16 1 ++ List.replicate 32 0 ++ be16 0x0018 ++ be16 0xFFFF

/-- The three bytes behind the first one of the parameter set, which need not be there. -/
def profileOf (sps : Bytes) : Except Fault Bytes :=
  if sps ≠ [] then do
    let profile ← Slice.index sps 1
    let compatibility ← Slice.index sps 2
    let level ← Slice.index sps 3
    return [profile, compatibility, level]
  else
    return [0x42, 0x00, 0x1E]

def vpConfig : Bytes :=
  [0x00, 0x08, 0x08, 1, 1, 1] ++ be16 0

def buildStsdData (sps pps : Bytes) : Mp4VideoCodec → Except Fault Bytes
  | .avc1 => do
      let profile ← profileOf sps
      let avcc := [1] ++ profile ++ [0xFF, 0xE1] ++ be16 (UInt16.ofNat sps.length) ++ sps ++ [1] ++
        be16 (UInt16.ofNat pps.length) ++ pps
      return be32 (UInt32.ofNat (8 + visualSampleEntry.length + 8 + avcc.length)) ++ avc1 ++ visualSampleEntry ++
        be32 (8 + UInt32.ofNat avcc.length) ++ avcC ++ avcc
  | .vp08 => return vpEntry vp08
  | .vp09 => return vpEntry vp09
where
  vpEntry (vpcType : Bytes) : Bytes :=
    be32 (UInt32.ofNat (8 + visualSampleEntry.length + 12 + vpConfig.length)) ++ vpcType ++ visualSampleEntry ++
      be32 (12 + UInt32.ofNat vpConfig.length) ++ vpcC ++ [1] ++ List.replicate 3 0 ++ vpConfig

def sttsTable (samples : List SampleOffset) : Bytes :=
  -- eight bytes are counted, twelve follow
  fullBoxHeader 8 stts 0 0 ++ be32 1 ++ be32 (UInt32.ofNat samples.length) ++ be32 3000

def stscTable (samples : List SampleOffset) : Bytes :=
  fullBoxHeader 16 stsc 0 0 ++ be32 1 ++ be32 1 ++ be32 (UInt32.ofNat samples.length) ++ be32 1

def stszTable (samples : List SampleOffset) : Bytes :=
  fullBoxHeader (8 + samples.length * 4) stsz 0 0 ++ be32 0 ++ be32 (UInt32.ofNat samples.length) ++
    samples.flatMap fun s => be32 s.size

def stcoTable (mdatDataOffset : UInt32) : Bytes :=
  fullBoxHeader 8 stco 0 0 ++ be32 1 ++ be32 mdatDataOffset

def keyframeIndices (samples : List SampleOffset) : List UInt32 :=
  (samples.zipIdx.filter fun s => s.1.isKeyframe).map fun s => UInt32.ofNat s.2 + 1

def stssTable (indices : List UInt32) : Bytes :=
  fullBoxHeader (4 + indices.length * 4) stss 0 0 ++ be32 (UInt32.ofNat indices.length) ++ indices.flatMap be32

def buildStblBox (sps pps : Bytes) (samples : List SampleOffset) (mdatDataOffset : UInt32)
    (codec : Mp4VideoCodec) : Except Fault Bytes := do
  let stsdData ← buildStsdData sps pps codec
  let indices := keyframeIndices samples
  return fullBoxHeader (4 + stsdData.length) stsd 0 0 ++ be32 1 ++ stsdData ++
    boxed stts (sttsTable samples) ++ boxed stsc (stscTable samples) ++ boxed stsz (stszTable samples) ++
    boxed stco (stcoTable mdatDataOffset) ++ if indices = [] then [] else boxed stss (stssTable indices)

/-! ## The movie box -/

def totalDuration (samples : List SampleOffset) : UInt64 :=
  (samples.map fun s => s.duration.toUInt64).sum

def unityMatrix : Bytes :=
  [(0x00010000 : UInt32), 0, 0, 0, 0x00010000, 0, 0, 0, 0x40000000].flatMap be32

def mdhdBox (samples : List SampleOffset) (timescale : UInt32) : Bytes :=
  fullBoxHeader 20 mdhd 0 0 ++ be32 0 ++ be32 0 ++ be32 timescale ++ be32 (totalDuration samples).toUInt32 ++
    be32 0x55C40000

def hdlrBox : Bytes :=
  fullBoxHeader 21 hdlr 0 0 ++ be32 0 ++ vide ++ List.replicate 12 0 ++ [0]

def vmhdBox : Bytes :=
  fullBoxHeader 8 vmhd 0 1 ++ be16 0 ++ List.replicate 6 0

def drefBox : Bytes :=
  fullBoxHeader 4 dref 0 0 ++ be32 4

def buildMdiaBox (sps pps : Bytes) (samples : List SampleOffset) (mdatDataOffset timescale : UInt32)
    (codec : Mp4VideoCodec) : Except Fault Bytes := do
  let table ← buildStblBox sps pps samples mdatDataOffset codec
  return boxed mdhd (mdhdBox samples timescale) ++ boxed hdlr hdlrBox ++
    boxed minf (boxed vmhd vmhdBox ++ boxed dinf drefBox ++ boxed stbl table)

def tkhdBox (samples : List SampleOffset) : Bytes :=
  fullBoxHeader 80 tkhd 0 3 ++ be32 0 ++ be32 0 ++ be32 1 ++ be32 0 ++ be32 (totalDuration samples).toUInt32 ++
    List.replicate 8 0 ++ be16 0 ++ be16 0 ++ be16 0 ++ be16 0 ++ unityMatrix ++ be32 0x01400000 ++ be32 0x00F00000

def buildTrakBox (sps pps : Bytes) (samples : List SampleOffset) (mdatDataOffset timescale : UInt32)
    (codec : Mp4VideoCodec) : Except Fault Bytes := do
  let media ← buildMdiaBox sps pps samples mdatDataOffset timescale codec
  return boxed tkhd (tkhdBox samples) ++ boxed mdia media

def mvhdBox (samples : List SampleOffset) (timescale : UInt32) : Bytes :=
  fullBoxHeader 92 mvhd 0 0 ++ be32 0 ++ be32 0 ++ be32 timescale ++ be32 (totalDuration samples).toUInt32 ++
    be32 0x00010000 ++ be16 0x0100 ++ List.replicate 10 0 ++ unityMatrix ++ List.replicate 24 0

def buildMoovBox (sps pps : Bytes) (samples : List SampleOffset) (mdatDataOffset timescale : UInt32)
    (codec : Mp4VideoCodec) : Except Fault Bytes := do
  let track ← buildTrakBox sps pps samples mdatDataOffset timescale codec
  return boxed moov (boxed mvhd (mvhdBox samples timescale) ++ boxed trak track)

/-! ## Start codes -/

def startCodeLen (data : Bytes) (offset : Nat) : Option Nat :=
  if [0, 0, 0, 1] <+: data.drop offset then some 4 else if [0, 0, 1] <+: data.drop offset then some 3 else none

def AtStartCode (rest : Bytes) : Prop :=
  [0, 0, 1] <+: rest ∨ [0, 0, 0, 1] <+: rest

instance (rest : Bytes) : Decidable (AtStartCode rest) :=
  inferInstanceAs (Decidable (_ ∨ _))

/-- The next start code behind the first byte of a unit, or `stop`.  Both scanners look for it this way, one up to the
end of the data and one up to the end of a sample. -/
def searchNalEnd (data : Bytes) (stop nalStart : Nat) : Nat :=
  match firstSuffix AtStartCode ((data.take stop).drop (nalStart + 1)) with
  | some next => (data.take stop).length - next.length
  | none => stop

/-! ## From samples to a file -/

abbrev Sample := Nat × Nat × Bool

/-- The units of a sample, each behind its length instead of a start code. -/
def lengthPrefixed (rawData : Bytes) (stop : Nat) : Nat → Nat → Except Fault Bytes
  | 0, _ => .error .outOfFuel
  | fuel + 1, nalOffset =>
    if nalOffset < stop then
      match startCodeLen rawData nalOffset with
      | none => .ok []
      | some scLen => do
          let nalStart := nalOffset + scLen
          let nalEnd := searchNalEnd rawData stop nalStart
          let nal ← Slice.slice rawData nalStart nalEnd
          let rest ← lengthPrefixed rawData stop fuel nalEnd
          return be32 (UInt32.ofNat (nalEnd - nalStart)) ++ nal ++ rest
    else .ok []

def sampleData (rawData : Bytes) (codec : Mp4VideoCodec) (sample : Sample) : Except Fault Bytes :=
  match codec with
  | .avc1 => lengthPrefixed rawData (sample.1 + sample.2.1) (sample.2.1 + 1) sample.1
  | .vp08 | .vp09 => Slice.slice rawData sample.1 (sample.1 + sample.2.1 : Nat)

/-- One turn of the loop over the samples: `mdat_data` and `sample_offsets`. -/
def addSample (rawData : Bytes) (codec : Mp4VideoCodec) (acc : Bytes × List SampleOffset) (sample : Sample) :
    Except Fault (Bytes × List SampleOffset) := do
  let data ← sampleData rawData codec sample
  let entry : SampleOffset :=
    { offset := UInt64.ofNat acc.1.length
      size := UInt32.ofNat data.length
      duration := 3000
      isKeyframe := sample.2.2 }
  return (acc.1 ++ data, acc.2 ++ [entry])

/-- isom, version 0x200, isom, avc1, mp42 -/
def ftypPayload : Bytes :=
  [0x69, 0x73, 0x6f, 0x6d, 0x00, 0x00, 0x02, 0x00, 0x69, 0x73, 0x6f, 0x6d, 0x61, 0x76, 0x63, 0x31,
    0x6d, 0x70, 0x34, 0x32]

/-- It never returns `None`. -/
def buildMp4 (sps pps : Bytes) (samples : List Sample) (rawData : Bytes) (codec : Mp4VideoCodec) :
    Except Fault (Option Bytes) := do
  let mp4 := be32 (8 + UInt32.ofNat ftypPayload.length) ++ ftyp ++ ftypPayload
  let (mdatData, sampleOffsets) ← samples.foldlM (addSample rawData codec) ([], [])
  -- the offset of the samples if `mdat` came right behind `ftyp`
  let mdatDataOffset := UInt32.ofNat mp4.length + 8
  let movie ← buildMoovBox sps pps sampleOffsets mdatDataOffset 90000 codec
  return some (mp4 ++ movie ++ (be32 (8 + UInt32.ofNat mdatData.length) ++ mdat ++ mdatData))

/-! ## The first scan -/

structure H264Scan where
  sps : Bytes
  pps : Bytes
  samples : List Sample
  deriving DecidableEq, Repr

/-- A unit with this header, at this offset with its start code; a later parameter set takes the place of an earlier
one. -/
def H264Scan.add (found : H264Scan) (header : UInt8) (nal : Bytes) (offset size : Nat) : H264Scan :=
  let nalType := header &&& 0x1F
  if nalType = 7 then { found with sps := nal }
  else if nalType = 8 then { found with pps := nal }
  else if nalType = 5 then { found with samples := found.samples ++ [(offset, size, true)] }
  else if nalType = 1 then { found with samples := found.samples ++ [(offset, size, false)] }
  else found

def scan (data : Bytes) : Nat → Nat → H264Scan → Except Fault H264Scan
  | 0, _, _ => .error .outOfFuel
  | fuel + 1, offset, found =>
    if offset < data.length then
      match startCodeLen data offset with
      | none => scan data fuel (offset + 1) found
      | some scLen => do
          let nalStart := offset + scLen
          let nalEnd := searchNalEnd data data.length nalStart
          let header ← Slice.index data nalStart
          let nal ← Slice.slice data nalStart nalEnd
          scan data fuel nalEnd (found.add header nal (nalStart - scLen) (nalEnd - nalStart + scLen))
    else .ok found

def nativeMp4FromH264 (data : Bytes) : Except Fault (Option Bytes) := do
  let found ← scan data (data.length + 1) 0 ⟨[], [], []⟩
  if found.sps = [] ∨ found.pps = [] ∨ found.samples = [] then
    return none
  else
    buildMp4 found.sps found.pps found.samples data .avc1

end LingVoice.LmRecorder.Mp4

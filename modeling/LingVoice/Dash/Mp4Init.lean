import LingVoice.Lib.Isobmff
import LingVoice.Lib.Utf8

/-!
# Mp4Init — init segments of DASH (`mp4_init.go`)

The builders of the header boxes return whole boxes.  `BuildInitSegment` puts that of the movie header into another
`mvhd` box, whose body is then eight bytes too long.
-/

namespace LingVoice.Dash

open Lib List

def zeros (n : Nat) : Bytes :=
  replicate n 0

def boxName (boxType : String) : Bytes :=
  (utf8Bytes boxType ++ zeros 4).take 4

def box (boxType : String) (data : Bytes) : Bytes :=
  Isobmff.box (boxName boxType) data

def fullBox (boxType : String) (version : UInt8) (flags : UInt32) (data : Bytes) : Bytes :=
  box boxType ([version, (flags >>> 16).toUInt8, (flags >>> 8).toUInt8, flags.toUInt8] ++ data)

def ftypData : Bytes :=
  utf8Bytes "iso5" ++ be32 0x200 ++ utf8Bytes "iso5" ++ utf8Bytes "avc1" ++ utf8Bytes "mp42"

def identityMatrix : Bytes :=
  [0x00010000, 0, 0, 0, 0x00010000, 0, 0, 0, 0x40000000].flatMap be32

def mvhdData : Bytes :=
  fullBox "mvhd" 0 0 ([0, 0, 1000, 0, 0x00010000].flatMap be32 ++ be16 0x0100 ++ zeros 10 ++ identityMatrix ++
    zeros 24 ++ be32 3)

def tkhdData (trackID width height volume : UInt32) : Bytes :=
  fullBox "tkhd" 0 0x000007 ([0, 0, trackID, 0, 0].flatMap be32 ++ zeros 8 ++
    [0, 0, volume.toUInt16, 0].flatMap be16 ++ identityMatrix ++ be32 (width <<< 16) ++ be32 (height <<< 16))

def mdhdData (timescale : UInt32) : Bytes :=
  fullBox "mdhd" 0 0 ([0, 0, timescale, 0].flatMap be32 ++ be16 0x55C4 ++ be16 0)

def hdlrData (handlerType name : String) : Bytes :=
  fullBox "hdlr" 0 0 (be32 0 ++ utf8Bytes handlerType ++ zeros 12 ++ (utf8Bytes name ++ [0]))

def trexData (trackID : UInt32) : Bytes :=
  fullBox "trex" 0 0 ([trackID, 1, 0, 0, 0].flatMap be32)

def buildVisualSampleEntry (codec : String) (width height : UInt16) : Bytes :=
  box codec (zeros 6 ++ [1, 0, 0].flatMap be16 ++ zeros 12 ++ be16 width ++ be16 height ++
    [0x00480000, 0x00480000, 0].flatMap be32 ++ be16 1 ++ zeros 32 ++ be16 0x0018 ++ be16 0xFFFF)

def buildAudioSampleEntry (codec : String) (channels sampleRate : UInt16) : Bytes :=
  box codec (zeros 6 ++ be16 1 ++ zeros 8 ++ [channels, 16, 0, 0].flatMap be16 ++
    be32 (sampleRate.toUInt32 <<< 16))

/-- `buildVideoStbl` and `buildAudioStbl`, which differ in the sample entry. -/
def buildStbl (entry : Bytes) : Bytes :=
  box "stbl" (fullBox "stsd" 0 0 (be32 1 ++ entry) ++ fullBox "stts" 0 0 (be32 0) ++ fullBox "stsc" 0 0 (be32 0) ++
    fullBox "stsz" 0 0 (be32 0 ++ be32 0) ++ fullBox "stco" 0 0 (be32 0))

/-- `buildVideoMinf` and `buildAudioMinf`, which differ in the media header. -/
def buildMinf (header entry : Bytes) : Bytes :=
  box "minf" (header ++ box "dinf" (be32 1 ++ box "dref" (fullBox "url " 0 1 [])) ++ buildStbl entry)

def buildVideoTrak (trackID : UInt32) (codec : String) (width height : UInt32) : Bytes :=
  box "trak" (tkhdData trackID width height 0 ++ box "mdia" (mdhdData 1000 ++ hdlrData "vide" "VideoHandler" ++
    buildMinf (fullBox "vmhd" 0 1 (zeros 8)) (buildVisualSampleEntry codec width.toUInt16 height.toUInt16)))

def buildAudioTrak (trackID : UInt32) (codec : String) (sampleRate channels : UInt32) : Bytes :=
  box "trak" (tkhdData trackID 0 0 0x0100 ++ box "mdia" (mdhdData sampleRate ++ hdlrData "soun" "SoundHandler" ++
    buildMinf (fullBox "smhd" 0 0 (be16 0 ++ be16 0))
      (buildAudioSampleEntry codec channels.toUInt16 sampleRate.toUInt16)))

def buildInitSegment (videoCodec : String) (width height : UInt32) (audioCodec : String)
    (sampleRate channels : UInt32) : Bytes :=
  let video := if videoCodec = "" then [] else [buildVideoTrak 1 videoCodec width height]
  let trackID := UInt32.ofNat (1 + video.length)
  let traks := video ++ if audioCodec = "" then [] else [buildAudioTrak trackID audioCodec sampleRate channels]
  let mvexData := (range' 1 traks.length).flatMap fun tid => trexData (.ofNat tid)
  box "ftyp" ftypData ++ box "moov" (box "mvhd" mvhdData ++ (traks.flatten ++ box "mvex" mvexData))

/-! ## Well-formed segments -/

def Entries (body : Bytes) : Prop :=
  ∃ bs, Box.boxes (body.drop 8) = some bs ∧ bs.length = beAt 4 body 4

def TrakWellFormed (id : Nat) (trak : Bytes) : Prop :=
  ∃ tkhd mdia mdhd hdlr minf header dinf dref stbl stsd tables,
    Box.boxes trak = some [⟨boxName "tkhd", tkhd⟩, ⟨boxName "mdia", mdia⟩] ∧ beAt 4 tkhd 12 = id ∧
    Box.boxes mdia = some [⟨boxName "mdhd", mdhd⟩, ⟨boxName "hdlr", hdlr⟩, ⟨boxName "minf", minf⟩] ∧
    Box.boxes minf = some [header, ⟨boxName "dinf", dinf⟩, ⟨boxName "stbl", stbl⟩] ∧
    Box.boxes dinf = some [⟨boxName "dref", dref⟩] ∧ Entries dref ∧
    Box.boxes stbl = some (⟨boxName "stsd", stsd⟩ :: tables) ∧ Entries stsd

/-- The boxes of a segment with one track for each codec, every container filled exactly. -/
def WellFormed (videoCodec audioCodec : String) (segment : Bytes) : Prop :=
  ∃ ftyp moov mvhd mvex, ∃ traks trexs : List Bytes,
    Box.boxes segment = some [⟨boxName "ftyp", ftyp⟩, ⟨boxName "moov", moov⟩] ∧
    Box.boxes moov =
      some (⟨boxName "mvhd", mvhd⟩ :: (traks.map (Box.mk (boxName "trak")) ++ [⟨boxName "mvex", mvex⟩])) ∧
    mvhd.length = 100 ∧ traks.length = [videoCodec, audioCodec].countP (· ≠ "") ∧
    (∀ i trak, traks[i]? = some trak → TrakWellFormed (i + 1) trak) ∧
    Box.boxes mvex = some (trexs.map (Box.mk (boxName "trex"))) ∧
    trexs.map (beAt 4 · 4) = range' 1 traks.length

theorem length_boxName (boxType : String) : (boxName boxType).length = 4 := by
  simp [boxName, zeros]

/-- The first box of a movie is the whole of `mvhdData` in a box, which is too long. -/
theorem length_of_boxes {rest : Bytes} {f m b : Box} {bs : List Box}
    (htop : Box.boxes (box "ftyp" ftypData ++ box "moov" (box "mvhd" mvhdData ++ rest)) = some [f, m])
    (hmoov : Box.boxes m.payload = some (b :: bs)) : b.payload.length = 108 := by
  rw [box, Isobmff.boxes_box (length_boxName _) (by decide +kernel)] at htop
  obtain ⟨_, hmovie, hcons⟩ := Option.map_eq_some_iff.1 htop
  obtain ⟨-, rfl⟩ := cons.inj hcons
  have hlt := Isobmff.length_lt_of_boxes_singleton hmovie
  rw [box, Isobmff.length_box (length_boxName _)] at hlt
  rw [← append_nil (box "moov" _), box, Isobmff.boxes_box (length_boxName _) hlt] at hmovie
  obtain ⟨_, -, hone⟩ := Option.map_eq_some_iff.1 hmovie
  obtain ⟨rfl, -⟩ := cons.inj hone
  rw [box, Isobmff.boxes_box (length_boxName _) (by decide +kernel)] at hmoov
  obtain ⟨_, -, hfirst⟩ := Option.map_eq_some_iff.1 hmoov
  obtain ⟨rfl, -⟩ := cons.inj hfirst
  decide +kernel

/-- No init segment is well formed. -/
theorem buildInitSegment_not_wellFormed (videoCodec : String) (width height : UInt32) (audioCodec : String)
    (sampleRate channels : UInt32) :
    ¬ WellFormed videoCodec audioCodec
      (buildInitSegment videoCodec width height audioCodec sampleRate channels) := by
  rintro ⟨_, _, mvhd, _, _, _, htop, hmoov, hlength, -⟩
  exact absurd ((length_of_boxes htop hmoov).symm.trans hlength) (by decide)

theorem video_not_wellFormed : ¬ WellFormed "avc1" "" (buildInitSegment "avc1" 640 480 "" 48000 2) := by
  rintro ⟨_, _, mvhd, _, _, _, htop, hmoov, hlength, -⟩
  exact absurd ((length_of_boxes htop hmoov).symm.trans hlength) (by decide)

end LingVoice.Dash

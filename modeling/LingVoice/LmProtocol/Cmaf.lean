import LingVoice.Lib.Box

/-!
# Cmaf — media segments of the CMAF muxer (`lm-protocol/src/hls.rs`)

`build_segment` writes a `styp`, a `moof` and an `mdat` box and then looks for the bytes `trun` to patch the data
offset behind them.  The header of `mfhd` counts four bytes of sequence number, eight are written, so that a walker
meets the second half of the number where `traf` should be.  The data offset counts from the start of the segment
and not from the start of `moof`.
-/

namespace LingVoice.LmProtocol

open Lib List Lib.Box

structure CmafMuxer where
  sequence : UInt64
  trackId : UInt32
  timescale : UInt32
  deriving DecidableEq, Repr

namespace Cmaf

def styp : Bytes := [0x73, 0x74, 0x79, 0x70]
def msdh : Bytes := [0x6d, 0x73, 0x64, 0x68]
def msix : Bytes := [0x6d, 0x73, 0x69, 0x78]
def moof : Bytes := [0x6d, 0x6f, 0x6f, 0x66]
def mfhd : Bytes := [0x6d, 0x66, 0x68, 0x64]
def traf : Bytes := [0x74, 0x72, 0x61, 0x66]
def tfhd : Bytes := [0x74, 0x66, 0x68, 0x64]
def tfdt : Bytes := [0x74, 0x66, 0x64, 0x74]
def trun : Bytes := [0x74, 0x72, 0x75, 0x6e]
def mdat : Bytes := [0x6d, 0x64, 0x61, 0x74]

def boxHeader (size : Nat) (boxType : Bytes) : Bytes :=
  be32 (UInt32.ofNat size + 8) ++ boxType

def fullBoxHeader (payloadSize : Nat) (boxType : Bytes) (version : UInt8) (flags : UInt32) : Bytes :=
  be32 (UInt32.ofNat payloadSize + 12) ++ boxType ++ [version] ++ (be32 flags).drop 1

end Cmaf

open Cmaf

namespace CmafMuxer

def new (trackId timescale : UInt32) : CmafMuxer :=
  { sequence := 0
    trackId := trackId
    timescale := timescale }

def buildTraf (m : CmafMuxer) (duration : UInt64) (mediaDataLen : Nat) (isKeyframe : Bool) : Bytes :=
  fullBoxHeader 4 tfhd 0 0x020000 ++ be32 m.trackId ++
    fullBoxHeader 8 tfdt 1 0 ++ be64 duration ++
    fullBoxHeader (4 + 4 + 1 * 12) trun 0 0x000F00 ++ be32 1 ++
    -- the data offset, patched later
    be32 0 ++ be32 duration.toUInt32 ++ be32 (UInt32.ofNat mediaDataLen) ++
    be32 (if isKeyframe then 0x02000000 else 0x02010000)

/-- The header has a size for four bytes of sequence number. -/
def buildMoof (m : CmafMuxer) (duration : UInt64) (mediaDataLen : Nat) (isKeyframe : Bool) : Bytes :=
  let traf := m.buildTraf duration mediaDataLen isKeyframe
  fullBoxHeader 4 mfhd 0 0 ++ be64 m.sequence ++ boxHeader traf.length Cmaf.traf ++ traf

def assemble (m : CmafMuxer) (mediaData : Bytes) (duration : UInt64) (isKeyframe : Bool) : Bytes :=
  let moof := m.buildMoof duration mediaData.length isKeyframe
  boxHeader 16 styp ++ msdh ++ be32 0 ++ msdh ++ msix ++
    boxHeader moof.length Cmaf.moof ++ moof ++ boxHeader mediaData.length mdat ++ mediaData

/-- Where the search ends: the first `trun` that is more than 20 bytes away from the end. -/
def trunIndex (out : Bytes) : Option Nat :=
  (List.range (out.length - 20)).find? fun i => (out.drop i).take 4 = trun

def fixDataOffset (out : Bytes) (dataOffset : UInt32) : Bytes :=
  match trunIndex out with
  | none => out
  | some i =>
    let offsetPos := i + 12
    if offsetPos + 4 ≤ out.length then
      out.take offsetPos ++ be32 dataOffset ++ out.drop (offsetPos + 4)
    else
      out

def buildSegment (m : CmafMuxer) (mediaData : Bytes) (duration : UInt64) (isKeyframe : Bool) :
    CmafMuxer × Bytes :=
  let moofSize := (m.buildMoof duration mediaData.length isKeyframe).length + 8
  let dataOffset := 24 + UInt32.ofNat moofSize + 8
  ({ m with sequence := m.sequence + 1 }, fixDataOffset (m.assemble mediaData duration isKeyframe) dataOffset)

/-- The box tree of a media segment: the sizes tile at every level, `mdat` has the media data, and the data offset
is the place of its payload, counted from the start of `moof`. -/
structure WellFormed (mediaData segment : Bytes) : Prop where
  tree : ∃ stypPayload moofPayload mfhdPayload trafPayload tfhdPayload tfdtPayload trunPayload,
    Box.boxes segment = some [⟨styp, stypPayload⟩, ⟨moof, moofPayload⟩, ⟨mdat, mediaData⟩] ∧
      Box.boxes moofPayload = some [⟨mfhd, mfhdPayload⟩, ⟨traf, trafPayload⟩] ∧
      Box.boxes trafPayload = some [⟨tfhd, tfhdPayload⟩, ⟨tfdt, tfdtPayload⟩, ⟨trun, trunPayload⟩] ∧
      -- version and flags, the sample count, the offset
      beAt 4 trunPayload 8 = 8 + moofPayload.length + 8

/-! ## The front of a segment -/

/-- All bytes up to the sequence number. -/
def fixedFront : Bytes :=
  [0, 0, 0, 24] ++ styp ++ msdh ++ [0, 0, 0, 0] ++ msdh ++ msix ++ [0, 0, 0, 104] ++ moof ++ [0, 0, 0, 16] ++ mfhd ++
    [0, 0, 0, 0]

variable (m : CmafMuxer)

theorem length_buildTraf (duration : UInt64) (mediaDataLen : Nat) (isKeyframe : Bool) :
    (m.buildTraf duration mediaDataLen isKeyframe).length = 68 := by
  simp [buildTraf, fullBoxHeader, tfhd, tfdt, trun]

theorem length_buildMoof (duration : UInt64) (mediaDataLen : Nat) (isKeyframe : Bool) :
    (m.buildMoof duration mediaDataLen isKeyframe).length = 96 := by
  simp [buildMoof, length_buildTraf, fullBoxHeader, boxHeader, mfhd, traf]

theorem assemble_eq (mediaData : Bytes) (duration : UInt64) (isKeyframe : Bool) :
    m.assemble mediaData duration isKeyframe =
      fixedFront ++ be64 m.sequence ++ [0, 0, 0, 76] ++
        (traf ++ m.buildTraf duration mediaData.length isKeyframe ++ boxHeader mediaData.length mdat ++ mediaData) := by
  have hstyp : boxHeader 16 styp = [0, 0, 0, 24] ++ styp := by decide
  have hmoof : boxHeader 96 moof = [0, 0, 0, 104] ++ moof := by decide
  have hmfhd : fullBoxHeader 4 mfhd 0 0 = [0, 0, 0, 16] ++ mfhd ++ [0, 0, 0, 0] := by decide
  have htraf : boxHeader 68 traf = [0, 0, 0, 76] ++ traf := by decide
  have hzero : be32 0 = [0, 0, 0, 0] := by decide
  rw [assemble, length_buildMoof, buildMoof, length_buildTraf, hstyp, hmoof, hmfhd, htraf, hzero, fixedFront]
  simp only [append_assoc]

/-- The search does not end before the sequence number. -/
theorem le_of_trunIndex {rest : Bytes} {i : Nat} (h : trunIndex (fixedFront ++ rest) = some i) : 44 ≤ i := by
  have hfound : ((fixedFront ++ rest).drop i).take 4 = trun := by
    have hp := find?_some h
    exact of_decide_eq_true hp
  have hat : ∀ k < 4, (fixedFront ++ rest)[i + k]? = trun[k]? := by
    intro k hk
    rw [← hfound, getElem?_take_of_lt hk, getElem?_drop]
  by_contra hlt
  -- the only `t` of the front is the one of `styp`, and no `r` comes after it
  have hpairs : ∀ j < 44, fixedFront[j]? = some 0x74 → j + 1 < 44 ∧ fixedFront[j + 1]? ≠ some 0x72 := by decide
  have hlen : fixedFront.length = 44 := by decide
  have hfirst := hat 0 (by decide)
  rw [Nat.add_zero, getElem?_append_left (by omega)] at hfirst
  rcases hpairs i (by omega) hfirst with ⟨hnext, hne⟩
  have hsecond := hat 1 (by decide)
  rw [getElem?_append_left (by omega)] at hsecond
  exact hne hsecond

/-- The patch leaves alone what comes before the place it looks at. -/
theorem fixDataOffset_append {front tail : Bytes}
    (hindex : ∀ i, trunIndex (front ++ tail) = some i → front.length ≤ i + 12) (dataOffset : UInt32) :
    ∃ tail', fixDataOffset (front ++ tail) dataOffset = front ++ tail' := by
  cases hi : trunIndex (front ++ tail) with
  | none =>
    unfold fixDataOffset
    rw [hi]
    exact ⟨tail, rfl⟩
  | some i =>
    have hle := hindex i hi
    unfold fixDataOffset
    rw [hi]
    dsimp only
    by_cases hfits : i + 12 + 4 ≤ (front ++ tail).length
    · rw [if_pos hfits]
      refine ⟨tail.take (i + 12 - front.length) ++ be32 dataOffset ++ (front ++ tail).drop (i + 12 + 4), ?_⟩
      rw [take_append, take_of_length_le hle]
      simp only [append_assoc]
    · rw [if_neg hfits]
      exact ⟨tail, rfl⟩

theorem fixDataOffset_front (sequence : UInt64) (tail : Bytes) (dataOffset : UInt32) :
    ∃ tail', fixDataOffset (fixedFront ++ be64 sequence ++ [0, 0, 0, 76] ++ tail) dataOffset =
      fixedFront ++ be64 sequence ++ [0, 0, 0, 76] ++ tail' := by
  apply fixDataOffset_append
  intro i hi
  have hfront : fixedFront.length = 44 := by decide
  have hle := le_of_trunIndex hi
  rw [length_append, length_append, length_be64, hfront, length_cons]
  simp only [length_cons, length_nil]
  omega

theorem be64_bytes (x : UInt64) : ∃ a b c d e f g h, be64 x = [a, b, c, d, e, f, g, h] := by
  have hlen := length_be64 x
  match be64 x, hlen with
  | [a, b, c, d, e, f, g, h], _ => exact ⟨a, b, c, d, e, f, g, h, rfl⟩

/-! ## The boxes of the segment -/

/-- Where `traf` should be, a walker reads the size of `traf` as the type of a box. -/
theorem not_wellFormed_front (mediaData tail : Bytes) (sequence : UInt64) :
    ¬ WellFormed mediaData (fixedFront ++ be64 sequence ++ [0, 0, 0, 76] ++ tail) := by
  rintro ⟨stypPayload, moofPayload, mfhdPayload, trafPayload, _, _, _, htop, hmoof, _⟩
  obtain ⟨a, b, c, d, e, f, g, h, hbytes⟩ := be64_bytes sequence
  rw [hbytes] at htop
  rcases exists_of_boxes_cons htop with ⟨rest, hstyp, hrest⟩
  rcases exists_of_boxes_cons hrest with ⟨_, hsecond, _⟩
  rcases exists_of_boxes_cons hmoof with ⟨inner, hmfhd, hinner⟩
  rcases exists_of_boxes_cons hinner with ⟨_, htraf, _⟩
  rcases readBox_eq_some.1 hstyp with ⟨_, _, _, rfl⟩
  rcases readBox_eq_some.1 hsecond with ⟨_, _, hpayload, _⟩
  rcases readBox_eq_some.1 hmfhd with ⟨_, _, _, rfl⟩
  rcases readBox_eq_some.1 htraf with ⟨_, htype, _, _⟩
  obtain rfl : moofPayload = ([0, 0, 0, 16] ++ mfhd ++ [0, 0, 0, 0] ++ [a, b, c, d, e, f, g, h] ++ [0, 0, 0, 76] ++
      tail.take 72) := hpayload
  have hread : traf = [0, 0, 0, 76] := htype
  exact absurd hread (by decide)

/-- No media segment is a well-formed box tree. -/
theorem buildSegment_not_wellFormed (m : CmafMuxer) (mediaData : Bytes) (duration : UInt64) (isKeyframe : Bool) :
    ¬ WellFormed mediaData (m.buildSegment mediaData duration isKeyframe).2 := by
  rw [buildSegment, assemble_eq]
  rcases fixDataOffset_front m.sequence (traf ++ m.buildTraf duration mediaData.length isKeyframe ++
    boxHeader mediaData.length mdat ++ mediaData)
    (24 + UInt32.ofNat ((m.buildMoof duration mediaData.length isKeyframe).length + 8) + 8) with ⟨tail', htail⟩
  rw [htail]
  exact not_wellFormed_front mediaData tail' m.sequence

/-- A first segment with three bytes of media.  After `mfhd` a walker reads a box of size zero. -/
theorem buildSegment_three_bytes :
    Box.boxes ((((new 1 90000).buildSegment [1, 2, 3] 3000 true).2.drop 32).take 96) = none ∧
      ¬ WellFormed [1, 2, 3] ((new 1 90000).buildSegment [1, 2, 3] 3000 true).2 := by
  have hnone : boxes ((((new 1 90000).buildSegment [1, 2, 3] 3000 true).2.drop 32).take 96) = none := by
    decide +kernel
  have hpayload : (boxes ((new 1 90000).buildSegment [1, 2, 3] 3000 true).2).map (fun bs => (bs.map payload)[1]?) =
      some (some ((((new 1 90000).buildSegment [1, 2, 3] 3000 true).2.drop 32).take 96)) := by
    decide +kernel
  refine ⟨hnone, ?_⟩
  generalize ((new 1 90000).buildSegment [1, 2, 3] 3000 true).2 = segment at hnone hpayload
  rintro ⟨_, moofPayload, _, _, _, _, _, htop, hmoof, _⟩
  rw [htop] at hpayload
  have hsame : moofPayload = (segment.drop 32).take 96 := Option.some.inj (Option.some.inj hpayload)
  rw [hsame, hnone] at hmoof
  cases hmoof

end CmafMuxer

end LingVoice.LmProtocol

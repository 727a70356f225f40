import LingVoice.LmProtocol.Flv

/-!
# FlvStream — reading the output of `FlvRemuxer`

A reader of FLV takes the header, a PreviousTagSize of zero and then tags, and checks every size.  `Follows` says which
tags are to be there for a list of frames: one for each frame in order, and an AVC sequence header before the tag of the
first keyframe that has an SPS and a PPS.
The sequence header has 16 bits for the length of a parameter set, and a frame of another video codec gets the codec id
of AVC with no packet type behind it.
-/

namespace LingVoice.LmProtocol.FlvRemuxer

open Lib List Nat
open Lib.AnnexB
open LmCore

/-! ## The frames -/

/-- A frame of less than `2 ^ 23` bytes.  The data of H.264 video are units behind start codes. -/
structure SourceFrame where
  frame : MediaFrame
  units : List (Bool × NalUnit)
  data_eq : frame.kind = .video → frame.codec = .h264 → frame.data = assemble units
  length_lt : frame.data.length < 2 ^ 23

def lastOfType (naluType : UInt8) (nals : List Bytes) : Option Bytes :=
  (nals.filter fun nal => byteAt nal 0 &&& 0x1F == naluType).getLast?

namespace SourceFrame

def nals (f : SourceFrame) : List Bytes :=
  f.units.map fun u => u.2.bytes

def IsH264 (f : SourceFrame) : Prop :=
  f.frame.kind = .video ∧ f.frame.codec = .h264

instance (f : SourceFrame) : Decidable f.IsH264 :=
  inferInstanceAs (Decidable (_ ∧ _))

/-- The SPS and the PPS of a keyframe that has both; of several the last one counts. -/
def spsPps (f : SourceFrame) : Option (Bytes × Bytes) :=
  if f.IsH264 ∧ f.frame.keyframe then
    Option.map₂ Prod.mk (lastOfType 7 f.nals) (lastOfType 8 f.nals)
  else
    none

end SourceFrame

/-! ## A reader -/

structure FlvTag where
  type : UInt8
  data : Bytes
  deriving DecidableEq, Repr

def readTag (data : Bytes) : Option (FlvTag × Bytes) :=
  let size := beAt 3 data 1
  let rest := data.drop 11
  if data.length < 11 + size + 4 ∨ beAt 4 (rest.drop size) 0 ≠ 11 + size then
    none
  else
    some (⟨byteAt data 0, rest.take size⟩, rest.drop (size + 4))

namespace FlvTag

/-- Video with the codec id of AVC and the packet type 0. -/
def IsSequenceHeader (tag : FlvTag) : Prop :=
  tag.type = FlvTagType.video.code ∧ ∃ first rest, tag.data = first :: 0x00 :: rest ∧ first &&& 0x0F = 7

/-- The tag has the frame in it. -/
def Carries (tag : FlvTag) (f : SourceFrame) : Prop :=
  match f.frame.kind with
  | .video => tag.type = FlvTagType.video.code ∧
      if f.frame.codec = .h264 then
        ∃ first body, tag.data = first :: 0x01 :: 0 :: 0 :: 0 :: body ∧ Avcc.units body = some f.nals
      else
        ∃ first, tag.data = first :: f.frame.data
  | .audio => tag.type = FlvTagType.audio.code ∧
      ∃ first, tag.data = first :: ((if f.frame.codec = .aac then [0x01] else []) ++ f.frame.data)

end FlvTag

/-- The tags are those of the frames; `due` says that the sequence header is still to come. -/
def Follows : (due : Bool) → List SourceFrame → List FlvTag → Prop
  | _, [], tags => tags = []
  | due, f :: frames, tags =>
    match if due then f.spsPps else none with
    | some sets => ∃ header tag rest, tags = header :: tag :: rest ∧ header.IsSequenceHeader ∧
        Avcc.readConfig (header.data.drop 5) = some sets ∧ tag.Carries f ∧ ¬ tag.IsSequenceHeader ∧
        Follows false frames rest
    | none => ∃ tag rest, tags = tag :: rest ∧ tag.Carries f ∧ ¬ tag.IsSequenceHeader ∧ Follows due frames rest

def Valid (hasAudio hasVideo : Bool) (frames : List SourceFrame) (out : Bytes) : Prop :=
  ∃ body tags, out = (FlvHeader.mk hasAudio hasVideo).toBytes ++ [0, 0, 0, 0] ++ body ∧
    records readTag body = some tags ∧ Follows true frames tags

def output (r : FlvRemuxer) : List MediaFrame → Except Fault Bytes
  | [] => .ok []
  | frame :: frames => do
      let (r, out) ← r.pushFrame frame
      let rest ← output r frames
      return out ++ rest

/-! ## The parameter sets -/

variable {nal a sps pps : Bytes} {r : FlvRemuxer} {units : List (Bool × NalUnit)}

theorem keepSpsPps_eq (hne : nal ≠ []) (found : Option Bytes × Option Bytes) :
    keepSpsPps found nal = .ok ((lastOfType 7 [nal]).or found.1, (lastOfType 8 [nal]).or found.2) := by
  obtain ⟨b, tail, rfl⟩ := exists_cons_of_ne_nil hne
  have hindex : Slice.index (b :: tail) 0 = .ok b := rfl
  have hbyte : byteAt (b :: tail) 0 = b := rfl
  rw [keepSpsPps, hindex]
  simp only [bind, Except.bind, lastOfType, filter_cons, filter_nil, hbyte]
  by_cases h7 : b &&& 0x1F = 7
  · simp [h7, pure, Except.pure]
  · by_cases h8 : b &&& 0x1F = 8
    · simp [h8, pure, Except.pure]
    · simp [h7, h8, pure, Except.pure]

theorem lastOfType_cons (naluType : UInt8) (nal : Bytes) (nals : List Bytes) :
    lastOfType naluType (nal :: nals) = (lastOfType naluType nals).or (lastOfType naluType [nal]) := by
  rw [lastOfType, lastOfType, lastOfType, ← singleton_append, filter_append, getLast?_append]

theorem foldlM_keepSpsPps (nals : List Bytes) (hne : ∀ nal ∈ nals, nal ≠ [])
    (found : Option Bytes × Option Bytes) :
    nals.foldlM keepSpsPps found = .ok ((lastOfType 7 nals).or found.1, (lastOfType 8 nals).or found.2) := by
  induction nals generalizing found with
  | nil => rfl
  | cons nal nals ih =>
    rw [forall_mem_cons] at hne
    rw [foldlM_cons, keepSpsPps_eq hne.1]
    simp only [bind, Except.bind, ih hne.2, lastOfType_cons _ nal nals, Option.or_assoc]

theorem extractSpsPps_assemble (units : List (Bool × NalUnit)) :
    extractSpsPps (assemble units) =
      .ok (lastOfType 7 (units.map fun u => u.2.bytes), lastOfType 8 (units.map fun u => u.2.bytes)) := by
  have hne : ∀ nal ∈ units.map (fun u => u.2.bytes), nal ≠ [] := by
    rw [forall_mem_map]
    intro u _
    exact u.2.ne_nil
  rw [extractSpsPps, nalus_assemble, foldlM_keepSpsPps _ hne, Option.or_none, Option.or_none]

/-! ## What a run puts out -/

structure RawTag where
  type : FlvTagType
  timestamp : UInt32
  data : Bytes

def RawTag.bytes (raw : RawTag) : Bytes :=
  createTag raw.type raw.timestamp raw.data

def RawTag.tag (raw : RawTag) : FlvTag :=
  ⟨raw.type.code, raw.data⟩

def headerTag (sets : Bytes × Bytes) : RawTag :=
  ⟨.video, 0, sequenceHeader sets.1 sets.2⟩

def frameTag (frame : MediaFrame) : RawTag :=
  ⟨tagType frame.kind, timestampMs frame, tagData frame⟩

def rawTags : (due : Bool) → List SourceFrame → List RawTag
  | _, [] => []
  | due, f :: frames =>
    match if due then f.spsPps else none with
    | some sets => headerTag sets :: frameTag f.frame :: rawTags false frames
    | none => frameTag f.frame :: rawTags due frames

def headerBytes (hasAudio hasVideo : Bool) : Bytes :=
  (FlvHeader.mk hasAudio hasVideo).toBytes ++ [0, 0, 0, 0]

def dueHeader (r : FlvRemuxer) (f : SourceFrame) : Option (Bytes × Bytes) :=
  if r.avcHeaderWritten then none else f.spsPps

open RawTag

theorem keepParameterSets_eq (r : FlvRemuxer) (found : Option Bytes × Option Bytes) :
    (r.keepParameterSets found).headerWritten = r.headerWritten ∧
      (r.keepParameterSets found).avcHeaderWritten =
        (r.avcHeaderWritten || (Option.map₂ Prod.mk found.1 found.2).isSome) ∧
      (r.keepParameterSets found).outputBuffer = r.outputBuffer ++
        ((if r.avcHeaderWritten then none else Option.map₂ Prod.mk found.1 found.2).map headerTag).elim []
          bytes := by
  rcases r with ⟨written, audio, video, last, buffer, avc, sps, pps⟩
  match found with
  | (none, none) | (none, some _) | (some _, none) => cases avc <;> simp [keepParameterSets]
  | (some sps', some pps') =>
    cases avc with
    | true => simp [keepParameterSets]
    | false => exact ⟨rfl, rfl, rfl⟩

theorem takeParameterSets_eq (r : FlvRemuxer) (f : SourceFrame) :
    ∃ r', r.takeParameterSets f.frame = .ok r' ∧ r'.headerWritten = r.headerWritten ∧
      r'.avcHeaderWritten = (r.avcHeaderWritten || f.spsPps.isSome) ∧
      r'.outputBuffer = r.outputBuffer ++ ((r.dueHeader f).map headerTag).elim [] bytes := by
  by_cases hkey : f.frame.kind = .video ∧ f.frame.codec = .h264 ∧ f.frame.keyframe = true
  · have hdata := f.data_eq hkey.1 hkey.2.1
    have hsets : f.spsPps = Option.map₂ Prod.mk (lastOfType 7 f.nals) (lastOfType 8 f.nals) :=
      if_pos ⟨⟨hkey.1, hkey.2.1⟩, hkey.2.2⟩
    refine ⟨r.keepParameterSets (lastOfType 7 f.nals, lastOfType 8 f.nals), ?_, ?_⟩
    · rw [takeParameterSets, if_pos hkey, hdata, extractSpsPps_assemble]
      rfl
    · rw [dueHeader, hsets]
      exact keepParameterSets_eq r (lastOfType 7 f.nals, lastOfType 8 f.nals)
  · have hsets : f.spsPps = none := by
      apply if_neg
      rintro ⟨hh264, hframe⟩
      exact hkey ⟨hh264.1, hh264.2, hframe⟩
    refine ⟨r, if_neg hkey, rfl, ?_, ?_⟩
    · simp [hsets]
    · simp [dueHeader, hsets]

/-- One call, from a remuxer that has nothing in its buffer. -/
theorem pushFrame_eq (hbuffer : r.outputBuffer = []) (f : SourceFrame) :
    ∃ r', r.pushFrame f.frame = .ok (r', (if r.headerWritten then [] else headerBytes r.hasAudio r.hasVideo) ++
        (((r.dueHeader f).map headerTag).elim [] bytes ++ (frameTag f.frame).bytes)) ∧
      r'.outputBuffer = [] ∧ r'.headerWritten = true ∧
      r'.avcHeaderWritten = (r.avcHeaderWritten || f.spsPps.isSome) := by
  obtain ⟨r₁, hr₁, hwritten, havc, hbuffer₁⟩ : ∃ r₁, (if r.headerWritten then r else r.writeHeader) = r₁ ∧
      r₁.headerWritten = true ∧ r₁.avcHeaderWritten = r.avcHeaderWritten ∧
      r₁.outputBuffer = if r.headerWritten then [] else headerBytes r.hasAudio r.hasVideo := by
    by_cases hheader : r.headerWritten = true
    · simp [hheader, hbuffer]
    · simp [hheader, hbuffer, writeHeader, headerBytes]
  have hdue : r₁.dueHeader f = r.dueHeader f := by
    rw [dueHeader, dueHeader, havc]
  obtain ⟨r₂, hr₂, hwritten₂, havc₂, hbuffer₂⟩ := takeParameterSets_eq r₁ f
  refine ⟨{ r₂ with outputBuffer := [], lastTimestamp := timestampMs f.frame }, ?_, rfl, ?_, ?_⟩
  · simp only [pushFrame, hr₁, hr₂, bind, Except.bind, hbuffer₂, hbuffer₁, hdue, append_assoc]
    rfl
  · exact hwritten₂.trans hwritten
  · exact havc₂.trans (by rw [havc])

/-- A run puts out its tags, behind the header if this is not out yet. -/
theorem output_eq (hbuffer : r.outputBuffer = []) (frames : List SourceFrame) :
    r.output (frames.map SourceFrame.frame) =
      .ok ((if r.headerWritten || frames.isEmpty then [] else headerBytes r.hasAudio r.hasVideo) ++
        (rawTags (!r.avcHeaderWritten) frames).flatMap bytes) := by
  induction frames generalizing r with
  | nil => simp [output, rawTags]
  | cons f frames ih =>
    obtain ⟨r', hpush, hbuffer', hheader', havc⟩ := pushFrame_eq hbuffer f
    rw [map_cons, output, hpush]
    simp only [bind, Except.bind, ih hbuffer', hheader', isEmpty_cons, Bool.or_false, Bool.true_or, if_true, nil_append]
    cases hwritten : r.avcHeaderWritten with
    | true => simp [havc, hwritten, dueHeader, rawTags, pure, Except.pure]
    | false =>
      cases hsets : f.spsPps with
      | none | some sets => simp [havc, hwritten, dueHeader, rawTags, hsets, pure, Except.pure]

/-! ## Tags are read back -/

theorem length_lt_of_readTag (data : Bytes) (tag : FlvTag) (rest : Bytes)
    (h : readTag data = some (tag, rest)) : rest.length < data.length := by
  unfold readTag at h
  dsimp only at h
  split at h
  · cases h
  · rename_i hok
    cases h
    simp only [length_drop]
    omega

theorem readTag_bytes {raw : RawTag} (hsize : raw.data.length < 2 ^ 24) (rest : Bytes) :
    readTag (raw.bytes ++ rest) = some (raw.tag, rest) := by
  rcases raw with ⟨type, timestamp, data⟩
  change data.length < 2 ^ 24 at hsize
  have hword : (UInt32.ofNat data.length).toNat = data.length := UInt32.toNat_ofNat_of_lt (by change _ < 2 ^ 32; omega)
  have htotal : (UInt32.ofNat (11 + data.length)).toNat = 11 + data.length :=
    UInt32.toNat_ofNat_of_lt (by change _ < 2 ^ 32; omega)
  have hfield : beAt 3 (bytes ⟨type, timestamp, data⟩ ++ rest) 1 = data.length := by
    have hbytes := bytes_uint24 (UInt32.ofNat data.length)
    have hread := ofBe_toBe_of_lt (w := 3) (n := data.length) (by omega)
    rw [hword] at hbytes
    rw [← hbytes] at hread
    exact hread
  have hdrop : (bytes ⟨type, timestamp, data⟩ ++ rest).drop 11 =
      data ++ (be32 (UInt32.ofNat (11 + data.length)) ++ rest) := by
    simp [bytes, createTag]
  have hbehind : beAt 4 (be32 (UInt32.ofNat (11 + data.length)) ++ rest) 0 = 11 + data.length := by
    rw [be32, beAt_front, htotal]
    exact mod_eq_of_lt (by omega)
  have hlength : (bytes ⟨type, timestamp, data⟩ ++ rest).length = 11 + data.length + 4 + rest.length := by
    simp [bytes, createTag]
    omega
  have hok : ¬ ((bytes ⟨type, timestamp, data⟩ ++ rest).length < 11 + data.length + 4 ∨
      beAt 4 (be32 (UInt32.ofNat (11 + data.length)) ++ rest) 0 ≠ 11 + data.length) := by
    omega
  simp only [readTag, hfield, hdrop, drop_left, if_neg hok, take_left, ← drop_drop]
  rfl

/-! ## Sizes -/

theorem startCode_length_ge (long : Bool) : 3 ≤ (startCode long).length := by
  cases long with
  | true | false => decide

/-- A length of four bytes takes at most a quarter more room than a start code. -/
theorem length_avcc_le (units : List (Bool × NalUnit)) :
    4 * (annexBToAvcc (assemble units)).length ≤ 5 * (assemble units).length := by
  rw [annexBToAvcc_assemble]
  induction units with
  | nil => exact le_refl _
  | cons u units ih =>
    rcases u with ⟨long, unit⟩
    have hcode := startCode_length_ge long
    have hpos := length_pos_of_ne_nil unit.ne_nil
    have hone : (Avcc.encodeUnit unit.bytes).length = 4 + unit.bytes.length := by
      rw [Avcc.encodeUnit, length_append, length_be32]
    rw [assemble_cons, map_cons, flatMap_cons, length_append, length_append, length_append, hone]
    omega

variable (f : SourceFrame)

theorem length_tagData_lt : (tagData f.frame).length < 2 ^ 24 := by
  have hlt := f.length_lt
  unfold tagData
  split
  · rename_i hkind
    by_cases hcodec : f.frame.codec = .h264
    · have hle := length_avcc_le f.units
      rw [← f.data_eq hkind hcodec] at hle
      simp only [encodeVideoFrame, if_pos hcodec, length_cons, length_append, length_nil]
      omega
    · simp only [encodeVideoFrame, if_neg hcodec, length_cons]
      omega
  · by_cases haac : f.frame.codec = .aac
    · simp only [encodeAudioFrame, if_pos haac, length_cons, length_append, length_nil]
      omega
    · simp only [encodeAudioFrame, if_neg haac, length_cons, length_append, length_nil]
      omega

theorem lastOfType_eq_some {naluType : UInt8} {nals : List Bytes}
    (h : lastOfType naluType nals = some nal) : nal ∈ nals ∧ byteAt nal 0 &&& 0x1F = naluType := by
  have hmem := mem_of_getLast? h
  rw [mem_filter, beq_iff_eq] at hmem
  exact hmem

theorem sum_lengths_le (units : List (Bool × NalUnit)) :
    ((units.map fun u => u.2.bytes).map fun bytes => bytes.length + 3).sum ≤ (assemble units).length := by
  induction units with
  | nil => exact le_refl 0
  | cons u units ih =>
    have hcode := startCode_length_ge u.1
    rw [assemble_cons, map_cons, map_cons, sum_cons, length_append, length_append]
    omega

theorem length_add_six_le {b : Bytes}
    (ha : a ∈ units.map fun u => u.2.bytes) (hb : b ∈ units.map fun u => u.2.bytes) (hne : a ≠ b) :
    a.length + b.length + 6 ≤ (assemble units).length := by
  obtain ⟨pair, hperm, hsub⟩ : [a, b] <+~ units.map fun u => u.2.bytes :=
    subperm_of_subset (by simp [hne]) (by simp [ha, hb])
  have hpair := (hperm.map fun bytes => bytes.length + 3).sum_eq
  have hle := (hsub.map fun bytes => bytes.length + 3).sum_le_sum fun _ _ => Nat.zero_le _
  have hall := sum_lengths_le units
  simp only [map_cons, map_nil, sum_cons, sum_nil] at hpair
  omega

theorem spsPps_eq_some {f : SourceFrame} (h : f.spsPps = some (sps, pps)) :
    f.IsH264 ∧ lastOfType 7 f.nals = some sps ∧ lastOfType 8 f.nals = some pps := by
  unfold SourceFrame.spsPps at h
  split at h
  · rename_i hkey
    rw [Option.map₂_eq_some_iff] at h
    rcases h with ⟨a, b, ha, hb, heq⟩
    cases heq
    exact ⟨hkey.1, ha, hb⟩
  · cases h

theorem length_sequenceHeader_lt {f : SourceFrame} {sets : Bytes × Bytes} (h : f.spsPps = some sets) :
    (headerTag sets).data.length < 2 ^ 24 := by
  rcases sets with ⟨sps, pps⟩
  rcases spsPps_eq_some h with ⟨hh264, hsps, hpps⟩
  rcases lastOfType_eq_some hsps with ⟨hspsMem, hspsType⟩
  rcases lastOfType_eq_some hpps with ⟨hppsMem, hppsType⟩
  have hne : sps ≠ pps := by
    rintro rfl
    rw [hspsType] at hppsType
    exact absurd hppsType (by decide)
  have hsum := length_add_six_le hspsMem hppsMem hne
  have hlt := f.length_lt
  rw [f.data_eq hh264.1 hh264.2] at hlt
  have hconfig : (headerTag (sps, pps)).data.length = 16 + sps.length + pps.length := by
    simp only [headerTag, sequenceHeader, buildAvcDecoderConfig]
    split
    · simp
      omega
    · simp
      omega
  omega

/-- A reader of tags sees the tags of the run, with all sizes exact. -/
theorem records_tags (due : Bool) (frames : List SourceFrame) :
    records readTag ((rawTags due frames).flatMap bytes) = some ((rawTags due frames).map tag) := by
  have hsizes : ∀ raw ∈ rawTags due frames, raw.data.length < 2 ^ 24 := by
    induction frames generalizing due with
    | nil =>
      intro raw hmem
      cases hmem
    | cons f frames ih =>
      rw [rawTags]
      cases hsets : (if due then f.spsPps else none) with
      | none =>
        rw [forall_mem_cons]
        exact ⟨length_tagData_lt f, ih due⟩
      | some sets =>
        have hframe : f.spsPps = some sets := by
          cases due with
          | true => exact hsets
          | false => cases hsets
        rw [forall_mem_cons, forall_mem_cons]
        exact ⟨length_sequenceHeader_lt hframe, length_tagData_lt f, ih false⟩
  apply records_flatMap length_lt_of_readTag
  intro raw hmem rest
  exact readTag_bytes (hsizes raw hmem) rest

/-! ## The sequence header -/

theorem length_bytes (n : Nat) : [UInt8.ofNat (n >>> 8), UInt8.ofNat (n &&& 0xFF)] = toBe 2 n := by
  have hhigh : n >>> 8 = n / 256 := shiftRight_eq_div_pow n 8
  have hlow : UInt8.ofNat (n &&& 0xFF) = UInt8.ofNat n := by
    apply UInt8.toNat_inj.1
    have hmask : n &&& 0xFF = n % 2 ^ 8 := and_two_pow_sub_one_eq_mod n 8
    rw [hmask, UInt8.toNat_ofNat', UInt8.toNat_ofNat', mod_mod]
  rw [hhigh, hlow]
  rfl

theorem buildAvcDecoderConfig_eq (sps pps : Bytes) :
    ∃ profile compatibility level, buildAvcDecoderConfig sps pps =
      [0x01, profile, compatibility, level, 0xFF, 0xE1] ++ (toBe 2 sps.length ++ (sps ++
        (0x01 :: (toBe 2 pps.length ++ pps)))) := by
  rw [← length_bytes, ← length_bytes]
  unfold buildAvcDecoderConfig
  split
  · rename_i profile compatibility level _
    exact ⟨profile, compatibility, level, by simp⟩
  · exact ⟨0x42, 0x00, 0x1E, by simp⟩

/-! ## The frames -/

theorem carries_frameTag : (frameTag f.frame).tag.Carries f := by
  unfold FlvTag.Carries
  split
  · rename_i hkind
    refine ⟨by simp [frameTag, tag, tagType, hkind], ?_⟩
    simp only [frameTag, tag, tagData, hkind, encodeVideoFrame]
    split
    · rename_i hcodec
      refine ⟨_, annexBToAvcc f.frame.data, rfl, ?_⟩
      have hshort : ∀ nal ∈ f.nals, nal.length < 2 ^ 32 := by
        intro nal hmem
        have hle := (le_sum_of_mem (mem_map_of_mem hmem)).trans (sum_lengths_le f.units)
        have hlt := f.length_lt
        rw [f.data_eq hkind hcodec] at hlt
        omega
      rw [f.data_eq hkind hcodec, annexBToAvcc_assemble]
      exact (Avcc.units_encode_iff f.nals).2 hshort
    · exact ⟨_, rfl⟩
  · rename_i hkind
    refine ⟨by simp [frameTag, tag, tagType, hkind], ?_⟩
    simp only [frameTag, tag, tagData, hkind, encodeAudioFrame]
    exact ⟨_, rfl⟩

/-- A frame of another video codec that begins with 0 is taken for a sequence header, and no other. -/
theorem isSequenceHeader_frameTag :
    (frameTag f.frame).tag.IsSequenceHeader ↔
      f.frame.kind = .video ∧ f.frame.codec ≠ .h264 ∧ f.frame.data.head? = some 0 := by
  have hnibble (keyframe : Bool) :
      (((if keyframe then FlvFrameType.keyFrame else FlvFrameType.interFrame).code <<< 4) |||
        FlvVideoCodecId.avc.code) &&& 0x0F = 7 := by
    cases keyframe with
    | true | false => decide
  cases hkind : f.frame.kind with
  | audio =>
    simp [FlvTag.IsSequenceHeader, frameTag, tag, tagType, hkind, FlvTagType.code]
  | video =>
    simp only [FlvTag.IsSequenceHeader, frameTag, tag, tagType, hkind, tagData, encodeVideoFrame, true_and]
    by_cases hcodec : f.frame.codec = .h264
    · simp [hcodec]
    · simp only [if_neg hcodec, cons.injEq]
      cases hdata : f.frame.data with
      | nil => simp
      | cons b data =>
        simp only [cons.injEq, head?_cons, Option.some.injEq]
        constructor
        · rintro ⟨_, _, ⟨rfl, rfl, rfl⟩, -⟩
          exact ⟨hcodec, rfl⟩
        · rintro ⟨-, rfl⟩
          exact ⟨_, data, ⟨rfl, rfl, rfl⟩, hnibble f.frame.keyframe⟩

/-- What has to hold of the frames for the tags to be the right ones. -/
def Clean (f : SourceFrame) : Prop :=
  f.frame.kind = .video → f.frame.codec ≠ .h264 → f.frame.data.head? ≠ some 0

theorem not_isSequenceHeader_iff : ¬ (frameTag f.frame).tag.IsSequenceHeader ↔ Clean f := by
  rw [isSequenceHeader_frameTag, Clean]
  tauto

theorem follows_iff (due : Bool) (frames : List SourceFrame) :
    Follows due frames ((rawTags due frames).map tag) ↔
      (∀ f ∈ frames, Clean f) ∧
        (due = true → ∀ sets, frames.findSome? SourceFrame.spsPps = some sets →
          sets.1.length < 2 ^ 16 ∧ sets.2.length < 2 ^ 16) := by
  induction frames generalizing due with
  | nil => simp [Follows, rawTags]
  | cons f frames ih =>
    rw [Follows, rawTags, forall_mem_cons, findSome?_cons]
    cases hsets : (if due then f.spsPps else none) with
    | none =>
      -- the frame alone
      simp only [map_cons, cons.injEq]
      rw [← not_isSequenceHeader_iff]
      have hnone : due = true → f.spsPps = none := by
        rintro rfl
        exact hsets
      constructor
      · rintro ⟨_, _, ⟨rfl, rfl⟩, -, hclean, hrest⟩
        rw [ih due] at hrest
        refine ⟨⟨hclean, hrest.1⟩, ?_⟩
        intro hdue
        rw [hnone hdue]
        exact hrest.2 hdue
      · rintro ⟨⟨hclean, hframes⟩, hfirst⟩
        refine ⟨_, _, ⟨rfl, rfl⟩, carries_frameTag f, hclean, (ih due).2 ⟨hframes, ?_⟩⟩
        intro hdue
        have hsome := hfirst hdue
        rw [hnone hdue] at hsome
        exact hsome
    | some sets =>
      have hdue : due = true := by
        cases due with
        | true => rfl
        | false => cases hsets
      subst hdue
      have hframe : f.spsPps = some sets := hsets
      have hconfig : Avcc.readConfig ((headerTag sets).tag.data.drop 5) = some sets ↔
          sets.1.length < 2 ^ 16 ∧ sets.2.length < 2 ^ 16 := by
        obtain ⟨profile, compatibility, level, hconfig⟩ := buildAvcDecoderConfig_eq sets.1 sets.2
        exact Avcc.readConfig_record_iff hconfig
      simp only [map_cons, cons.injEq, hframe, Option.some.injEq]
      rw [← not_isSequenceHeader_iff]
      constructor
      · rintro ⟨_, _, _, ⟨rfl, rfl, rfl⟩, -, hread, -, hclean, hrest⟩
        rw [ih false] at hrest
        refine ⟨⟨hclean, hrest.1⟩, ?_⟩
        rintro - _ rfl
        exact hconfig.1 hread
      · rintro ⟨⟨hclean, hframes⟩, hfirst⟩
        refine ⟨_, _, _, ⟨rfl, rfl, rfl⟩, ⟨rfl, _, _, rfl, by decide⟩, hconfig.2 (hfirst trivial sets rfl),
          carries_frameTag f, hclean, (ih false).2 ⟨hframes, ?_⟩⟩
        intro hfalse
        cases hfalse

/-! ## Validity of whole runs -/

/-- The output for a list of frames is a valid FLV stream of them exactly when there is a frame, the parameter sets of
the sequence header have lengths of 16 bits, and no frame of another video codec than H.264 begins with 0. -/
theorem output_valid_iff (hasAudio hasVideo : Bool) (frames : List SourceFrame) :
    (∃ out, (new hasAudio hasVideo).output (frames.map SourceFrame.frame) = .ok out ∧
        Valid hasAudio hasVideo frames out) ↔
      frames ≠ [] ∧ (∀ f ∈ frames, Clean f) ∧
        ∀ sets, frames.findSome? SourceFrame.spsPps = some sets →
          sets.1.length < 2 ^ 16 ∧ sets.2.length < 2 ^ 16 := by
  cases frames with
  | nil =>
    refine iff_of_false ?_ (fun h => h.1 rfl)
    rintro ⟨out, hout, body, tags, heq, -⟩
    cases hout
    simp [FlvHeader.toBytes] at heq
  | cons f frames =>
    have hfollows := follows_iff true (f :: frames)
    simp only [forall_const] at hfollows
    have hne : f :: frames ≠ [] := cons_ne_nil f frames
    have houtput : (new hasAudio hasVideo).output ((f :: frames).map SourceFrame.frame) =
        .ok (headerBytes hasAudio hasVideo ++ (rawTags true (f :: frames)).flatMap bytes) := output_eq rfl (f :: frames)
    rw [houtput, ← hfollows]
    constructor
    · rintro ⟨out, hout, body, tags, heq, htags, hrest⟩
      cases hout
      -- the body is what stands behind the header, and the reader is a function
      obtain rfl := append_cancel_left heq
      rw [records_tags] at htags
      cases htags
      exact ⟨hne, hrest⟩
    · rintro ⟨-, hrest⟩
      exact ⟨_, rfl, _, _, rfl, records_tags true (f :: frames), hrest⟩

/-- One VP8 frame that begins with 0: the only tag is a sequence header, and no H.264 was there. -/
theorem output_vp8_keyframe :
    (new false true).output [MediaFrame.video .vp8 90 [0x00, 0x9D] 1 true] =
        .ok (headerBytes false true ++
          [9, 0, 0, 3, 0, 0, 1, 0, 0, 0, 0, 0x17, 0x00, 0x9D, 0, 0, 0, 14]) ∧
      records readTag [9, 0, 0, 3, 0, 0, 1, 0, 0, 0, 0, 0x17, 0x00, 0x9D, 0, 0, 0, 14] =
        some [⟨9, [0x17, 0x00, 0x9D]⟩] ∧
      FlvTag.IsSequenceHeader ⟨9, [0x17, 0x00, 0x9D]⟩ := by
  refine ⟨rfl, by decide, rfl, 0x17, [0x9D], rfl, by decide⟩

end LingVoice.LmProtocol.FlvRemuxer

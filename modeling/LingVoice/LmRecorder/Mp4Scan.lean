import LingVoice.Lib.ByteReader
import LingVoice.Lib.AnnexB
import LingVoice.LmRecorder.Mp4

/-!
# Mp4Scan — what the native MP4 muxer writes for an Annex B stream

Both scans of the source find the units of a stream: the first one leaves the offsets and sizes of the slices, and the
second one, over the bytes of one slice, finds that slice and nothing else.
-/

namespace LingVoice.LmRecorder.Mp4

open Lib List Nat
open Lib.AnnexB

/-! ## One unit -/

def nalType (unit : NalUnit) : UInt8 :=
  unit.bytes.headD 0 &&& 0x1F

def isSlice (unit : NalUnit) : Bool :=
  nalType unit = 5 || nalType unit = 1

def isIdr (unit : NalUnit) : Bool :=
  nalType unit = 5

variable {data rest sps : Bytes} {fuel : Nat} {type : UInt8} {units : List (Bool × NalUnit)} {sample : Sample}
  {unit : NalUnit} {samples : List Sample}

/-- A unit behind its start code; `more` is what the search sees of the data behind the unit. -/
theorem unit_at (front : Bytes) (long : Bool) (unit : NalUnit) {more : Bytes}
    (hdata : data = front ++ (startCode long ++ (unit.bytes ++ rest))) {stop : Nat}
    (hstop : data.take stop = front ++ (startCode long ++ (unit.bytes ++ more)))
    (hlength : stop = (front ++ (startCode long ++ (unit.bytes ++ more))).length) (hmore : more = [] ∨ AtStartCode more) :
    startCodeLen data front.length = some (startCode long).length ∧
      searchNalEnd data stop (front.length + (startCode long).length) =
        front.length + (startCode long).length + unit.bytes.length ∧
      Slice.index data (front.length + (startCode long).length) = .ok (unit.bytes.headD 0) ∧
      Slice.slice data (front.length + (startCode long).length)
        (front.length + (startCode long).length + unit.bytes.length : Nat) = .ok unit.bytes := by
  obtain ⟨b, tail, hbytes⟩ := exists_cons_of_ne_nil unit.ne_nil
  rw [← append_assoc] at hstop hlength
  have hdrop : (data.take stop).drop ((front ++ startCode long).length + 1) = tail ++ more := by
    rw [hstop, hbytes, ← drop_drop, drop_left]
    rfl
  -- no start code begins inside of the unit, not even one that ends behind it
  have hskip : firstSuffix AtStartCode (tail ++ more) = firstSuffix AtStartCode more := by
    apply firstSuffix_append
    intro u hne hsuffix
    have hpart : u <:+ unit.bytes := by
      rw [hbytes]
      exact hsuffix.trans (suffix_cons b tail)
    have hcode := unit.no_code hne hpart more
    rintro (hshort | hlong)
    · exact hcode.1 hshort
    · exact hcode.2 hlong
  refine ⟨?_, ?_, ?_, ?_⟩
  · rw [startCodeLen, hdata, drop_left]
    cases long with
    | true | false => simp [startCode]
  · rw [← length_append, searchNalEnd, hdrop, hskip, hstop]
    rcases hmore with rfl | hcode
    · simp [firstSuffix, hlength, add_assoc]
    · cases more with
      | nil =>
        rcases hcode with h | h
        · simp at h
        · simp at h
      | cons c more =>
        rw [firstSuffix_of_pos hcode]
        simp
        omega
  · rw [hdata, ← append_assoc, ← length_append, hbytes]
    exact Slice.index_length _ _ b
  · rw [hdata, ← append_assoc, ← length_append]
    exact Slice.slice_middle _ _ _

theorem length_behind (front : Bytes) (long : Bool) (unit : NalUnit) :
    (front ++ (startCode long ++ unit.bytes)).length =
      front.length + (unit.bytes.length + (startCode long).length) := by
  rw [length_append, length_append, add_comm (startCode long).length]

/-! ## The first scan -/

/-- What is found after a list of units that begins at `offset`. -/
def scanned (offset : Nat) (found : H264Scan) : List (Bool × NalUnit) → H264Scan
  | [] => found
  | (long, unit) :: units =>
    let size := unit.bytes.length + (startCode long).length
    scanned (offset + size) (found.add (unit.bytes.headD 0) unit.bytes offset size) units

theorem assemble_eq_nil_or (units : List (Bool × NalUnit)) : assemble units = [] ∨ AtStartCode (assemble units) := by
  cases units with
  | nil => exact .inl rfl
  | cons u units =>
    refine .inr ?_
    rw [assemble_cons]
    cases u.1 with
    | true => exact .inr ( prefix_append _ _)
    | false => exact .inl ( prefix_append _ _)

/-- One turn at a start code: the unit is taken, and the scan goes on behind it. -/
theorem scan_unit (front : Bytes) (long : Bool) (unit : NalUnit)
    (hrest : rest = [] ∨ AtStartCode rest) (found : H264Scan) (fuel : Nat) :
    scan (front ++ (startCode long ++ (unit.bytes ++ rest))) (fuel + 1) front.length found =
      scan (front ++ (startCode long ++ (unit.bytes ++ rest))) fuel
        (front.length + (unit.bytes.length + (startCode long).length))
        (found.add (unit.bytes.headD 0) unit.bytes front.length (unit.bytes.length + (startCode long).length)) := by
  obtain ⟨hcode, hend, hheader, hnal⟩ := unit_at front long unit rfl take_length rfl hrest
  have hpos := length_pos_of_ne_nil unit.ne_nil
  have hinside : front.length < (front ++ (startCode long ++ (unit.bytes ++ rest))).length := by
    simp only [length_append]
    omega
  have hnext : front.length + (startCode long).length + unit.bytes.length =
      front.length + (unit.bytes.length + (startCode long).length) := by
    omega
  rw [scan, if_pos hinside, hcode]
  simp only [hend, hheader, hnal, bind, Except.bind, Nat.add_sub_cancel, Nat.add_sub_cancel_left]
  rw [hnext]

theorem scan_assemble (units : List (Bool × NalUnit)) (front : Bytes) (found : H264Scan)
    (hfuel : units.length < fuel) :
    scan (front ++ assemble units) fuel front.length found = .ok (scanned front.length found units) := by
  induction units generalizing front found fuel with
  | nil =>
    cases fuel with
    | zero => exact absurd hfuel (not_lt_zero _)
    | succ fuel => simp [scan, assemble, scanned]
  | cons u units ih =>
    obtain ⟨long, unit⟩ := u
    cases fuel with
    | zero => exact absurd hfuel (not_lt_zero _)
    | succ fuel =>
      have hrest := ih (front ++ (startCode long ++ unit.bytes))
        (found.add (unit.bytes.headD 0) unit.bytes front.length (unit.bytes.length + (startCode long).length))
        (lt_of_succ_lt_succ hfuel)
      rw [length_behind, append_assoc, append_assoc] at hrest
      rw [assemble_cons, scan_unit front long unit (assemble_eq_nil_or units), hrest]
      rfl

/-! ## What the scan finds -/

/-- A sample is a unit with its start code, at its place in the data. -/
def Located (data : Bytes) (sample : Sample) (unit : NalUnit) : Prop :=
  ∃ front long rest, data = front ++ (startCode long ++ (unit.bytes ++ rest)) ∧
    sample = (front.length, unit.bytes.length + (startCode long).length, isIdr unit)

def slices (units : List (Bool × NalUnit)) : List NalUnit :=
  (units.map Prod.snd).filter isSlice

def lastOfType (type : UInt8) (before : Bytes) (units : List (Bool × NalUnit)) : Bytes :=
  units.foldl (fun last u => if nalType u.2 = type then u.2.bytes else last) before

section Add

variable (found : H264Scan) (unit : NalUnit) (offset size : Nat)

theorem sets_add : (found.add (unit.bytes.headD 0) unit.bytes offset size).sps =
      (if nalType unit = 7 then unit.bytes else found.sps) ∧
    (found.add (unit.bytes.headD 0) unit.bytes offset size).pps =
      if nalType unit = 8 then unit.bytes else found.pps := by
  simp only [H264Scan.add, nalType]
  split_ifs
  all_goals simp_all

theorem samples_add : (found.add (unit.bytes.headD 0) unit.bytes offset size).samples =
    found.samples ++ if isSlice unit then [(offset, size, isIdr unit)] else [] := by
  simp only [H264Scan.add, isSlice, isIdr, nalType]
  split_ifs
  all_goals simp_all

end Add

theorem scanned_sets (offset : Nat) (found : H264Scan) (units : List (Bool × NalUnit)) :
    (scanned offset found units).sps = lastOfType 7 found.sps units ∧
      (scanned offset found units).pps = lastOfType 8 found.pps units := by
  induction units generalizing offset found with
  | nil => exact ⟨rfl, rfl⟩
  | cons u units ih =>
    rw [scanned, (ih _ _).1, (ih _ _).2, (sets_add _ _ _ _).1, (sets_add _ _ _ _).2]
    exact ⟨rfl, rfl⟩

theorem exists_lastOfType (before : Bytes) (h : ∃ u ∈ units, nalType u.2 = type) :
    ∃ u ∈ units, nalType u.2 = type ∧ lastOfType type before units = u.2.bytes := by
  induction units using reverseRecOn with
  | nil => simp at h
  | append_singleton units u ih =>
    by_cases htype : nalType u.2 = type
    · exact ⟨u, by simp, htype, by simp [lastOfType, htype]⟩
    · obtain ⟨v, hmem, hv, hlast⟩ := ih (by simpa [or_and_right, exists_or, htype] using h)
      exact ⟨v, mem_append_left _ hmem, hv, by simpa [lastOfType, htype] using hlast⟩

/-- The samples are the slices in order, each at its place. -/
theorem samples_scanned {data front : Bytes} {units : List (Bool × NalUnit)}
    (hdata : data = front ++ assemble units) {found : H264Scan} {before : List NalUnit}
    (hfound : Forall₂ (Located data) found.samples before) :
    Forall₂ (Located data) (scanned front.length found units).samples (before ++ slices units) := by
  induction units generalizing front found before with
  | nil => simpa [scanned, slices] using hfound
  | cons u units ih =>
    obtain ⟨long, unit⟩ := u
    have hplace : data = front ++ (startCode long ++ (unit.bytes ++ assemble units)) := by
      rw [hdata, assemble_cons]
    have hnext : data = (front ++ (startCode long ++ unit.bytes)) ++ assemble units := by
      rw [hplace, append_assoc, append_assoc]
    have hsamples : Forall₂ (Located data)
        (found.add (unit.bytes.headD 0) unit.bytes front.length (unit.bytes.length + (startCode long).length)).samples
        (before ++ if isSlice unit then [unit] else []) := by
      rw [samples_add]
      split
      · exact rel_append hfound (.cons ⟨front, long, _, hplace, rfl⟩ .nil)
      · exact rel_append hfound .nil
    have hrest := ih hnext hsamples
    rw [length_behind, append_assoc] at hrest
    have hslices : slices ((long, unit) :: units) = (if isSlice unit then [unit] else []) ++ slices units := by
      rw [slices, map_cons, filter_cons]
      split
      · rfl
      · rfl
    rw [hslices]
    exact hrest

/-! ## The second scan -/

def sampleBytes (unit : NalUnit) : Bytes :=
  be32 (UInt32.ofNat unit.bytes.length) ++ unit.bytes

theorem lengthPrefixed_stop (rawData : Bytes) (stop : Nat) (hfuel : 0 < fuel) :
    lengthPrefixed rawData stop fuel stop = .ok [] := by
  cases fuel with
  | zero => exact absurd hfuel (lt_irrefl 0)
  | succ fuel => rw [lengthPrefixed, if_neg (lt_irrefl stop)]

/-- The scan of a sample finds the unit that the sample is, and ends there. -/
theorem sampleData_located (h : Located data sample unit) : sampleData data .avc1 sample = .ok (sampleBytes unit) := by
  obtain ⟨front, long, rest, hdata, rfl⟩ := h
  have hpos := length_pos_of_ne_nil unit.ne_nil
  have hstop : front.length + (unit.bytes.length + (startCode long).length) =
      front.length + (startCode long).length + unit.bytes.length := by
    omega
  have hwhole : front.length + (startCode long).length + unit.bytes.length =
      (front ++ (startCode long ++ (unit.bytes ++ []))).length := by
    simp only [length_append, length_nil]
    omega
  -- up to the end of the sample there is nothing behind the unit
  have htake : data.take (front.length + (startCode long).length + unit.bytes.length) =
      front ++ (startCode long ++ (unit.bytes ++ [])) := by
    rw [hdata, append_nil, hwhole, append_nil, ← append_assoc, ← append_assoc, ← append_assoc, take_left]
  obtain ⟨hcode, hend, -, hnal⟩ := unit_at front long unit hdata htake hwhole (.inl rfl)
  have hdone := lengthPrefixed_stop data (front.length + (startCode long).length + unit.bytes.length)
    (Nat.add_pos_left hpos (startCode long).length)
  rw [sampleData, hstop, lengthPrefixed, if_pos (by omega), hcode]
  simp only [hend, hnal, hdone, Nat.add_sub_cancel_left, bind, Except.bind, append_nil]
  rfl

/-! ## The samples of a file -/

def sampleOffsets (offset : Nat) : List NalUnit → List SampleOffset
  | [] => []
  | unit :: units =>
    ⟨UInt64.ofNat offset, UInt32.ofNat (sampleBytes unit).length, 3000, isIdr unit⟩ ::
      sampleOffsets (offset + (sampleBytes unit).length) units

theorem foldlM_addSample {units : List NalUnit}
    (h : Forall₂ (Located data) samples units) (acc : Bytes × List SampleOffset) :
    samples.foldlM (addSample data .avc1) acc =
      .ok (acc.1 ++ units.flatMap sampleBytes, acc.2 ++ sampleOffsets acc.1.length units) := by
  induction h generalizing acc with
  | nil => simp [sampleOffsets, pure, Except.pure]
  | @cons sample unit samples units hsample _ ih =>
    have hadd : addSample data .avc1 acc sample = .ok (acc.1 ++ sampleBytes unit,
        acc.2 ++ [⟨UInt64.ofNat acc.1.length, UInt32.ofNat (sampleBytes unit).length, 3000, isIdr unit⟩]) := by
      rw [addSample, sampleData_located hsample]
      obtain ⟨front, long, rest, -, rfl⟩ := hsample
      rfl
    rw [foldlM_cons, hadd]
    refine (ih _).trans ?_
    simp [sampleOffsets]

/-! ## The file -/

def sampleTable (samples : List SampleOffset) (mdatDataOffset : UInt32) (stsdData : Bytes) : Bytes :=
  fullBoxHeader (4 + stsdData.length) Isobmff.stsd 0 0 ++ be32 1 ++ stsdData ++
    boxed Isobmff.stts (sttsTable samples) ++ boxed Isobmff.stsc (stscTable samples) ++
    boxed Isobmff.stsz (stszTable samples) ++ boxed Isobmff.stco (stcoTable mdatDataOffset) ++
    if keyframeIndices samples = [] then [] else boxed Isobmff.stss (stssTable (keyframeIndices samples))

def mediaInfo (table : Bytes) : Bytes :=
  boxed Isobmff.vmhd vmhdBox ++ boxed Isobmff.dinf drefBox ++ boxed Isobmff.stbl table

def media (samples : List SampleOffset) (timescale : UInt32) (table : Bytes) : Bytes :=
  boxed Isobmff.mdhd (mdhdBox samples timescale) ++ boxed Isobmff.hdlr hdlrBox ++ boxed Isobmff.minf (mediaInfo table)

def track (samples : List SampleOffset) (timescale : UInt32) (table : Bytes) : Bytes :=
  boxed Isobmff.tkhd (tkhdBox samples) ++ boxed Isobmff.mdia (media samples timescale table)

def movie (samples : List SampleOffset) (timescale : UInt32) (table : Bytes) : Bytes :=
  boxed Isobmff.mvhd (mvhdBox samples timescale) ++ boxed Isobmff.trak (track samples timescale table)

def ftypBox : Bytes :=
  be32 (8 + UInt32.ofNat ftypPayload.length) ++ Isobmff.ftyp ++ ftypPayload

/-- The chunk offset is a constant: the 28 bytes of `ftyp` and the header of `mdat`. -/
def chunkOffset : UInt32 := 36

def mp4File (samples : List SampleOffset) (stsdData mdatData : Bytes) : Bytes :=
  ftypBox ++ boxed Isobmff.moov (movie samples 90000 (sampleTable samples chunkOffset stsdData)) ++
    (be32 (8 + UInt32.ofNat mdatData.length) ++ Isobmff.mdat ++ mdatData)

theorem buildMp4_of_loop {pps : Bytes} {rawData mdatData : Bytes} {entries : List SampleOffset}
    (hloop : samples.foldlM (addSample rawData .avc1) ([], []) = .ok (mdatData, entries)) :
    buildMp4 sps pps samples rawData .avc1 =
      (buildStsdData sps pps .avc1).map fun stsdData => some (mp4File entries stsdData mdatData) := by
  rw [buildMp4, hloop]
  -- the builders fail only where the profile is read out of the parameter set
  simp only [bind, Except.bind, buildMoovBox, buildTrakBox, buildMdiaBox, buildStblBox]
  cases buildStsdData sps pps .avc1 with
  | error fault | ok stsdData => rfl

/-- Whatever file is written, it is of this form. -/
theorem exists_of_nativeMp4FromH264 {file : Bytes} (h : nativeMp4FromH264 data = .ok (some file)) :
    ∃ entries stsdData mdatData, file = mp4File entries stsdData mdatData := by
  obtain ⟨found, -, hbuild⟩ := bind_eq_ok.1 h
  split at hbuild
  · cases hbuild
  · obtain ⟨acc, hloop, -⟩ := bind_eq_ok.1 hbuild
    rw [buildMp4_of_loop hloop] at hbuild
    cases hstsd : buildStsdData found.sps found.pps .avc1 with
    | error fault =>
      rw [hstsd] at hbuild
      cases hbuild
    | ok stsdData =>
      rw [hstsd] at hbuild
      cases hbuild
      exact ⟨_, _, _, rfl⟩

/-- A stream that can be recorded: it has both parameter sets and a slice. -/
structure Recordable (units : List (Bool × NalUnit)) : Prop where
  sps : ∃ u ∈ units, nalType u.2 = 7 ∧ 4 ≤ u.2.bytes.length
  pps : ∃ u ∈ units, nalType u.2 = 8
  slice : slices units ≠ []

theorem profileOf_eq_ok (h : 4 ≤ sps.length) : ∃ profile, profileOf sps = .ok profile := by
  match sps, h with
  | a :: b :: c :: d :: rest, _ => exact ⟨[b, c, d], rfl⟩

/-- The file holds the slices in order, each behind its length. -/
theorem nativeMp4FromH264_assemble (h : Recordable units) (hsps : ∀ u ∈ units, nalType u.2 = 7 → 4 ≤ u.2.bytes.length) :
    ∃ stsdData, nativeMp4FromH264 (assemble units) =
      .ok (some (mp4File (sampleOffsets 0 (slices units)) stsdData ((slices units).flatMap sampleBytes))) := by
  have hfuel : units.length < (assemble units).length + 1 := by
    have hle : units.length ≤ (assemble units).length := by
      apply length_le_flatMap
      intro u _
      simp [startCode_ne_nil]
    omega
  have hscan := scan_assemble units [] ⟨[], [], []⟩ hfuel
  have hsamples := @samples_scanned (assemble units) [] units rfl ⟨[], [], []⟩ [] .nil
  obtain ⟨hspsLast, hppsLast⟩ := scanned_sets 0 ⟨[], [], []⟩ units
  -- the last parameter sets of the stream are kept
  obtain ⟨sps, hspsMem, hspsType, hsps'⟩ := exists_lastOfType [] (h.sps.imp fun u hu => ⟨hu.1, hu.2.1⟩)
  obtain ⟨pps, -, -, hpps'⟩ := exists_lastOfType [] h.pps
  rw [nil_append] at hscan hsamples
  rw [hsps'] at hspsLast
  rw [hpps'] at hppsLast
  obtain ⟨profile, hprofile⟩ := profileOf_eq_ok (hsps sps hspsMem hspsType)
  unfold nativeMp4FromH264
  change scan (assemble units) _ 0 _ = _ at hscan
  change Forall₂ _ (scanned 0 _ units).samples _ at hsamples
  rw [hscan]
  generalize scanned 0 ⟨[], [], []⟩ units = found at *
  have hfound : ¬ (found.sps = [] ∨ found.pps = [] ∨ found.samples = []) := by
    rw [hspsLast, hppsLast]
    rintro (hnil | hnil | hnil)
    · exact sps.2.ne_nil hnil
    · exact pps.2.ne_nil hnil
    · rw [hnil] at hsamples
      exact h.slice (forall₂_nil_left_iff.1 hsamples)
  simp only [bind, Except.bind]
  rw [if_neg hfound, buildMp4_of_loop (foldlM_addSample hsamples ([], [])), hspsLast, buildStsdData, hprofile]
  exact ⟨_, rfl⟩

end LingVoice.LmRecorder.Mp4

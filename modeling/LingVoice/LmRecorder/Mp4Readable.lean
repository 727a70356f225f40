import LingVoice.LmRecorder.Mp4Scan

/-!
# Mp4Readable — what a reader finds in a native MP4 file

The tables carry two headers, so a reader has to skip twelve bytes in front of their words where the standard has
four.  With the standard's header there is no chunk table.  With the longer one the only chunk begins at offset 36,
which is not in `mdat` but at the first box of `moov`: the first sample is read as `mvhd` (`getElem_of_readTrack`), and
no file is read back.
-/

namespace LingVoice.LmRecorder.Mp4

open Lib List Isobmff
open Lib.AnnexB
open Lib.Isobmff (box child readTrack)

def idrNumbers (units : List NalUnit) : List Nat :=
  (units.zipIdx.filter fun s => isIdr s.1).map fun s => s.2 + 1

/-- What should be read: the slices behind their lengths, and the numbers of those that are IDR. -/
def expectedTrack (units : List (Bool × NalUnit)) : Isobmff.Track where
  samples := (slices units).map sampleBytes
  sync := idrNumbers (slices units)

/-! ## Boxes of the muxer -/

theorem boxed_eq_box (boxType payload : Bytes) : boxed boxType payload = box boxType payload := rfl

/-- A header with version and flags, in front of as many bytes as it counts. -/
theorem fullBoxHeader_append {payload boxType : Bytes} (version : UInt8) (flags : UInt32) {n : Nat}
    (hn : n = payload.length) :
    fullBoxHeader n boxType version flags ++ payload = box boxType ([version] ++ (be32 flags).drop 1 ++ payload) := by
  have hlength : ([version] ++ (be32 flags).drop 1 ++ payload).length = n + 4 := by
    simp [hn]
    omega
  have hsize : UInt32.ofNat n + 12 = UInt32.ofNat (n + 4) + 8 := by
    apply UInt32.toNat_inj.1
    have h12 : (12 : UInt32).toNat = 12 := rfl
    have h8 : (8 : UInt32).toNat = 8 := rfl
    rw [UInt32.toNat_add, UInt32.toNat_add, UInt32.toNat_ofNat', UInt32.toNat_ofNat']
    omega
  rw [box, hlength, fullBoxHeader, hsize]
  simp

section Children

open Lib.Isobmff (child_encode)

variable {samples : List SampleOffset} {timescale mdatDataOffset : UInt32} {table stsdData : Bytes}

/-- The way from the movie to the sample table; every box on it fits, as the movie does. -/
theorem stbl_of_movie (hsize : (movie samples timescale table).length + 8 < 2 ^ 32) :
    child trak (movie samples timescale table) = some (track samples timescale table) ∧
      child mdia (track samples timescale table) = some (media samples timescale table) ∧
      child minf (media samples timescale table) = some (mediaInfo table) ∧
      child stbl (mediaInfo table) = some table ∧ table.length + 8 < 2 ^ 32 := by
  have hmovie : movie samples timescale table = encode
      [⟨mvhd, mvhdBox samples timescale⟩, ⟨trak, track samples timescale table⟩] := by
    simp [movie, boxed_eq_box, encode]
  have htrack : track samples timescale table = encode
      [⟨tkhd, tkhdBox samples⟩, ⟨mdia, media samples timescale table⟩] := by
    simp [track, boxed_eq_box, encode]
  have hmedia : media samples timescale table = encode
      [⟨mdhd, mdhdBox samples timescale⟩, ⟨hdlr, hdlrBox⟩, ⟨minf, mediaInfo table⟩] := by
    simp [media, boxed_eq_box, encode]
  have hinfo : mediaInfo table = encode
      [⟨vmhd, vmhdBox⟩, ⟨dinf, drefBox⟩, ⟨stbl, table⟩] := by
    simp [mediaInfo, boxed_eq_box, encode]
  obtain ⟨htrak, hsize⟩ := child_encode trak hmovie (by simp [mvhd, trak]) hsize rfl
  obtain ⟨hmdia, hsize⟩ := child_encode mdia htrack (by simp [tkhd, mdia]) hsize rfl
  obtain ⟨hminf, hsize⟩ := child_encode minf hmedia (by simp [mdhd, hdlr, minf]) hsize rfl
  obtain ⟨hstbl, hsize⟩ := child_encode stbl hinfo (by simp [vmhd, dinf, stbl]) hsize rfl
  exact ⟨htrak, hmdia, hminf, hstbl, hsize⟩

def tableBoxes (samples : List SampleOffset) (mdatDataOffset : UInt32) (stsdData : Bytes) : List Box :=
  [⟨Isobmff.stsd, [0] ++ (be32 0).drop 1 ++ (be32 1 ++ stsdData)⟩, ⟨Isobmff.stts, sttsTable samples⟩,
    ⟨Isobmff.stsc, stscTable samples⟩, ⟨Isobmff.stsz, stszTable samples⟩,
    ⟨Isobmff.stco, stcoTable mdatDataOffset⟩] ++
    if keyframeIndices samples = [] then [] else [⟨Isobmff.stss, stssTable (keyframeIndices samples)⟩]

theorem sampleTable_eq : sampleTable samples mdatDataOffset stsdData =
    encode (tableBoxes samples mdatDataOffset stsdData) := by
  have hstsd : fullBoxHeader (4 + stsdData.length) stsd 0 0 ++ be32 1 ++ stsdData =
      box stsd ([0] ++ (be32 0).drop 1 ++ (be32 1 ++ stsdData)) := by
    rw [append_assoc]
    exact fullBoxHeader_append 0 0 (by rw [length_append, length_be32])
  rw [sampleTable, hstsd, tableBoxes, encode, flatMap_append]
  split
  · simp [boxed_eq_box]
  · simp [boxed_eq_box]

theorem length_boxType_of_mem {b : Box} (hb : b ∈ tableBoxes samples mdatDataOffset stsdData) :
    b.boxType.length = 4 := by
  unfold tableBoxes at hb
  split at hb
  · simp only [append_nil, mem_cons, not_mem_nil, or_false] at hb
    rcases hb with rfl | rfl | rfl | rfl | rfl
    all_goals rfl
  · simp only [cons_append, nil_append, mem_cons, not_mem_nil, or_false] at hb
    rcases hb with rfl | rfl | rfl | rfl | rfl | rfl
    all_goals rfl

end Children

/-! ## Reading a file -/

section File

variable {entries : List SampleOffset} {stsdData mdatData : Bytes}

/-- If the file is `ftyp`, `moov` and `mdat` for a reader, it finds the movie that was written. -/
theorem child_moov {top : List Box} (htop : Box.boxes (mp4File entries stsdData mdatData) = some top)
    (htypes : top.map Box.boxType = [ftyp, moov, mdat]) :
    child moov (mp4File entries stsdData mdatData) =
        some (movie entries 90000 (sampleTable entries chunkOffset stsdData)) ∧
      (movie entries 90000 (sampleTable entries chunkOffset stsdData)).length + 8 < 2 ^ 32 := by
  generalize hmovie : movie entries 90000 (sampleTable entries chunkOffset stsdData) = payload
  have hfile : mp4File entries stsdData mdatData = box ftyp ftypPayload ++ (box moov payload ++ box mdat mdatData) := by
    rw [mp4File, UInt32.add_comm, hmovie, append_assoc]
    rfl
  have hskip (rest : Bytes) : Box.boxes (box ftyp ftypPayload ++ rest) =
      (Box.boxes rest).map (⟨ftyp, ftypPayload⟩ :: ·) := boxes_box rfl (by decide) rest
  rw [hfile, hskip] at htop
  obtain ⟨bs, hbs, rfl⟩ := Option.map_eq_some_iff.1 htop
  -- two boxes are left, so the first of them is not too long for its size field
  have hlength : bs.length = 2 := by
    simpa using congrArg List.length htypes
  obtain ⟨b, c, rfl⟩ := length_eq_two.1 hlength
  have hsize := size_lt_of_boxes_pair rfl hbs
  refine ⟨?_, hsize⟩
  rw [boxes_box rfl hsize] at hbs
  obtain ⟨cs, hcs, -⟩ := Option.map_eq_some_iff.1 hbs
  rw [child, hfile, hskip, boxes_box rfl hsize, hcs]
  rfl

variable {header : Nat} {t : Isobmff.Track}

theorem exists_of_readTrack (h : readTrack header (mp4File entries stsdData mdatData) = some t) :
    ∃ offsets runs sizes places,
      (words ((stcoTable chunkOffset).drop header)).bind counted = some offsets ∧
        locate runs 1 offsets sizes = some places ∧
        places.mapM (readAt (mp4File entries stsdData mdatData)) = some t.samples := by
  simp only [readTrack, Option.bind_eq_bind, Option.bind_eq_some_iff] at h
  obtain ⟨top, htop, u, hguard, movie', hmovie, track', htrack, media', hmedia, info, hinfo, dinf, -, table, htable,
    sizes, -, runs, -, offsets, hoffsets, places, hplaces, samples, hsamples, sync, -, hresult⟩ := h
  have htypes : top.map Box.boxType = [ftyp, moov, mdat] := by
    by_contra hne
    simp [guard, hne] at hguard
  -- the boxes on the way are those that were written
  obtain ⟨hchild, hsize⟩ := child_moov htop htypes
  obtain rfl := Option.some.inj (hchild.symm.trans hmovie)
  obtain ⟨htrak, hmdia, hminf, hstbl, hsize⟩ := stbl_of_movie hsize
  obtain rfl := Option.some.inj (htrak.symm.trans htrack)
  obtain rfl := Option.some.inj (hmdia.symm.trans hmedia)
  obtain rfl := Option.some.inj (hminf.symm.trans hinfo)
  obtain rfl := Option.some.inj (hstbl.symm.trans htable)
  have hstco := (child_encode stco sampleTable_eq (fun _ hb => length_boxType_of_mem hb) hsize rfl).1
  rw [tableWords, hstco, Option.bind_some] at hoffsets
  obtain rfl := Option.some.inj hresult
  exact ⟨offsets, runs, sizes, places, Option.bind_eq_some_iff.2 hoffsets, hplaces, hsamples⟩

/-- At the chunk offset stands the first box of the movie. -/
theorem drop_mp4File : ∃ size rest, (mp4File entries stsdData mdatData).drop 36 = be32 size ++ (mvhd ++ rest) := by
  have hfront : mp4File entries stsdData mdatData =
      (ftypBox ++ boxHeader (movie entries 90000 (sampleTable entries chunkOffset stsdData)).length moov) ++
        (movie entries 90000 (sampleTable entries chunkOffset stsdData) ++
          (be32 (8 + UInt32.ofNat mdatData.length) ++ mdat ++ mdatData)) := by
    simp only [mp4File, boxed, append_assoc]
  have hlength : (ftypBox ++
      boxHeader (movie entries 90000 (sampleTable entries chunkOffset stsdData)).length moov).length = 36 := by
    simp [ftypBox, boxHeader, ftypPayload, ftyp, moov]
  rw [hfront, drop_left' hlength, movie, boxed, boxHeader]
  exact ⟨_, _, rfl⟩

/-- No reader gets a sample whose fifth byte, the header of the unit, is not that of `mvhd`. -/
theorem getElem_of_readTrack (hheader : header = 4 ∨ header = 12)
    (h : readTrack header (mp4File entries stsdData mdatData) = some t) {first : Bytes} {more : List Bytes}
    (hsamples : t.samples = first :: more) {b : UInt8} (hb : first[4]? = some b) : b = 0x6d := by
  obtain ⟨offsets, runs, sizes, places, hoffsets, hplaces, hread⟩ := exists_of_readTrack h
  have hfour : (words ((stcoTable chunkOffset).drop 4)).bind counted = none := by decide
  have htwelve : (words ((stcoTable chunkOffset).drop 12)).bind counted = some [36] := by decide
  rcases hheader with rfl | rfl
  · -- the words of the second header are taken for the table
    rw [hfour] at hoffsets
    cases hoffsets
  · -- the first sample is cut out at the chunk offset, whatever its size
    rw [htwelve] at hoffsets
    cases hoffsets
    rw [hsamples] at hread
    obtain ⟨size, rfl⟩ := exists_of_locate_singleton hplaces hread
    obtain ⟨n, rest, hdrop⟩ := @drop_mp4File entries stsdData mdatData
    rw [hdrop, getElem?_take] at hb
    split at hb
    · rw [getElem?_append_right (by simp), length_be32] at hb
      exact (Option.some.inj hb).symm
    · cases hb

end File

/-- The first sample would have to begin with a length and the header of a slice. -/
theorem exists_of_slices {units : List (Bool × NalUnit)} (h : slices units ≠ []) :
    ∃ first more b, (expectedTrack units).samples = first :: more ∧ first[4]? = some b ∧
      (b &&& 0x1F = 5 ∨ b &&& 0x1F = 1) := by
  obtain ⟨unit, rest, hslices⟩ := exists_cons_of_ne_nil h
  obtain ⟨b, tail, hbytes⟩ := exists_cons_of_ne_nil unit.ne_nil
  have hslice : isSlice unit = true := by
    have hmem : unit ∈ slices units := by
      rw [hslices]
      exact mem_cons_self
    exact (mem_filter.1 hmem).2
  refine ⟨sampleBytes unit, rest.map sampleBytes, b, ?_, ?_, ?_⟩
  · rw [expectedTrack, hslices, map_cons]
  · rw [sampleBytes, getElem?_append_right (by simp), length_be32, hbytes]
    rfl
  · simpa [isSlice, nalType, hbytes] using hslice

theorem flatMap_assemble (frames : List (List (Bool × NalUnit))) :
    frames.flatMap assemble = assemble frames.flatten := by
  induction frames with
  | nil => rfl
  | cons frame frames ih =>
    rw [flatMap_cons, ih, flatten_cons, assemble, assemble, assemble, flatMap_append]

/-- A recording becomes a file if no parameter set is too short; but from no file, with the tables read as the
standard has it or behind their second header, are the slices read back. -/
theorem readTrack_ne_of_recordable (frames : List (List (Bool × NalUnit))) (h : Recordable frames.flatten) :
    ((∀ u ∈ frames.flatten, nalType u.2 = 7 → 4 ≤ u.2.bytes.length) →
        ∃ file, nativeMp4FromH264 (frames.flatMap assemble) = .ok (some file)) ∧
      ∀ file, nativeMp4FromH264 (frames.flatMap assemble) = .ok (some file) →
        ∀ header ∈ [4, 12], readTrack header file ≠ some (expectedTrack frames.flatten) := by
  rw [flatMap_assemble]
  refine ⟨?_, ?_⟩
  · intro hsps
    obtain ⟨stsdData, hfile⟩ := nativeMp4FromH264_assemble h hsps
    exact ⟨_, hfile⟩
  · intro file hfile header hheader hread
    obtain ⟨entries, stsdData, mdatData, rfl⟩ := exists_of_nativeMp4FromH264 hfile
    obtain ⟨first, more, b, hsamples, hb, hslice⟩ := exists_of_slices h.slice
    -- the letter m would have to be the header of a slice
    have hbyte := getElem_of_readTrack (by simpa using hheader) hread hsamples hb
    subst hbyte
    exact absurd hslice (by decide)

def shortest : List (Bool × NalUnit) :=
  [(true, ⟨[0x67, 0x42, 0x00, 0x1E], by decide, by decide, by decide⟩),
    (true, ⟨[0x68, 0xCE], by decide, by decide, by decide⟩),
    (true, ⟨[0x65, 0x88], by decide, by decide, by decide⟩)]

theorem readTrack_ne_shortest :
    (∃ file, nativeMp4FromH264 ([shortest].flatMap assemble) = .ok (some file)) ∧
      ∀ file, nativeMp4FromH264 ([shortest].flatMap assemble) = .ok (some file) →
        ∀ header ∈ [4, 12], readTrack header file ≠ some (expectedTrack [shortest].flatten) := by
  have hrecordable : Recordable [shortest].flatten := by
    refine ⟨?_, ?_, ?_⟩
    · decide
    · decide
    · exact ne_nil_of_length_pos (by decide)
  have hresult := readTrack_ne_of_recordable [shortest] hrecordable
  exact ⟨hresult.1 (by decide), hresult.2⟩

/-- The sample is read as the size and the first letters of `mvhd`. -/
theorem readTrack_shortest :
    (expectedTrack shortest).samples = [[0x00, 0x00, 0x00, 0x02, 0x65, 0x88]] ∧
      (nativeMp4FromH264 (assemble shortest)).map (fun file => file.map (readTrack 12)) =
        .ok (some (some ⟨[[0x00, 0x00, 0x00, 0x70, 0x6d, 0x76]], [1]⟩)) ∧
      (nativeMp4FromH264 (assemble shortest)).map (fun file => file.map (readTrack 4)) = .ok (some none) := by
  refine ⟨by decide, by decide +kernel, by decide +kernel⟩

end LingVoice.LmRecorder.Mp4

import LingVoice.LmRecorder.Webm

/-!
# WebmRoundTrip — which recordings are read back

A reader gets the frames back that were recorded if each is no further than 16 bits of milliseconds away from the
keyframe or audio frame before it, is short enough for the 56 bits of a size, and, if it is audio, has a track.
-/

namespace LingVoice.LmRecorder.Webm

open Lib (toBe ofBe ofBe_toBe_of_lt)
open Lib.Ebml List WebmRecorder Option

namespace Frame

def timestamp : Frame → UInt64
  | video _ timestamp _ => timestamp
  | audio _ timestamp => timestamp

def data : Frame → Bytes
  | video data _ _ => data
  | audio data _ => data

def isAudio : Frame → Bool
  | video _ _ _ => false
  | audio _ _ => true

def isKeyframe : Frame → Bool
  | video _ _ isKeyframe => isKeyframe
  | audio _ _ => true

def track (f : Frame) : UInt8 :=
  if f.isAudio then 2 else 1

def block (f : Frame) : Block where
  track := f.track.toNat
  time := f.timestamp.toNat
  keyframe := f.isKeyframe
  data := f.data

def Valid (f : Frame) : Prop :=
  f.timestamp.toNat < 2 ^ 63 ∧ f.data.length < 2 ^ 56

instance (f : Frame) : Decidable f.Valid :=
  inferInstanceAs (Decidable (_ ∧ _))

end Frame

/-! ## When frames fit -/

def clusterAfter (cluster : Option UInt64) (f : Frame) : Option UInt64 :=
  if f.isKeyframe then some f.timestamp else cluster

/-- The frame can be read back from behind a cluster of this time. -/
def Fits (hasAudio : Bool) (cluster : Option UInt64) (f : Frame) : Prop :=
  f.data.length + 5 < 2 ^ 56 ∧ (f.isAudio = true → hasAudio = true) ∧
    (f.isKeyframe = false → ∃ t, cluster = some t ∧
      (t.toNat : Int) - 32768 ≤ f.timestamp.toNat ∧ (f.timestamp.toNat : Int) ≤ t.toNat + 32767)

/-- Every frame fits behind the last keyframe or audio frame before it. -/
def AllFit (hasAudio : Bool) : Option UInt64 → List Frame → Prop
  | _, [] => True
  | cluster, f :: frames => Fits hasAudio cluster f ∧ AllFit hasAudio (clusterAfter cluster f) frames

/-! ## Times -/

def relativeTime (timestamp cluster : UInt64) : Int16 :=
  (clampI64 (timestamp.toInt64 - cluster.toInt64) (-32768) 32767).toInt16

theorem toInt_toInt64 {x : UInt64} (hx : x.toNat < 2 ^ 63) : x.toInt64.toInt = x.toNat := by
  have hbmod : x.toInt64.toInt = (x.toNat : Int).bmod (2 ^ 64) := BitVec.toInt_eq_toNat_bmod x.toBitVec
  rw [hbmod]
  exact Int.bmod_eq_of_le (by omega) (by omega)

theorem toInt_clampI64 (x : Int64) : (clampI64 x (-32768) 32767).toInt16.toInt = max (-32768) (min x.toInt 32767) := by
  have hlow : (-32768 : Int64).toInt = -32768 := by decide
  have hhigh : (32767 : Int64).toInt = 32767 := by decide
  have hclamp : (clampI64 x (-32768) 32767).toInt = max (-32768) (min x.toInt 32767) := by
    unfold clampI64
    split
    · rename_i h
      rw [Int64.lt_iff_toInt_lt] at h
      omega
    · split
      · rename_i h h'
        rw [Int64.lt_iff_toInt_lt] at h h'
        omega
      · rename_i h h'
        rw [Int64.lt_iff_toInt_lt] at h h'
        omega
  rw [Int64.toInt_toInt16, hclamp]
  exact Int.bmod_eq_of_le (by omega) (by omega)

theorem toInt_relativeTime {timestamp cluster : UInt64} (htimestamp : timestamp.toNat < 2 ^ 63)
    (hcluster : cluster.toNat < 2 ^ 63) :
    (relativeTime timestamp cluster).toInt = max (-32768) (min ((timestamp.toNat : Int) - cluster.toNat) 32767) := by
  have hsub : (timestamp.toInt64 - cluster.toInt64).toInt = timestamp.toNat - cluster.toNat := by
    rw [Int64.toInt_sub, toInt_toInt64 htimestamp, toInt_toInt64 hcluster]
    exact Int.bmod_eq_of_le (by omega) (by omega)
  rw [relativeTime, toInt_clampI64, hsub]

/-! ## One element in front of anything -/

def clusterBytes (timestamp : UInt64) : Bytes :=
  encodeEbmlId ebmlIdCluster ++ [0x01, 0xFF, 0xFF, 0xFF, 0xFF, 0xFF, 0xFF, 0xFF] ++
    encodeEbmlUint ebmlIdTimecode timestamp

theorem readElement_cluster (rest : Bytes) :
    readElement (encodeEbmlId ebmlIdCluster ++ ([0x01, 0xFF, 0xFF, 0xFF, 0xFF, 0xFF, 0xFF, 0xFF] ++ rest)) =
      some (⟨ebmlIdCluster.toNat, none⟩, rest) := by
  obtain ⟨w, hw, value, hvalue, hbytes, hnat⟩ := validId_cluster
  -- all ones are no size: they say that the cluster ends where the next one begins
  have hones : [0x01, 0xFF, 0xFF, 0xFF, 0xFF, 0xFF, 0xFF, 0xFF] = vintBytes (7 + 1) (2 ^ 56 - 1) := by decide
  rw [hbytes, hones, readElement_append hw hvalue (by decide) (by decide), if_pos (by decide), hnat]

theorem parse_clusterBytes (position : Position) (timestamp : UInt64) (rest : Bytes) :
    parse readStep position (clusterBytes timestamp ++ rest) = parse readStep (.timed timestamp.toNat) rest := by
  obtain ⟨bytes, hvalue, htimecode⟩ := exists_readElement_encodeEbmlUint validId_timecode timestamp rest
  rw [clusterBytes, append_assoc, append_assoc, parse_cons _ _ (readElement_cluster _)]
  have hopen : readStep position ⟨ebmlIdCluster.toNat, none⟩ = some (.opened, []) := rfl
  rw [hopen, bind_some, parse_cons _ _ htimecode]
  have htime : readStep .opened ⟨ebmlIdTimecode.toNat, some bytes⟩ = some (.timed (ofBe bytes), []) := rfl
  rw [htime, bind_some, hvalue]
  simp

theorem readSimpleBlock_simpleBlock (timecode : Nat) (f : Frame) (relTc : Int16) :
    readSimpleBlock timecode (simpleBlock f.track relTc f.isKeyframe f.data) =
      some ⟨f.track.toNat, timecode + relTc.toInt, f.isKeyframe, f.data⟩ := by
  have htrack : [0x80 ||| (f.track &&& 0x7F)] = vintBytes (0 + 1) f.track.toNat ∧
      f.track.toNat < 2 ^ (7 * (0 + 1)) := by
    unfold Frame.track
    split
    · decide
    · decide
  have hbytes : toBe 2 relTc.toUInt16.toNat =
      [UInt8.ofNat (relTc.toUInt16.toNat / 256), UInt8.ofNat relTc.toUInt16.toNat] := rfl
  have htime : (UInt16.ofNat (ofBe (toBe 2 relTc.toUInt16.toNat))).toInt16 = relTc := by
    rw [ofBe_toBe_of_lt relTc.toUInt16.toNat_lt, UInt16.ofNat_toNat, Int16.toInt16_toUInt16]
  have hbody : simpleBlock f.track relTc f.isKeyframe f.data =
      vintBytes (0 + 1) f.track.toNat ++ (UInt8.ofNat (relTc.toUInt16.toNat / 256) ::
        UInt8.ofNat relTc.toUInt16.toNat :: (if f.isKeyframe then 0x80 else 0x00) :: f.data) := by
    rw [simpleBlock, htrack.1, hbytes]
    simp
  have hvalue : Vint.value ⟨0 + 1, 2 ^ (7 * (0 + 1)) + f.track.toNat⟩ = f.track.toNat := by
    rw [Vint.value, Nat.add_mod_left, Nat.mod_eq_of_lt htrack.2]
  -- no lacing, and the top bit is the keyframe flag
  have hflags : ((if f.isKeyframe then (0x80 : UInt8) else 0x00) &&& 0x06) = 0 ∧
      ((if f.isKeyframe then (0x80 : UInt8) else 0x00) &&& 0x80 != 0) = f.isKeyframe := by
    cases f.isKeyframe with
    | false | true => decide
  rw [readSimpleBlock, hbody, readVint_vintBytes (by decide) htrack.2]
  dsimp only
  rw [if_pos hflags.1, hflags.2, hvalue, ← hbytes, htime]

/-- A track number, two bytes of time and the flags are missing in a shorter body. -/
theorem readSimpleBlock_eq_none (timecode : Nat) {body : Bytes} (hbody : body.length < 4) :
    readSimpleBlock timecode body = none := by
  unfold readSimpleBlock
  split
  · rename_i track high low flags data hvint
    have hlt := length_lt_of_readVint hvint
    simp only [length_cons] at hlt
    omega
  · rfl

/-! ## One frame in front of anything -/

def frameBytes (cluster : Option UInt64) (f : Frame) : Bytes :=
  (if f.isKeyframe = true ∧ cluster ≠ some f.timestamp then clusterBytes f.timestamp else []) ++
    encodeEbmlElement ebmlIdSimpleBlock
      (WebmRecorder.simpleBlock f.track (relativeTime f.timestamp ((clusterAfter cluster f).getD 0xFFFFFFFFFFFFFFFF))
        f.isKeyframe f.data)

def position : Option UInt64 → Position
  | none => .outside
  | some t => .timed t.toNat

def blockBehind (t : UInt64) (f : Frame) : Block :=
  { f.block with time := t.toNat + max (-32768) (min ((f.timestamp.toNat : Int) - t.toNat) 32767) }

theorem length_simpleBlock (track : UInt8) (relTc : Int16) (isKeyframe : Bool) (data : Bytes) :
    (simpleBlock track relTc isKeyframe data).length = data.length + 4 := by
  simp [simpleBlock]
  omega

variable {f : Frame} {cluster : Option UInt64} {hasAudio : Bool} {frames : List Frame}

theorem parse_simpleBlock {t : UInt64} (ht : t.toNat < 2 ^ 63) (hf : f.Valid) (rest : Bytes) :
    parse readStep (.timed t.toNat)
        (encodeEbmlElement ebmlIdSimpleBlock
          (simpleBlock f.track (relativeTime f.timestamp t) f.isKeyframe f.data) ++ rest) =
      if f.data.length + 5 < 2 ^ 56 then (parse readStep (.timed t.toNat) rest).map (blockBehind t f :: ·)
      else none := by
  generalize hrel : relativeTime f.timestamp t = relTc
  have hlen := length_simpleBlock f.track relTc f.isKeyframe f.data
  have hstep (body : Bytes) : readStep (.timed t.toNat) ⟨ebmlIdSimpleBlock.toNat, some body⟩ =
      (readSimpleBlock t.toNat body).map fun block => (.timed t.toNat, [block]) := rfl
  have hlong := hf.2
  obtain ⟨body, rest', hread, hfits, hbody⟩ := exists_readElement validId_simpleBlock (hlen.trans_lt (by omega)) rest
  rw [parse_cons _ _ hread]
  by_cases hshort : f.data.length + 5 < 2 ^ 56
  · obtain ⟨rfl, rfl⟩ := hfits (by omega)
    rw [hstep, readSimpleBlock_simpleBlock, ← hrel, toInt_relativeTime hf.1 ht, if_pos hshort]
    rfl
  · -- the size is cut to 56 bits: it is read as unknown or as a number below 4
    rw [if_neg hshort]
    cases body with
    | none => rfl
    | some body =>
      rw [hstep, readSimpleBlock_eq_none _ (hbody (by omega) body rfl)]
      rfl

theorem parse_simpleBlock_outside (hf : f.Valid) (relTc : Int16) (rest : Bytes) :
    parse readStep .outside
        (encodeEbmlElement ebmlIdSimpleBlock (simpleBlock f.track relTc f.isKeyframe f.data) ++ rest) = none := by
  have hlen := length_simpleBlock f.track relTc f.isKeyframe f.data
  have hlong := hf.2
  obtain ⟨body, rest', hread, -⟩ := exists_readElement validId_simpleBlock (hlen.trans_lt (by omega)) rest
  rw [parse_cons _ _ hread]
  cases body with
  | none | some body => rfl

/-- What a reader makes of a frame: nothing before the first cluster, else the frame with its time clamped. -/
theorem parse_frameBytes (hcluster : ∀ t, cluster = some t → t.toNat < 2 ^ 63) (hf : f.Valid) (rest : Bytes) :
    parse readStep (position cluster) (frameBytes cluster f ++ rest) =
      (clusterAfter cluster f).bind fun t =>
        if f.data.length + 5 < 2 ^ 56 then (parse readStep (position (some t)) rest).map (blockBehind t f :: ·)
        else none := by
  rw [frameBytes, append_assoc]
  by_cases hkey : f.isKeyframe = true
  · -- whether the cluster is opened now or was open, its time is that of the frame
    have hafter : clusterAfter cluster f = some f.timestamp := if_pos hkey
    rw [hafter, getD_some, bind_some, position, ← parse_simpleBlock hf.1 hf]
    split
    · rw [parse_clusterBytes]
    · rename_i hold
      have hsame : cluster = some f.timestamp := by
        by_contra hne
        exact hold ⟨hkey, hne⟩
      rw [hsame]
      rfl
  · -- any other frame goes behind the cluster that is open, if there is one
    have hafter : clusterAfter cluster f = cluster := if_neg hkey
    rw [if_neg (fun hnew => hkey hnew.1), nil_append, hafter]
    cases cluster with
    | none => exact parse_simpleBlock_outside hf _ rest
    | some t => exact parse_simpleBlock (hcluster t rfl) hf rest

theorem clusterAfter_lt (hcluster : ∀ t, cluster = some t → t.toNat < 2 ^ 63)
    (hf : f.Valid) : ∀ t, clusterAfter cluster f = some t → t.toNat < 2 ^ 63 := by
  intro t ht
  unfold clusterAfter at ht
  split at ht
  · cases ht
    exact hf.1
  · exact hcluster t ht

/-! ## Runs of the recorder -/

def framesBytes (hasAudio : Bool) : Option UInt64 → List Frame → Bytes
  | _, [] => []
  | cluster, f :: frames =>
    if f.isAudio = true ∧ hasAudio = false then framesBytes hasAudio cluster frames
    else frameBytes cluster f ++ framesBytes hasAudio (clusterAfter cluster f) frames

def recorderAt (hasAudio : Bool) (cluster : Option UInt64) (file : Bytes) : WebmRecorder :=
  { WebmRecorder.create hasAudio with file := file, clusterTimestamp := cluster.getD 0xFFFFFFFFFFFFFFFF }

theorem writeSimpleBlock_recorderAt (hasAudio : Bool) (cluster : Option UInt64) (file : Bytes) (hf : f.Valid) :
    (recorderAt hasAudio cluster file).writeSimpleBlock f.track f.data f.timestamp f.isKeyframe =
      recorderAt hasAudio (clusterAfter cluster f) (file ++ frameBytes cluster f) := by
  have hnew : (f.isKeyframe && f.timestamp != cluster.getD 0xFFFFFFFFFFFFFFFF) = true ↔
      f.isKeyframe = true ∧ cluster ≠ some f.timestamp := by
    rw [Bool.and_eq_true, bne_iff_ne]
    apply and_congr_right
    intro _
    cases cluster with
    | none =>
      -- `u64::MAX` stands for no cluster and is no time of a frame
      have hmax : f.timestamp ≠ 0xFFFFFFFFFFFFFFFF := by
        intro heq
        have hlt := hf.1
        rw [heq] at hlt
        exact absurd hlt (by decide)
      exact iff_of_true hmax nofun
    | some t =>
      rw [getD_some, ne_comm]
      exact some_injective _ |>.ne_iff.symm
  have hts : (recorderAt hasAudio cluster file).clusterTimestamp = cluster.getD 0xFFFFFFFFFFFFFFFF := rfl
  by_cases hopen : f.isKeyframe = true ∧ cluster ≠ some f.timestamp
  · have hafter : clusterAfter cluster f = some f.timestamp := if_pos hopen.1
    simp only [writeSimpleBlock, hts, hnew.2 hopen, if_true]
    simp only [recorderAt, writeAll, frameBytes, hafter, if_pos hopen, clusterBytes, getD_some, append_assoc]
    rfl
  · have hafter : clusterAfter cluster f = cluster := by
      unfold clusterAfter
      split
      · rename_i hkey
        by_contra hne
        exact hopen ⟨hkey, fun h => hne h.symm⟩
      · rfl
    have hcond := mt hnew.1 hopen
    simp only [writeSimpleBlock, hts, if_neg hcond]
    simp only [recorderAt, writeAll, frameBytes, hafter, if_neg hopen, nil_append]
    rfl

theorem write_recorderAt (cluster : Option UInt64) (file : Bytes) (hf : f.Valid)
    (haudio : ¬ (f.isAudio = true ∧ hasAudio = false)) :
    (recorderAt hasAudio cluster file).write f =
      recorderAt hasAudio (clusterAfter cluster f) (file ++ frameBytes cluster f) := by
  have hwrite := writeSimpleBlock_recorderAt hasAudio cluster file hf
  cases f with
  | video data timestamp isKeyframe => exact hwrite
  | audio data timestamp =>
    cases hasAudio with
    | false => exact absurd ⟨rfl, rfl⟩ haudio
    | true => exact hwrite

theorem file_writeFrames (hasAudio : Bool) (cluster : Option UInt64) (file : Bytes)
    (hframes : ∀ f ∈ frames, f.Valid) :
    ((recorderAt hasAudio cluster file).writeFrames frames).file = file ++ framesBytes hasAudio cluster frames := by
  induction frames generalizing cluster file with
  | nil => exact (append_nil file).symm
  | cons f frames ih =>
    rw [forall_mem_cons] at hframes
    rw [framesBytes, writeFrames, foldl_cons]
    split
    · -- `write_audio_frame` returns at once
      rename_i hlost
      have hdrop : (recorderAt hasAudio cluster file).write f = recorderAt hasAudio cluster file := by
        cases f with
        | video data timestamp isKeyframe => cases hlost.1
        | audio data timestamp =>
          rw [hlost.2]
          rfl
      rw [hdrop]
      exact ih cluster file hframes.2
    · rename_i haudio
      rw [write_recorderAt cluster file hframes.1 haudio, ← append_assoc]
      exact ih _ _ hframes.2

/-- Without an audio track everything that is read is video. -/
theorem track_of_parse_framesBytes (hcluster : ∀ t, cluster = some t → t.toNat < 2 ^ 63)
    (hframes : ∀ f ∈ frames, f.Valid) {blocks : List Block}
    (h : parse readStep (position cluster) (framesBytes false cluster frames) = some blocks) :
    ∀ b ∈ blocks, b.track = 1 := by
  induction frames generalizing cluster blocks with
  | nil =>
    cases h
    simp
  | cons f frames ih =>
    rw [forall_mem_cons] at hframes
    rw [framesBytes] at h
    split at h
    · exact ih hcluster hframes.2 h
    · rename_i hvideo
      rw [parse_frameBytes hcluster hframes.1] at h
      obtain ⟨t, hafter, hblocks⟩ := bind_eq_some_iff.1 h
      split at hblocks
      · obtain ⟨rest, hrest, rfl⟩ := map_eq_some_iff.1 hblocks
        have hnext := clusterAfter_lt hcluster hframes.1
        rw [← hafter] at hrest
        have htrack : f.track = 1 := by
          rw [Frame.track, if_neg (fun haudio => hvideo ⟨haudio, rfl⟩)]
        rw [forall_mem_cons]
        refine ⟨?_, ih hnext hframes.2 hrest⟩
        show f.track.toNat = 1
        rw [htrack]
        rfl
      · cases hblocks

/-- A frame is read back behind a cluster unless its time is clamped. -/
theorem blockBehind_eq_block_iff (t : UInt64) (f : Frame) :
    blockBehind t f = f.block ↔
      (t.toNat : Int) - 32768 ≤ f.timestamp.toNat ∧ (f.timestamp.toNat : Int) ≤ t.toNat + 32767 := by
  have htime : blockBehind t f = f.block ↔
      t.toNat + max (-32768) (min ((f.timestamp.toNat : Int) - t.toNat) 32767) = f.timestamp.toNat := by
    simp [blockBehind, Frame.block]
  rw [htime]
  omega

/-- A frame that is written fits if it is read back from behind its cluster. -/
theorem fits_iff (haudio : ¬ (f.isAudio = true ∧ hasAudio = false)) :
    Fits hasAudio cluster f ↔
      f.data.length + 5 < 2 ^ 56 ∧ ∃ t, clusterAfter cluster f = some t ∧ blockBehind t f = f.block := by
  have hwritten : f.isAudio = true → hasAudio = true := by
    intro h
    by_contra hno
    exact haudio ⟨h, Bool.eq_false_of_not_eq_true hno⟩
  unfold Fits clusterAfter
  apply and_congr_right
  intro _
  simp only [blockBehind_eq_block_iff]
  by_cases hkey : f.isKeyframe = true
  · -- a keyframe is its own cluster's first, at distance zero
    refine iff_of_true ⟨hwritten, fun hno => ?_⟩ ⟨f.timestamp, if_pos hkey, by omega, by omega⟩
    rw [hkey] at hno
    cases hno
  · rw [if_neg hkey]
    constructor
    · intro h
      exact h.2 (Bool.eq_false_of_not_eq_true hkey)
    · intro h
      exact ⟨hwritten, fun _ => h⟩

theorem parse_framesBytes_iff (hcluster : ∀ t, cluster = some t → t.toNat < 2 ^ 63) (hframes : ∀ f ∈ frames, f.Valid) :
    parse readStep (position cluster) (framesBytes hasAudio cluster frames) = some (frames.map Frame.block) ↔
      AllFit hasAudio cluster frames := by
  induction frames generalizing cluster with
  | nil => exact iff_of_true rfl trivial
  | cons f frames ih =>
    rw [forall_mem_cons] at hframes
    rw [framesBytes, map_cons, AllFit]
    split
    · -- an audio frame without a track: the first block that is read is of the video track
      rename_i hlost
      have hnot : ¬ Fits hasAudio cluster f := by
        intro hfits
        have hhas := hfits.2.1 hlost.1
        rw [hlost.2] at hhas
        cases hhas
      refine iff_of_false ?_ (fun h => hnot h.1)
      intro hread
      rw [hlost.2] at hread
      have htrack := track_of_parse_framesBytes hcluster hframes.2 hread f.block mem_cons_self
      have haudio : f.block.track = 2 := by
        rw [Frame.block, Frame.track, if_pos hlost.1]
        rfl
      rw [haudio] at htrack
      cases htrack
    · rename_i haudio
      have hnext := clusterAfter_lt hcluster hframes.1
      have hrest := ih hnext hframes.2
      rw [parse_frameBytes hcluster hframes.1, ← hrest, fits_iff haudio, bind_eq_some_iff]
      constructor
      · rintro ⟨t, hafter, hread⟩
        split at hread
        · rename_i hshort
          obtain ⟨blocks, hblocks, hcons⟩ := map_eq_some_iff.1 hread
          obtain ⟨hfirst, rfl⟩ := List.cons.inj hcons
          refine ⟨⟨hshort, t, hafter, hfirst⟩, ?_⟩
          rw [← hblocks, hafter]
        · cases hread
      · rintro ⟨⟨hshort, t, hafter, hfirst⟩, hblocks⟩
        refine ⟨t, hafter, ?_⟩
        rw [if_pos hshort, ← hafter, hblocks, hfirst]
        rfl

/-- A recording is read back exactly if every frame is short enough for a size, has a track, and is within 16 bits of
milliseconds of the last keyframe or audio frame. -/
theorem readBlocks_writeFrames_iff (hasAudio : Bool) (frames : List Frame) (hframes : ∀ f ∈ frames, f.Valid) :
    readBlocks ((WebmRecorder.create hasAudio).writeFrames frames).file = some (frames.map Frame.block) ↔
      AllFit hasAudio none frames := by
  have hfile := file_writeFrames hasAudio none [] hframes
  have hcreate : recorderAt hasAudio none [] = create hasAudio := rfl
  rw [hcreate, nil_append] at hfile
  have hnone : ∀ t, (none : Option UInt64) = some t → t.toNat < 2 ^ 63 := by
    intro t ht
    cases ht
  rw [hfile]
  exact parse_framesBytes_iff hnone hframes

/-- A keyframe, a frame 32767 ms behind it and an audio frame. -/
theorem readBlocks_writeFrames_within :
    readBlocks ((WebmRecorder.create true).writeFrames
        [.video [1] 0 true, .video [2] 32767 false, .audio [3] 40000]).file =
      some [⟨1, 0, true, [1]⟩, ⟨1, 32767, false, [2]⟩, ⟨2, 40000, true, [3]⟩] := by
  refine (readBlocks_writeFrames_iff true [.video [1] 0 true, .video [2] 32767 false, .audio [3] 40000] ?_).2 ?_
  · decide
  · refine ⟨⟨by decide, by decide, nofun⟩, ⟨by decide, nofun, fun _ => ⟨0, rfl, by decide, by decide⟩⟩,
      ⟨by decide, fun _ => rfl, nofun⟩, trivial⟩

/-- A frame 40 seconds behind the last keyframe is read 32.767 seconds behind it. -/
theorem readBlocks_writeFrames_far :
    readBlocks ((WebmRecorder.create true).writeFrames [.video [1] 0 true, .video [2] 40000 false]).file =
        some [⟨1, 0, true, [1]⟩, ⟨1, 32767, false, [2]⟩] ∧
      some [⟨1, 0, true, [1]⟩, ⟨1, 32767, false, [2]⟩] ≠
        some ([Frame.video [1] 0 true, .video [2] 40000 false].map Frame.block) := by
  have hvalid : ∀ f ∈ [Frame.video [1] 0 true, .video [2] 40000 false], f.Valid := by decide
  have hkey : ∀ t, (none : Option UInt64) = some t → t.toNat < 2 ^ 63 := by
    intro t ht
    cases ht
  rw [forall_mem_cons, forall_mem_singleton] at hvalid
  refine ⟨?_, by decide⟩
  refine (parse_frameBytes hkey hvalid.1 _).trans ?_
  decide

end LingVoice.LmRecorder.Webm

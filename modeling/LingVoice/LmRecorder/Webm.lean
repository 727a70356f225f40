import LingVoice.Lib.Ebml

/-!
# Webm — the WebM recorder (`lm-recorder/src/lib.rs`, `encode_ebml_*` and `WebmRecorder`)

A frame is written as a SimpleBlock, whose time is relative to the cluster it stands in.  A keyframe with a new time
opens a cluster; audio frames count as keyframes.  The relative time is clamped to 16 bits, whatever the distance to
the last keyframe is.

The file begins after the Tracks element here; the headers are written once and say nothing about the frames.
-/

namespace LingVoice.LmRecorder.Webm

open Lib (toBe ofBe ofBe_toBe_of_lt)
open Lib.Ebml List Nat

/-! ## Ids, sizes and elements -/

def ebmlIdCluster : UInt32 := 0x1F43B675

def ebmlIdTimecode : UInt32 := 0xE7

def ebmlIdSimpleBlock : UInt32 := 0xA3

def encodeEbmlId (id : UInt32) : Bytes :=
  if id ≤ 0xFF then [id.toUInt8]
  else if id ≤ 0xFFFF then [(id >>> 8).toUInt8, id.toUInt8]
  else if id ≤ 0xFFFFFF then [(id >>> 16).toUInt8, (id >>> 8).toUInt8, id.toUInt8]
  else [(id >>> 24).toUInt8, (id >>> 16).toUInt8, (id >>> 8).toUInt8, id.toUInt8]

def encodeEbmlSize (size : UInt64) : Bytes :=
  if size < ((1 : UInt64) <<< 7) - 1 then [0x80 ||| size.toUInt8]
  else if size < ((1 : UInt64) <<< 14) - 1 then [(0x40 : UInt8) ||| (size >>> 8).toUInt8, (size &&& 0xFF).toUInt8]
  else if size < ((1 : UInt64) <<< 21) - 1 then
    [(0x20 : UInt8) ||| (size >>> 16).toUInt8, ((size >>> 8) &&& 0xFF).toUInt8, (size &&& 0xFF).toUInt8]
  else if size < ((1 : UInt64) <<< 28) - 1 then
    [(0x10 : UInt8) ||| (size >>> 24).toUInt8, ((size >>> 16) &&& 0xFF).toUInt8, ((size >>> 8) &&& 0xFF).toUInt8,
      (size &&& 0xFF).toUInt8]
  else
    [0x01, ((size >>> 48) &&& 0xFF).toUInt8, ((size >>> 40) &&& 0xFF).toUInt8, ((size >>> 32) &&& 0xFF).toUInt8,
      ((size >>> 24) &&& 0xFF).toUInt8, ((size >>> 16) &&& 0xFF).toUInt8, ((size >>> 8) &&& 0xFF).toUInt8,
      (size &&& 0xFF).toUInt8]

def encodeEbmlElement (id : UInt32) (data : Bytes) : Bytes :=
  encodeEbmlId id ++ encodeEbmlSize (UInt64.ofNat data.length) ++ data

theorem toNat_shiftRight_eight (v : UInt64) : (v >>> 8).toNat = v.toNat / 256 := by
  simp [shiftRight_eq_div_pow]

/-- The loop of `encode_ebml_uint`: `bytes` are the low bytes that were split off. -/
def uintBytes (v : UInt64) (bytes : Bytes) : Bytes :=
  if v = 0 then bytes else uintBytes (v >>> 8) ((v &&& 0xFF).toUInt8 :: bytes)
termination_by v.toNat
decreasing_by
  have hpos : v.toNat ≠ 0 := by
    intro hzero
    exact absurd (UInt64.toNat_inj.1 hzero) ‹v ≠ 0›
  rw [toNat_shiftRight_eight]
  omega

def encodeEbmlUint (id : UInt32) (value : UInt64) : Bytes :=
  let bytes := if value = 0 then [0] else uintBytes value []
  encodeEbmlId id ++ encodeEbmlSize (UInt64.ofNat bytes.length) ++ bytes

/-! ## The recorder -/

structure WebmRecorder where
  file : Bytes
  videoTrack : UInt8
  audioTrack : Option UInt8
  clusterTimestamp : UInt64
  deriving DecidableEq, Repr

inductive Frame where
  | video (data : Bytes) (timestamp : UInt64) (isKeyframe : Bool)
  | audio (data : Bytes) (timestamp : UInt64)
  deriving DecidableEq, Repr

def clampI64 (x low high : Int64) : Int64 :=
  if x < low then low else if high < x then high else x

namespace WebmRecorder

def create (hasAudio : Bool) : WebmRecorder where
  file := []
  videoTrack := 1
  audioTrack := if hasAudio then some 2 else none
  clusterTimestamp := 0xFFFFFFFFFFFFFFFF

def writeAll (self : WebmRecorder) (bytes : Bytes) : WebmRecorder :=
  { self with file := self.file ++ bytes }

def simpleBlock (track : UInt8) (relTc : Int16) (isKeyframe : Bool) (data : Bytes) : Bytes :=
  [0x80 ||| (track &&& 0x7F)] ++ toBe 2 relTc.toUInt16.toNat ++ [if isKeyframe then 0x80 else 0x00] ++ data

def writeSimpleBlock (self : WebmRecorder) (track : UInt8) (data : Bytes) (timestamp : UInt64)
    (isKeyframe : Bool) : WebmRecorder :=
  let self :=
    if isKeyframe && timestamp != self.clusterTimestamp then
      let self := { self with clusterTimestamp := timestamp }
      let self := self.writeAll (encodeEbmlId ebmlIdCluster)
      -- unknown size
      let self := self.writeAll [0x01, 0xFF, 0xFF, 0xFF, 0xFF, 0xFF, 0xFF, 0xFF]
      self.writeAll (encodeEbmlUint ebmlIdTimecode timestamp)
    else self
  let relTc : Int64 := timestamp.toInt64 - self.clusterTimestamp.toInt64
  let relTcI16 : Int16 := (clampI64 relTc (-32768) 32767).toInt16
  self.writeAll (encodeEbmlElement ebmlIdSimpleBlock (simpleBlock track relTcI16 isKeyframe data))

def writeVideoFrame (self : WebmRecorder) (data : Bytes) (timestamp : UInt64) (isKeyframe : Bool) : WebmRecorder :=
  self.writeSimpleBlock self.videoTrack data timestamp isKeyframe

/-- Without an audio track the frame is dropped, and the call succeeds. -/
def writeAudioFrame (self : WebmRecorder) (data : Bytes) (timestamp : UInt64) : WebmRecorder :=
  match self.audioTrack with
  | some audioTrack => self.writeSimpleBlock audioTrack data timestamp true
  | none => self

def write (self : WebmRecorder) : Frame → WebmRecorder
  | .video data timestamp isKeyframe => self.writeVideoFrame data timestamp isKeyframe
  | .audio data timestamp => self.writeAudioFrame data timestamp

def writeFrames (self : WebmRecorder) (frames : List Frame) : WebmRecorder :=
  frames.foldl write self

end WebmRecorder

/-! ## A reader -/

structure Block where
  track : Nat
  /-- The time of the cluster plus that of the block. -/
  time : Int
  keyframe : Bool
  data : Bytes
  deriving DecidableEq, Repr

/-- Where a reader is: before the first cluster, in a cluster whose timecode was not read yet, or behind a timecode. -/
inductive Position where
  | outside
  | opened
  | timed (timecode : Nat)
  deriving DecidableEq, Repr

/-- A SimpleBlock without lacing. -/
def readSimpleBlock (timecode : Nat) (body : Bytes) : Option Block :=
  match readVint body with
  | some (track, high :: low :: flags :: data) =>
    if flags &&& 0x06 = 0 then
      some
        { track := track.value
          time := timecode + (UInt16.ofNat (ofBe [high, low])).toInt16.toInt
          keyframe := flags &&& 0x80 != 0
          data := data }
    else none
  | _ => none

/-- A cluster of unknown size is ended by the next one; elements other than timecodes and SimpleBlocks are skipped. -/
def readStep (position : Position) (e : Element) : Option (Position × List Block) :=
  if e.id = ebmlIdCluster.toNat then
    if e.body = none then some (.opened, []) else none
  else
    match e.body with
    | none => none
    | some body =>
      if e.id = ebmlIdTimecode.toNat then
        if position = .outside then none else some (.timed (ofBe body), [])
      else if e.id = ebmlIdSimpleBlock.toNat then
        match position with
        | .timed timecode => (readSimpleBlock timecode body).map fun block => (position, [block])
        | _ => none
      else some (position, [])

def readBlocks (data : Bytes) : Option (List Block) :=
  parse readStep .outside data

/-! ## Elements are read back -/

/-- The id is written as the variable-length number that it is. -/
def ValidId (id : UInt32) : Prop :=
  ∃ w < 4, ∃ value < 2 ^ (7 * (w + 1)),
    encodeEbmlId id = vintBytes (w + 1) value ∧ 2 ^ (7 * (w + 1)) + value = id.toNat

theorem validId_cluster : ValidId ebmlIdCluster :=
  ⟨3, by decide, 0xF43B675, by decide, by decide, by decide⟩

theorem validId_timecode : ValidId ebmlIdTimecode :=
  ⟨0, by decide, 0x67, by decide, by decide, by decide⟩

theorem validId_simpleBlock : ValidId ebmlIdSimpleBlock :=
  ⟨0, by decide, 0x23, by decide, by decide, by decide⟩

variable {b : UInt8} {n : Nat} {id : UInt32} {data : Bytes}

theorem byte_eq_ofNat (hn : b.toNat = n % 256) : b = UInt8.ofNat n := by
  apply UInt8.toNat_inj.1
  rw [hn, UInt8.toNat_ofNat']

/-- The bytes that the code takes out of a word by a shift. -/
theorem toNat_shiftRight_toUInt8 {x k : UInt64} (hk : k.toNat < 64) :
    (x >>> k).toUInt8.toNat = x.toNat / 2 ^ k.toNat % 256 := by
  rw [UInt64.toNat_toUInt8, UInt64.toNat_shiftRight, mod_eq_of_lt hk, shiftRight_eq_div_pow]

@[simp] theorem toUInt8_and_0xFF (x : UInt64) : (x &&& 0xFF).toUInt8 = x.toUInt8 := by
  apply UInt8.toNat_inj.1
  have hmask : x.toNat &&& (0xFF : UInt64).toNat = x.toNat % 2 ^ 8 := and_two_pow_sub_one_eq_mod _ 8
  rw [UInt64.toNat_toUInt8, UInt64.toNat_toUInt8, UInt64.toNat_and, hmask, mod_mod]

theorem bytes_uint56 (x : UInt64) :
    [(x >>> 48).toUInt8, (x >>> 40).toUInt8, (x >>> 32).toUInt8, (x >>> 24).toUInt8, (x >>> 16).toUInt8,
      (x >>> 8).toUInt8, x.toUInt8] = toBe 7 x.toNat := by
  simp only [toBe, nil_append, cons_append, Nat.div_div_eq_div_mul, Nat.reduceMul, cons.injEq, and_true]
  refine ⟨?_, ?_, ?_, ?_, ?_, ?_, byte_eq_ofNat (UInt64.toNat_toUInt8 x)⟩
  all_goals exact byte_eq_ofNat (toNat_shiftRight_toUInt8 (by decide))

theorem marker_or_eq {marker : UInt8} {m : Nat} (hmarker : marker.toNat = 2 ^ m) (hb : b.toNat < 2 ^ m)
    (hn : 2 ^ m + b.toNat = n % 256) : marker ||| b = UInt8.ofNat n := by
  have hor := two_pow_add_eq_or_of_lt hb 1
  rw [mul_one] at hor
  apply byte_eq_ofNat
  rw [UInt8.toNat_or, hmarker, ← hor]
  exact hn

/-- What the sizes are written as.  From `2 ^ 56 - 1` on the size does not fit into the 56 bits of the longest form. -/
theorem exists_encodeEbmlSize (x : UInt64) :
    ∃ w < 8, ∃ value < 2 ^ (7 * (w + 1)), encodeEbmlSize x = vintBytes (w + 1) value ∧
      (x.toNat + 1 < 2 ^ 56 → value = x.toNat ∧ value + 1 ≠ 2 ^ (7 * (w + 1))) ∧
      (2 ^ 56 ≤ x.toNat + 1 → w = 7 ∧ value = x.toNat % 2 ^ 56) := by
  have h0 : x.toUInt8.toNat = x.toNat % 256 := UInt64.toNat_toUInt8 x
  have h8 : (x >>> 8).toUInt8.toNat = x.toNat / 2 ^ 8 % 256 := toNat_shiftRight_toUInt8 (by decide)
  have h16 : (x >>> 16).toUInt8.toNat = x.toNat / 2 ^ 16 % 256 := toNat_shiftRight_toUInt8 (by decide)
  have h24 : (x >>> 24).toUInt8.toNat = x.toNat / 2 ^ 24 % 256 := toNat_shiftRight_toUInt8 (by decide)
  unfold encodeEbmlSize
  simp only [toUInt8_and_0xFF]
  -- one case for each length; the all-ones value is left to the next one
  split
  · rename_i h
    have hx : x.toNat < 2 ^ 7 - 1 := h
    refine ⟨0, by decide, x.toNat, by omega, ?_, by omega, by omega⟩
    simp only [vintBytes, toBe, nil_append, cons.injEq, and_true]
    exact marker_or_eq (m := 7) rfl (by omega) (by omega)
  split
  · rename_i h
    have hx : x.toNat < 2 ^ 14 - 1 := h
    refine ⟨1, by decide, x.toNat, by omega, ?_, by omega, by omega⟩
    simp only [vintBytes, toBe, nil_append, cons_append, cons.injEq, and_true]
    exact ⟨marker_or_eq (m := 6) rfl (by omega) (by omega), byte_eq_ofNat (by omega)⟩
  split
  · rename_i h
    have hx : x.toNat < 2 ^ 21 - 1 := h
    refine ⟨2, by decide, x.toNat, by omega, ?_, by omega, by omega⟩
    simp only [vintBytes, toBe, nil_append, cons_append, cons.injEq, and_true]
    exact ⟨marker_or_eq (m := 5) rfl (by omega) (by omega), byte_eq_ofNat (by omega), byte_eq_ofNat (by omega)⟩
  split
  · rename_i h
    have hx : x.toNat < 2 ^ 28 - 1 := h
    refine ⟨3, by decide, x.toNat, by omega, ?_, by omega, by omega⟩
    simp only [vintBytes, toBe, nil_append, cons_append, cons.injEq, and_true]
    exact ⟨marker_or_eq (m := 4) rfl (by omega) (by omega), byte_eq_ofNat (by omega), byte_eq_ofNat (by omega),
      byte_eq_ofNat (by omega)⟩
  · -- there is no form of five, six or seven bytes; eight of them hold what is left of the size modulo `2 ^ 56`
    rename_i h
    refine ⟨7, by decide, x.toNat % 2 ^ 56, by omega, ?_, by omega, by omega⟩
    have hlow : toBe 7 (2 ^ 56 + x.toNat % 2 ^ 56) = toBe 7 x.toNat := by
      rw [Lib.toBe_eq_iff]
      omega
    have hfirst : (2 ^ 56 + x.toNat % 2 ^ 56) / 256 ^ 7 = 1 := by omega
    have hbytes : vintBytes (7 + 1) (x.toNat % 2 ^ 56) = 0x01 :: toBe 7 x.toNat := by
      rw [vintBytes, Lib.toBe_succ_eq_cons, hlow, hfirst]
      rfl
    rw [hbytes, ← bytes_uint56]

/-- The loop stops once the word is used up, after at most as many bytes as it has. -/
theorem exists_uintBytes {j : Nat} {v : UInt64} (hv : v.toNat < 256 ^ j) (bytes : Bytes) :
    ∃ k ≤ j, v.toNat < 256 ^ k ∧ uintBytes v bytes = toBe k v.toNat ++ bytes := by
  induction j generalizing v bytes with
  | zero =>
    obtain rfl : v = 0 := UInt64.toNat_inj.1 (lt_one_iff.1 hv)
    refine ⟨0, le_refl _, by decide, ?_⟩
    rw [uintBytes, if_pos rfl]
    rfl
  | succ j ih =>
    by_cases hzero : v = 0
    · subst hzero
      refine ⟨0, zero_le _, by decide, ?_⟩
      rw [uintBytes, if_pos rfl]
      rfl
    · have hshift := toNat_shiftRight_eight v
      have hlt : (v >>> 8).toNat < 256 ^ j := by
        rw [hshift]
        exact Nat.div_lt_of_lt_mul (by rwa [Nat.mul_comm])
      obtain ⟨k, hk, hfits, hbytes⟩ := ih hlt (v.toUInt8 :: bytes)
      rw [hshift] at hfits hbytes
      refine ⟨k + 1, succ_le_succ hk, ?_, ?_⟩
      · rw [pow_succ]
        omega
      · have hlow : v.toUInt8 = UInt8.ofNat v.toNat := byte_eq_ofNat (UInt64.toNat_toUInt8 v)
        rw [uintBytes, if_neg hzero, toUInt8_and_0xFF, hbytes, toBe, hlow]
        simp

/-- An element whose size fits is read back.  A size that does not fit is read as unknown, or as one that is too small
by `2 ^ 56`. -/
theorem exists_readElement (hid : ValidId id) (hlen : data.length < 2 ^ 56 + 4) (rest : Bytes) :
    ∃ body rest', readElement (encodeEbmlElement id data ++ rest) = some (⟨id.toNat, body⟩, rest') ∧
      (data.length + 1 < 2 ^ 56 → body = some data ∧ rest' = rest) ∧
      (2 ^ 56 ≤ data.length + 1 → ∀ bytes, body = some bytes → bytes.length < 4) := by
  obtain ⟨wi, hwi, idValue, hidValue, hidBytes, hidNat⟩ := hid
  obtain ⟨ws, hws, size, hsize, hsizeBytes, hfits, hlong⟩ := exists_encodeEbmlSize (UInt64.ofNat data.length)
  have hword : data.length < 2 ^ 64 := by omega
  rw [UInt64.toNat_ofNat_of_lt' hword] at hfits hlong
  rw [encodeEbmlElement, hidBytes, hsizeBytes, append_assoc, append_assoc,
    readElement_append hwi hidValue hws hsize, hidNat]
  by_cases hlow : 2 ^ 56 ≤ data.length + 1
  · obtain ⟨rfl, rfl⟩ := hlong hlow
    split
    · exact ⟨none, _, rfl, by omega, by simp⟩
    · have hshort : ¬ (data ++ rest).length < data.length % 2 ^ 56 := by
        rw [length_append]
        omega
      rw [if_neg hshort]
      refine ⟨_, _, rfl, by omega, ?_⟩
      rintro - bytes ⟨⟩
      rw [length_take]
      omega
  · obtain ⟨rfl, hones⟩ := hfits (Nat.lt_of_not_le hlow)
    rw [if_neg hones, if_neg (by simp), take_left, drop_left]
    exact ⟨_, _, rfl, fun _ => ⟨rfl, rfl⟩, fun h => absurd h hlow⟩

theorem readElement_encodeEbmlElement (hid : ValidId id) (hlen : data.length + 1 < 2 ^ 56) (rest : Bytes) :
    readElement (encodeEbmlElement id data ++ rest) = some (⟨id.toNat, some data⟩, rest) := by
  have hlt : data.length < 2 ^ 56 + 4 := by omega
  obtain ⟨_, _, hread, hfits, -⟩ := exists_readElement hid hlt rest
  obtain ⟨rfl, rfl⟩ := hfits hlen
  exact hread

theorem exists_readElement_encodeEbmlUint (hid : ValidId id) (value : UInt64) (rest : Bytes) :
    ∃ bytes, ofBe bytes = value.toNat ∧
      readElement (encodeEbmlUint id value ++ rest) = some (⟨id.toNat, some bytes⟩, rest) := by
  by_cases hzero : value = 0
  · subst hzero
    exact ⟨[0], rfl, readElement_encodeEbmlElement hid (by decide) rest⟩
  · have hword : value.toNat < 256 ^ 8 := value.toNat_lt
    obtain ⟨k, hk, hfits, hbytes⟩ := exists_uintBytes hword []
    have helement : encodeEbmlUint id value = encodeEbmlElement id (toBe k value.toNat) := by
      simp only [encodeEbmlUint, if_neg hzero, hbytes, append_nil, encodeEbmlElement]
    refine ⟨toBe k value.toNat, ofBe_toBe_of_lt hfits, ?_⟩
    rw [helement, readElement_encodeEbmlElement hid]
    rw [Lib.length_toBe]
    omega

end LingVoice.LmRecorder.Webm

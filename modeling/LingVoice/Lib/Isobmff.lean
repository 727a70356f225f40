import LingVoice.Lib.Box

/-!
# Isobmff — reading the samples of an ISO base media file (ISO/IEC 14496-12)

The samples of a track are found through its sample table: `stsz` has their sizes, `stco` the offsets of the chunks in
the file and `stsc` how many samples a chunk holds; `stss` lists the samples that can be decoded on their own.  All
four are tables of 32-bit words behind a header, whose length is a parameter of the reader (`header` bytes: four in a
file that follows the standard).
-/

namespace LingVoice.Lib.Isobmff

open List Box

/-! ## Types of boxes -/

def ftyp : Bytes := [0x66, 0x74, 0x79, 0x70]
def moov : Bytes := [0x6d, 0x6f, 0x6f, 0x76]
def mdat : Bytes := [0x6d, 0x64, 0x61, 0x74]
def mvhd : Bytes := [0x6d, 0x76, 0x68, 0x64]
def trak : Bytes := [0x74, 0x72, 0x61, 0x6b]
def tkhd : Bytes := [0x74, 0x6b, 0x68, 0x64]
def mdia : Bytes := [0x6d, 0x64, 0x69, 0x61]
def mdhd : Bytes := [0x6d, 0x64, 0x68, 0x64]
def hdlr : Bytes := [0x68, 0x64, 0x6c, 0x72]
def minf : Bytes := [0x6d, 0x69, 0x6e, 0x66]
def vmhd : Bytes := [0x76, 0x6d, 0x68, 0x64]
def dinf : Bytes := [0x64, 0x69, 0x6e, 0x66]
def dref : Bytes := [0x64, 0x72, 0x65, 0x66]
def stbl : Bytes := [0x73, 0x74, 0x62, 0x6c]
def stsd : Bytes := [0x73, 0x74, 0x73, 0x64]
def stts : Bytes := [0x73, 0x74, 0x74, 0x73]
def stsc : Bytes := [0x73, 0x74, 0x73, 0x63]
def stsz : Bytes := [0x73, 0x74, 0x73, 0x7a]
def stco : Bytes := [0x73, 0x74, 0x63, 0x6f]
def stss : Bytes := [0x73, 0x74, 0x73, 0x73]
def avc1 : Bytes := [0x61, 0x76, 0x63, 0x31]
def avcC : Bytes := [0x61, 0x76, 0x63, 0x43]

/-! ## Tables of words -/

def readWord (data : Bytes) : Option (Nat × Bytes) :=
  if data.length < 4 then none else some (beAt 4 data 0, data.drop 4)

def words (data : Bytes) : Option (List Nat) :=
  records readWord data

def counted : List Nat → Option (List Nat)
  | [] => none
  | count :: rest => if rest.length = count then some rest else none

/-- `stsz`: one size for all samples, or 0 and the size of each. -/
def sampleSizes : List Nat → Option (List Nat)
  | 0 :: table => counted table
  | [size, count] => some (List.replicate count size)
  | _ => none

/-- The entries of `stsc`: first chunk, samples per chunk, description. -/
def chunkRuns : List Nat → Option (List (Nat × Nat))
  | [] => some []
  | firstChunk :: samplesPerChunk :: _ :: rest => (chunkRuns rest).map ((firstChunk, samplesPerChunk) :: ·)
  | _ => none

def sampleToChunk : List Nat → Option (List (Nat × Nat))
  | [] => none
  | count :: rest => if rest.length = 3 * count then chunkRuns rest else none

/-! ## Where the samples are -/

/-- An entry holds up to the first chunk of the next one. -/
def samplesPerChunk (runs : List (Nat × Nat)) (chunk : Nat) : Nat :=
  match (runs.filter fun run => run.1 ≤ chunk).getLast? with
  | some run => run.2
  | none => 0

def place : Nat → List Nat → List (Nat × Nat)
  | _, [] => []
  | offset, size :: sizes => (offset, size) :: place (offset + size) sizes

def locate (runs : List (Nat × Nat)) : Nat → List Nat → List Nat → Option (List (Nat × Nat))
  | _, [], sizes => if sizes = [] then some [] else none
  | chunk, offset :: offsets, sizes =>
    let n := samplesPerChunk runs chunk
    (locate runs (chunk + 1) offsets (sizes.drop n)).map (place offset (sizes.take n) ++ ·)

def readAt (file : Bytes) (span : Nat × Nat) : Option Bytes :=
  if span.1 + span.2 ≤ file.length then some ((file.drop span.1).take span.2) else none

/-! ## The reader -/

/-- The payload of the first box of a type, in data that boxes fill exactly. -/
def child (boxType data : Bytes) : Option Bytes :=
  (Box.boxes data).bind fun bs => (bs.find? fun b => b.boxType = boxType).map Box.payload

structure Track where
  samples : List Bytes
  /-- The numbers of the samples that can be decoded on their own, from 1 on. -/
  sync : List Nat
  deriving DecidableEq, Repr

def tableWords (header : Nat) (boxType table : Bytes) : Option (List Nat) :=
  (child boxType table).bind fun payload => words (payload.drop header)

/-- Without `stss` every sample can be decoded on its own. -/
def syncSamples (header : Nat) (table : Bytes) (count : Nat) : Option (List Nat) :=
  match child stss table with
  | none => some (List.range' 1 count)
  | some payload => (words (payload.drop header)).bind counted

/-- The track of a file of `ftyp`, `moov` and `mdat`, with every box on the way filled exactly. -/
def readTrack (header : Nat) (file : Bytes) : Option Track := do
  let top ← Box.boxes file
  guard (top.map Box.boxType = [ftyp, moov, mdat])
  let movie ← child moov file
  let track ← child trak movie
  let media ← child mdia track
  let info ← child minf media
  let _ ← (child dinf info).bind Box.boxes
  let table ← child stbl info
  let sizes ← (tableWords header stsz table).bind sampleSizes
  let runs ← (tableWords header stsc table).bind sampleToChunk
  let offsets ← (tableWords header stco table).bind counted
  let places ← locate runs 1 offsets sizes
  let samples ← places.mapM (readAt file)
  let sync ← syncSamples header table sizes.length
  return ⟨samples, sync⟩

/-! ## One chunk -/

/-- The first sample of the only chunk begins where the chunk does, whatever the other tables say. -/
theorem exists_of_locate_singleton {file : Bytes} {runs : List (Nat × Nat)} {chunk offset : Nat}
    {sizes : List Nat} {places : List (Nat × Nat)} (hplaces : locate runs chunk [offset] sizes = some places)
    {first : Bytes} {more : List Bytes} (hread : places.mapM (readAt file) = some (first :: more)) :
    ∃ size, first = (file.drop offset).take size := by
  obtain ⟨rest, hrest, rfl⟩ := Option.map_eq_some_iff.1 hplaces
  -- behind the only chunk there are no samples
  have hnil : rest = [] := by
    simp only [locate] at hrest
    split at hrest
    · cases hrest
      rfl
    · cases hrest
  subst hnil
  rw [append_nil] at hread
  cases hsizes : sizes.take (samplesPerChunk runs chunk) with
  | nil =>
    rw [hsizes] at hread
    simp [place] at hread
  | cons size sizes =>
    rw [hsizes, place, mapM_cons] at hread
    simp only [Option.bind_eq_bind, Option.bind_eq_some_iff] at hread
    obtain ⟨sample, hsample, samples, -, hcons⟩ := hread
    cases hcons
    unfold readAt at hsample
    split at hsample
    · cases hsample
      exact ⟨size, rfl⟩
    · cases hsample

/-! ## Boxes that fit their size -/

/-- A payload behind a header that counts it in 32 bits. -/
def box (boxType payload : Bytes) : Bytes :=
  be32 (UInt32.ofNat payload.length + 8) ++ boxType ++ payload

variable {boxType payload data : Bytes} {bs : List Box} {b : Box}

theorem length_box (htype : boxType.length = 4) (payload : Bytes) :
    (box boxType payload).length = payload.length + 8 := by
  simp [box, htype]
  omega

theorem boxes_box (htype : boxType.length = 4) (hsize : payload.length + 8 < 2 ^ 32) (rest : Bytes) :
    boxes (box boxType payload ++ rest) = (boxes rest).map (⟨boxType, payload⟩ :: ·) := by
  have hword : (UInt32.ofNat payload.length + 8).toNat = 8 + payload.length := by
    rw [UInt32.toNat_add, UInt32.toNat_ofNat']
    have height : (8 : UInt32).toNat = 8 := rfl
    omega
  rw [box, append_assoc]
  exact records_cons length_lt_of_readBox (readBox_append hword htype rest)

def encode (bs : List Box) : Bytes :=
  bs.flatMap fun b => box b.boxType b.payload

theorem length_payload_le (htypes : ∀ b ∈ bs, b.boxType.length = 4) (hb : b ∈ bs) :
    b.payload.length + 8 ≤ (encode bs).length := by
  rw [← length_box (htypes b hb) b.payload, encode, flatMap_def]
  have hmem : box b.boxType b.payload ∈ bs.map fun b => box b.boxType b.payload := mem_map.2 ⟨b, hb, rfl⟩
  exact (sublist_flatten_of_mem hmem).length_le

theorem boxes_encode (htypes : ∀ b ∈ bs, b.boxType.length = 4) (hsize : (encode bs).length + 8 < 2 ^ 32) :
    boxes (encode bs) = some bs := by
  induction bs with
  | nil => rfl
  | cons b bs ih =>
    rw [forall_mem_cons] at htypes
    have hcons : encode (b :: bs) = box b.boxType b.payload ++ encode bs := flatMap_cons
    rw [hcons, length_append, length_box htypes.1] at hsize
    rw [hcons, boxes_box htypes.1 (by omega), ih htypes.2 (by omega)]
    rfl

/-- The payload that is looked for, in boxes that fit into another one. -/
theorem child_encode (boxType : Bytes) (hdata : data = encode bs)
    (htypes : ∀ b ∈ bs, b.boxType.length = 4) (hsize : data.length + 8 < 2 ^ 32)
    (hfind : bs.find? (fun b => b.boxType = boxType) = some ⟨boxType, payload⟩) :
    child boxType data = some payload ∧ payload.length + 8 < 2 ^ 32 := by
  subst hdata
  have hle : payload.length + 8 ≤ (encode bs).length := length_payload_le htypes (mem_of_find?_eq_some hfind)
  refine ⟨?_, by omega⟩
  rw [child, boxes_encode htypes hsize, Option.bind_some, hfind]
  rfl

theorem length_lt_of_boxes_singleton (h : boxes data = some [b]) : data.length < 2 ^ 32 := by
  obtain ⟨rest, hread, hrest⟩ := exists_of_boxes_cons h
  obtain ⟨⟨-, hle⟩, -, -, hdrop⟩ := readBox_eq_some.1 hread
  have hnil : rest = [] := eq_nil_of_records hrest
  have hlen := congrArg List.length hdrop
  rw [hnil, length_drop, length_nil] at hlen
  have hfield : beAt 4 data 0 < 256 ^ ((data.drop 0).take 4).length := ofBe_lt _
  have hwidth : 256 ^ ((data.drop 0).take 4).length ≤ 256 ^ 4 :=
    Nat.pow_le_pow_right (by decide) (length_take_le 4 _)
  omega

/-- If a box with one more behind it fills the data, its size fits its field: else what is behind it would be too
long. -/
theorem size_lt_of_boxes_pair {rest : Bytes} (htype : boxType.length = 4) {c : Box}
    (h : boxes (box boxType payload ++ rest) = some [b, c]) : payload.length + 8 < 2 ^ 32 := by
  obtain ⟨behind, hread, hbehind⟩ := exists_of_boxes_cons h
  obtain ⟨-, -, -, hdrop⟩ := readBox_eq_some.1 hread
  have hsize : beAt 4 (box boxType payload ++ rest) 0 = (payload.length + 8) % 2 ^ 32 := by
    rw [box, be32, append_assoc, append_assoc, beAt_front, UInt32.toNat_add, UInt32.toNat_ofNat']
    have height : (8 : UInt32).toNat = 8 := rfl
    omega
  have hlt := length_lt_of_boxes_singleton hbehind
  rw [hdrop, length_drop, hsize, length_append, length_box htype] at hlt
  omega

end LingVoice.Lib.Isobmff

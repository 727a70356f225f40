import LingVoice.Lib.Ogg

/-!
# Opus — recordings in Ogg (`lm-recorder/src/lib.rs`, `OpusRecorder`)

A recording is a page with the Opus header, the pages of the packets and an empty page that ends the stream.  Packets
are written one to a page or several to a page; a packet that does not fit is meant to go on over several pages.

What is written is kept as a list of pages, `pageBytes` is what stands in the file.  The serial number is random in
the source and an argument here.
-/

namespace LingVoice.LmRecorder

open Lib Lib.Ogg List

/-! ## Checksums -/

/-- An entry of `ogg_crc32_table`. -/
def oggCrc32Table (i : UInt32) : UInt32 :=
  (List.range 8).foldl (fun r _ => if r &&& 0x80000000 ≠ 0 then (r <<< 1) ^^^ 0x04C11DB7 else r <<< 1) (i <<< 24)

def oggCrc32 (data : Bytes) : UInt32 :=
  data.foldl (fun crc byte => (crc <<< 8) ^^^ oggCrc32Table (((crc >>> 24) ^^^ byte.toUInt32) &&& 0xFF)) 0

/-- The table gives the checksum of the polynomial. -/
theorem oggCrc32_eq (data : Bytes) : oggCrc32 data = Crc32.ogg data := by
  have hstep (crc : UInt32) (byte : UInt8) :
      (crc <<< 8) ^^^ oggCrc32Table (((crc >>> 24) ^^^ byte.toUInt32) &&& 0xFF) = Crc32.crcByte crc byte :=
    (Crc32.crcByte_eq_table crc byte).symm
  unfold oggCrc32 Crc32.ogg
  simp only [hstep]

/-! ## Pages -/

/-- A page as it is written: the checksum is put in after it has been computed with zero in its place. -/
def pageBytes (page : Page) : Bytes :=
  let bytes :=
    [0x4F, 0x67, 0x67, 0x53] ++ [0] ++ [page.headerType] ++ toLe 8 page.granule.toUInt64.toNat ++
      toLe 4 page.serial.toNat ++ toLe 4 page.sequence.toNat ++ toLe 4 0 ++ [UInt8.ofNat page.table.length] ++
      page.table ++ page.data
  bytes.take 22 ++ toLe 4 (oggCrc32 bytes).toNat ++ bytes.drop 26

def segmentSizes (remaining : Nat) : Bytes :=
  if 255 ≤ remaining then 255 :: segmentSizes (remaining - 255) else [UInt8.ofNat remaining]

def buildSegmentTable (segments : List Bytes) : Bytes :=
  segments.flatMap fun seg => segmentSizes seg.length

def buildOggPageMulti (serial pageSeq : UInt32) (granule : Int64) (headerType : UInt8) (segments : List Bytes) :
    Page :=
  { headerType := headerType
    granule := granule
    serial := serial
    sequence := pageSeq
    table := buildSegmentTable segments
    data := segments.flatten }

/-- The loop of `build_ogg_pages_for_frame`; `frame` is what is left of it. -/
def framePages (serial : UInt32) (granule : Int64) (headerType : UInt8) (maxPageSize : Nat) :
    Nat → UInt32 → Bool → Bytes → List Page
  | 0, _, _, _ => []
  | fuel + 1, pageSeq, firstPage, frame =>
    if frame = [] then
      []
    else
      let remaining := frame.length
      let chunkSize := min remaining maxPageSize
      -- a table has at most 255 entries
      let chunkSize := if 255 < (segmentSizes chunkSize).length then min ((255 - 1) * 255) remaining else chunkSize
      { headerType := if firstPage then headerType else 0 ||| 0x01
        -- only the last page has the granule position
        granule := if remaining ≤ chunkSize then granule else -1
        serial := serial
        sequence := pageSeq
        table := segmentSizes chunkSize
        data := frame.take chunkSize } ::
        framePages serial granule headerType maxPageSize fuel (pageSeq + 1) false (frame.drop chunkSize)

def buildOggPagesForFrame (serial pageSeqStart : UInt32) (granule : Int64) (headerType : UInt8) (frame : Bytes)
    (maxPageSize : Nat) : List Page :=
  let pages := framePages serial granule headerType maxPageSize frame.length pageSeqStart true frame
  if pages = [] then [buildOggPageMulti serial pageSeqStart granule headerType []] else pages

/-! ## The recorder -/

structure OpusRecorder where
  sampleRate : UInt32
  channels : UInt16
  serial : UInt32
  pageSeq : UInt32
  granule : Int64
  pages : List Page
  deriving DecidableEq, Repr

abbrev Packet := Bytes × UInt32

namespace OpusRecorder

def opusHead (sampleRate : UInt32) (channels : UInt16) : Bytes :=
  [0x4F, 0x70, 0x75, 0x73, 0x48, 0x65, 0x61, 0x64] ++ [1] ++ [channels.toUInt8] ++ toLe 2 0 ++ toLe 4 sampleRate.toNat ++
    toLe 2 0 ++ [0]

/-- Pages are written; the sequence number goes up by one, however many they are. -/
def write (r : OpusRecorder) (pages : List Page) : OpusRecorder :=
  { r with pages := r.pages ++ pages, pageSeq := r.pageSeq + 1 }

def create (serial sampleRate : UInt32) (channels : UInt16) : OpusRecorder :=
  let r : OpusRecorder :=
    { sampleRate := sampleRate, channels := channels, serial := serial, pageSeq := 0, granule := 0, pages := [] }
  r.write [buildOggPageMulti r.serial r.pageSeq 0 0x02 [opusHead sampleRate channels]]

def writeOpusPacket (r : OpusRecorder) (payload : Bytes) (samplesInPacket : UInt32) : OpusRecorder :=
  let r := { r with granule := r.granule + Int64.ofNat samplesInPacket.toNat }
  if 65025 < payload.length then
    r.write (buildOggPagesForFrame r.serial r.pageSeq r.granule 0 payload 65025)
  else
    r.write [buildOggPageMulti r.serial r.pageSeq r.granule 0 [payload]]

def writeOpusPackets (r : OpusRecorder) (packets : List Packet) : OpusRecorder :=
  if packets = [] then
    r
  else
    let totalSamples := packets.foldl (fun sum packet => sum + packet.2) 0
    let r := { r with granule := r.granule + Int64.ofNat totalSamples.toNat }
    let totalSize : Nat := (packets.map fun packet => packet.1.length).sum
    if 65025 < totalSize then
      packets.foldl
        (fun r packet =>
          -- taken back for every packet, not once
          let r := { r with granule := r.granule - Int64.ofNat totalSamples.toNat }
          r.writeOpusPacket packet.1 packet.2)
        r
    else
      r.write [buildOggPageMulti r.serial r.pageSeq r.granule 0 (packets.map Prod.fst)]

def finalize (r : OpusRecorder) : List Page :=
  r.pages ++ [buildOggPageMulti r.serial r.pageSeq r.granule 0x04 []]

inductive Call
  | writeOpusPacket (packet : Packet)
  | writeOpusPackets (packets : List Packet)

def call (r : OpusRecorder) : Call → OpusRecorder
  | .writeOpusPacket packet => r.writeOpusPacket packet.1 packet.2
  | .writeOpusPackets packets => r.writeOpusPackets packets

def calls (r : OpusRecorder) (cs : List Call) : OpusRecorder :=
  cs.foldl call r

def record (serial sampleRate : UInt32) (channels : UInt16) (cs : List Call) : List Page :=
  ((create serial sampleRate channels).calls cs).finalize

def file (serial sampleRate : UInt32) (channels : UInt16) (cs : List Call) : Bytes :=
  (record serial sampleRate channels cs).flatMap pageBytes

end OpusRecorder

/-! ## Pages as the format has them -/

theorem segmentSizes_eq_lacing (n : Nat) : segmentSizes n = lacing n := by
  induction n using Nat.strong_induction_on with
  | _ n ih =>
    rw [segmentSizes]
    split
    · obtain ⟨m, rfl⟩ : ∃ m, n = m + 255 := ⟨n - 255, by omega⟩
      rw [Nat.add_sub_cancel, ih m (by omega), lacing_add]
    · rw [lacing_of_lt (by omega)]

theorem pageBytes_eq (page : Page) : pageBytes page = page.bytes page.checksum := by
  let front := [0x4F, 0x67, 0x67, 0x53] ++ [0] ++ [page.headerType] ++ toLe 8 page.granule.toUInt64.toNat ++
    toLe 4 page.serial.toNat ++ toLe 4 page.sequence.toNat
  let back := [UInt8.ofNat page.table.length] ++ page.table ++ page.data
  have hfront : front.length = 22 := by simp [front]
  have htype : toLe 1 page.headerType.toNat = [page.headerType] := by
    change [UInt8.ofNat page.headerType.toNat] = _
    rw [UInt8.ofNat_toNat]
  have hbytes (checksum : UInt32) : page.bytes checksum = front ++ (toLe 4 checksum.toNat ++ back) := by
    rw [Page.bytes, htype]
    simp [front, back]
    rfl
  have hplaceholder : [0x4F, 0x67, 0x67, 0x53] ++ [0] ++ [page.headerType] ++ toLe 8 page.granule.toUInt64.toNat ++
      toLe 4 page.serial.toNat ++ toLe 4 page.sequence.toNat ++ toLe 4 0 ++ [UInt8.ofNat page.table.length] ++
      page.table ++ page.data = page.bytes 0 := by
    rw [hbytes 0]
    simp [front, back]
  have htake : (page.bytes 0).take 22 = front := by
    rw [hbytes 0, ← hfront, take_left]
  have hdrop : (page.bytes 0).drop 26 = back := by
    have hlength : (front ++ toLe 4 (0 : UInt32).toNat).length = 26 := by
      rw [length_append, hfront, length_toLe]
    rw [hbytes 0, ← append_assoc, ← hlength, drop_left]
  unfold pageBytes
  dsimp only
  rw [hplaceholder, oggCrc32_eq, htake, hdrop, hbytes page.checksum, append_assoc]
  rfl

end LingVoice.LmRecorder

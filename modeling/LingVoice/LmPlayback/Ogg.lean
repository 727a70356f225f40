import LingVoice.Lib.Field
import LingVoice.LmRecorder.OpusPages

/-!
# Ogg — playing an Ogg file (`lm-playback/src/lib.rs`, `play_ogg_native`)

The loop over the pages takes a page for a header as long as nothing has been played, and counts what has been played on
other pages only.  So every page is a header, and the decoder is given nothing (`playOggNative_eq`).

The model returns what is passed to the decoder.
-/

namespace LingVoice.LmPlayback

open Lib (byteAt)

/-- The frames that are passed to the decoder from one page: every segment that is not empty and no Opus header. -/
def segmentFrames (pageData : Bytes) : Nat → Bytes → List Bytes
  | _, [] => []
  | segOffset, segLen :: rest =>
    let opusFrame := (pageData.drop segOffset).take segLen.toNat
    let frames :=
      if segOffset + segLen.toNat ≤ pageData.length ∧ 0 < segLen then
        if 8 ≤ opusFrame.length ∧ opusFrame.take 8 = [0x4F, 0x70, 0x75, 0x73, 0x48, 0x65, 0x61, 0x64] then
          []
        else if 8 ≤ opusFrame.length ∧ opusFrame.take 8 = [0x4F, 0x70, 0x75, 0x73, 0x54, 0x61, 0x67, 0x73] then
          []
        else
          [opusFrame]
      else
        []
    frames ++ segmentFrames pageData (segOffset + segLen.toNat) rest

def playPages (data : Bytes) (offset elapsedMs : Nat) (passed : List Bytes) : List Bytes :=
  if _h : offset + 27 ≤ data.length then
    if (data.drop offset).take 4 ≠ [0x4F, 0x67, 0x67, 0x53] then
      passed
    else
      let headerType := byteAt data (offset + 5)
      let segments := (byteAt data (offset + 26)).toNat
      let pageHeaderSize := 27 + segments
      if data.length < offset + pageHeaderSize then
        passed
      else
        -- the data of the page are as long as the values of its table say
        let table := (data.drop (offset + 27)).take segments
        let pageDataSize : Nat := (table.map UInt8.toNat).sum
        let pageDataOffset := offset + pageHeaderSize
        if data.length < pageDataOffset + pageDataSize then
          passed
        else
          -- every page is taken for a header as long as no time has passed
          let isHeaderPage := headerType &&& 0x02 ≠ 0 ∨ elapsedMs = 0
          let pageData := (data.drop pageDataOffset).take pageDataSize
          if ¬ isHeaderPage then
            playPages data (pageDataOffset + pageDataSize) (elapsedMs + 20) (passed ++ segmentFrames pageData 0 table)
          else
            playPages data (pageDataOffset + pageDataSize) elapsedMs passed
  else
    passed
termination_by data.length - offset

def playOggNative (data : Bytes) : Except String (List Bytes) :=
  if data.length < 4 ∨ data.take 4 ≠ [0x4F, 0x67, 0x67, 0x53] then
    .error "not an OGG file"
  else
    .ok (playPages data 0 0 [])

/-- As long as nothing has been played, nothing is. -/
theorem playPages_zero (data : Bytes) (offset : Nat) (passed : List Bytes) :
    playPages data offset 0 passed = passed := by
  generalize hleft : data.length - offset = left
  induction left using Nat.strong_induction_on generalizing offset with
  | _ left ih =>
    rw [playPages]
    split
    · rename_i hroom
      split
      · rfl
      · dsimp only
        split
        · rfl
        · split
          · rfl
          · -- a page that is whole, and a header because nothing has been played
            rw [if_neg (fun hmedia => hmedia (Or.inr rfl))]
            refine ih _ ?_ _ rfl
            omega
    · rfl

/-- The decoder is given nothing of any Ogg file. -/
theorem playOggNative_eq {data : Bytes} (h : data.take 4 = [0x4F, 0x67, 0x67, 0x53]) :
    playOggNative data = .ok [] := by
  have hlength : ¬ data.length < 4 := by
    intro hlt
    have htake := congrArg List.length h
    rw [List.length_take] at htake
    simp at htake
    omega
  rw [playOggNative, if_neg (by simp [hlength, h]), playPages_zero]

/-! ## Recordings -/

open LmRecorder OpusRecorder

def recorded (serial sampleRate : UInt32) (channels : UInt16) (packets : List Packet) : Bytes :=
  OpusRecorder.file serial sampleRate channels (packets.map .writeOpusPacket)

theorem take_recorded (serial sampleRate : UInt32) (channels : UInt16) (packets : List Packet) :
    (recorded serial sampleRate channels packets).take 4 = [0x4F, 0x67, 0x67, 0x53] := by
  have hleads : Leads (.create serial sampleRate channels)
      (record serial sampleRate channels (packets.map .writeOpusPacket)) :=
    (leads_finalize _).calls.1
  obtain ⟨page, rest, hrecord, -⟩ := hleads
  obtain ⟨head, hhead⟩ : ∃ head, (create serial sampleRate channels).pages = [head] := ⟨_, rfl⟩
  have hfirst (more : Bytes) : (pageBytes head ++ more).take 4 = [0x4F, 0x67, 0x67, 0x53] := by
    rw [pageBytes_eq]
    rfl
  rw [recorded, file, hrecord, hhead, List.singleton_append, List.flatMap_cons]
  exact hfirst _

/-- The packets of a recording are passed to the decoder only where there are none. -/
theorem playOggNative_recorded_iff (serial sampleRate : UInt32) (channels : UInt16) (packets : List Packet) :
    playOggNative (recorded serial sampleRate channels packets) = .ok (packets.map Prod.fst) ↔ packets = [] := by
  rw [playOggNative_eq (take_recorded serial sampleRate channels packets), Except.ok.injEq, eq_comm, List.map_eq_nil_iff]

/-- A recording of one packet. -/
theorem playOggNative_recorded_one :
    playOggNative (recorded 1 48000 2 [([0xFC, 0xFF, 0xFE], 960)]) ≠ .ok [[0xFC, 0xFF, 0xFE]] := by
  rw [playOggNative_eq (take_recorded 1 48000 2 _)]
  exact fun h => nomatch h

end LingVoice.LmPlayback

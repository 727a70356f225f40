import LingVoice.LmRecorder.Opus

/-!
# OpusPages — which pages a recording has

The pages of a recording should be numbered one after the other, and each should say how many lacing values it has.
That is so exactly where the packets that go to one page need at most 255 lacing values (`WellSized`) and there are at
most `2 ^ 32` pages.  A packet of 65025 bytes needs 256 values, which is written as 0; a longer one is written on
several pages, but counted as one page, so the next page has a number that was used before.
-/

namespace LingVoice.LmRecorder

open Lib Lib.Ogg List

/-! ## What goes to one page -/

def totalSize (packets : List Packet) : Nat :=
  (packets.map fun packet => packet.1.length).sum

def lacingCount (block : List Packet) : Nat :=
  (block.map fun packet => packet.1.length / 255 + 1).sum

def blockPage (serial sequence : UInt32) (granule : Int64) (block : List Packet) : Page :=
  buildOggPageMulti serial sequence granule 0 (block.map Prod.fst)

theorem length_table_blockPage (serial sequence : UInt32) (granule : Int64) (block : List Packet) :
    (blockPage serial sequence granule block).table.length = lacingCount block := by
  simp [blockPage, buildOggPageMulti, buildSegmentTable, flatMap_map, length_flatMap, segmentSizes_eq_lacing,
    lacingCount]

theorem wholes_buildOggPageMulti {serial sequence : UInt32} {granule : Int64} {headerType : UInt8}
    (h : headerType &&& 0x01 = 0) (segments : List Bytes) :
    (buildOggPageMulti serial sequence granule headerType segments).Wholes segments := by
  refine ⟨?_, ?_, rfl⟩
  · simp [Page.continued, buildOggPageMulti, h]
  · simp [buildOggPageMulti, buildSegmentTable, segmentSizes_eq_lacing]

namespace OpusRecorder
namespace Call

def blocks : Call → List (List Packet)
  | .writeOpusPacket packet => [[packet]]
  | .writeOpusPackets packets =>
    if packets = [] then
      []
    else if 65025 < totalSize packets then
      packets.map fun packet => [packet]
    else
      [packets]

def WellSized (c : Call) : Prop :=
  ∀ block ∈ c.blocks, lacingCount block ≤ 255

end Call

/-! ## Numbers and counts -/

def Numbered (pages : List Page) : Prop :=
  pages.IsChain fun page next => next.sequence.toNat = page.sequence.toNat + 1

def Counted (pages : List Page) : Prop :=
  ∀ page ∈ pages, (UInt8.ofNat page.table.length).toNat = page.table.length

theorem counted_iff (pages : List Page) : Counted pages ↔ ∀ page ∈ pages, page.table.length ≤ 255 := by
  refine forall₂_congr fun page _ => ?_
  have htoNat : (UInt8.ofNat page.table.length).toNat = page.table.length % 256 := rfl
  omega

/-- Numbers that follow each other do not come twice. -/
theorem Numbered.ne {front middle back : List Page} {page later : Page}
    (h : Numbered (front ++ page :: (middle ++ later :: back))) : page.sequence ≠ later.sequence := by
  have hchain : (front ++ page :: (middle ++ later :: back)).IsChain
      fun page later => page.sequence.toNat < later.sequence.toNat :=
    h.imp fun a b hab => by omega
  have hpairwise := isChain_iff_pairwise.1 hchain
  intro heq
  rw [pairwise_append, pairwise_cons] at hpairwise
  have hlt := hpairwise.2.1.1 later (by simp)
  rw [heq] at hlt
  exact Nat.lt_irrefl _ hlt

/-! ## Packets that are too long -/

/-- A packet of more than 65025 bytes takes two pages at least. -/
theorem buildOggPagesForFrame_of_lt {frame : Bytes} (h : 65025 < frame.length) (serial pageSeq : UInt32)
    (granule : Int64) (headerType : UInt8) :
    ∃ first second rest, buildOggPagesForFrame serial pageSeq granule headerType frame 65025 = first :: second :: rest ∧
      first.sequence = pageSeq ∧ second.sequence = pageSeq + 1 := by
  obtain ⟨fuel, hfuel⟩ : ∃ fuel, frame.length = fuel + 2 := ⟨frame.length - 2, by omega⟩
  have hframe : frame ≠ [] := ne_nil_of_length_pos (by omega)
  have hchunk : min frame.length 65025 = 65025 := by omega
  -- 65025 bytes need 256 values, so the page is cut down to 254 of them
  have htable : 255 < (segmentSizes 65025).length := by
    rw [segmentSizes_eq_lacing, length_lacing]
    decide
  have hless : min ((255 - 1) * 255) frame.length = 64770 := by omega
  have hrest : frame.drop 64770 ≠ [] := by
    apply ne_nil_of_length_pos
    rw [length_drop]
    omega
  unfold buildOggPagesForFrame
  rw [hfuel, framePages, if_neg hframe]
  simp only [hchunk, if_pos htable, hless]
  rw [framePages, if_neg hrest]
  exact ⟨_, _, _, rfl, rfl, rfl⟩

/-! ## The page that comes next -/

def Leads (r : OpusRecorder) (final : List Page) : Prop :=
  ∃ page rest, final = r.pages ++ page :: rest ∧ page.sequence = r.pageSeq

theorem leads_finalize (r : OpusRecorder) : Leads r r.finalize :=
  ⟨_, [], rfl, rfl⟩

/-- The pages of one packet: the first has the recorder's number, and if there is another the second has the next. -/
theorem exists_writeOpusPacket (r : OpusRecorder) (payload : Bytes) (samples : UInt32) :
    ∃ first rest, (r.writeOpusPacket payload samples).pages = r.pages ++ first :: rest ∧ first.sequence = r.pageSeq ∧
      (r.writeOpusPacket payload samples).pageSeq = r.pageSeq + 1 ∧
      (65025 < payload.length → ∃ second rest', rest = second :: rest' ∧ second.sequence = r.pageSeq + 1) ∧
      (¬ 65025 < payload.length → rest = [] ∧ first.table.length = payload.length / 255 + 1) := by
  unfold writeOpusPacket
  dsimp only
  split
  · rename_i hlong
    obtain ⟨first, second, rest, hpages, hfirst, hsecond⟩ :=
      buildOggPagesForFrame_of_lt hlong r.serial r.pageSeq (r.granule + Int64.ofNat samples.toNat) 0
    rw [hpages]
    exact ⟨first, second :: rest, rfl, hfirst, rfl, fun _ => ⟨second, rest, rfl, hsecond⟩, fun h => absurd hlong h⟩
  · rename_i hshort
    refine ⟨_, [], rfl, rfl, rfl, fun h => absurd h hshort, fun _ => ⟨rfl, ?_⟩⟩
    simp [buildOggPageMulti, buildSegmentTable, segmentSizes_eq_lacing]

variable {final : List Page} {r : OpusRecorder} {packets : List Packet}

variable {payload : Bytes} {samples totalSamples : UInt32} {c : Call} {cs : List Call}

/-- One turn of the loop over packets that are too much for one page. -/
def writeTakenBack (totalSamples : UInt32) (r : OpusRecorder) (packet : Packet) : OpusRecorder :=
  { r with granule := r.granule - Int64.ofNat totalSamples.toNat }.writeOpusPacket packet.1 packet.2

def sumSamples (packets : List Packet) : UInt32 :=
  packets.foldl (fun sum packet => sum + packet.2) 0

/-- The recorder before the pages of `write_opus_packets`. -/
def advance (r : OpusRecorder) (samples : UInt32) : OpusRecorder :=
  { r with granule := r.granule + Int64.ofNat samples.toNat }

theorem writeOpusPackets_of_lt (h : 65025 < totalSize packets) (r : OpusRecorder) :
    r.writeOpusPackets packets =
      packets.foldl (writeTakenBack (sumSamples packets)) (r.advance (sumSamples packets)) := by
  have hpackets : packets ≠ [] := by
    rintro rfl
    cases h
  rw [writeOpusPackets, if_neg hpackets]
  exact if_pos h

theorem writeOpusPackets_of_le (hpackets : packets ≠ []) (h : ¬ 65025 < totalSize packets) (r : OpusRecorder) :
    r.writeOpusPackets packets =
      (r.advance (sumSamples packets)).write
        [blockPage r.serial r.pageSeq (r.granule + Int64.ofNat (sumSamples packets).toNat) packets] := by
  rw [writeOpusPackets, if_neg hpackets]
  exact if_neg h

theorem lacingCount_singleton_le_iff (packet : Packet) : lacingCount [packet] ≤ 255 ↔ packet.1.length < 65025 := by
  rw [lacingCount, map_singleton, sum_singleton]
  omega

/-- A packet whose page is numbered and counted right is shorter than 65025 bytes. -/
theorem Leads.writeOpusPacket (h : Leads (r.writeOpusPacket payload samples) final) :
    Leads r final ∧ (Numbered final → Counted final → payload.length < 65025) := by
  obtain ⟨page, rest, hfinal, hpage⟩ := h
  obtain ⟨first, more, hpages, hfirst, hnext, hlong, hshort⟩ := r.exists_writeOpusPacket payload samples
  refine ⟨⟨first, more ++ page :: rest, by rw [hfinal, hpages, append_assoc, cons_append], hfirst⟩, ?_⟩
  intro hnumbered hcounted
  by_cases hlength : 65025 < payload.length
  · -- the second page of the packet and the page behind the packet have one number
    obtain ⟨second, more', rfl, hsecond⟩ := hlong hlength
    have hsplit : final = (r.pages ++ [first]) ++ second :: (more' ++ page :: rest) := by
      rw [hfinal, hpages]
      simp
    rw [hsplit] at hnumbered
    refine absurd ?_ hnumbered.ne
    rw [hsecond, hpage, hnext]
  · -- one page, on which 65025 bytes would take 256 values
    have hmem : first ∈ final := by
      rw [hfinal, hpages]
      simp
    have hle := (counted_iff final).1 hcounted first hmem
    omega

theorem Leads.foldl (h : Leads (packets.foldl (writeTakenBack totalSamples) r) final) :
    Leads r final ∧ (Numbered final → Counted final → ∀ packet ∈ packets, packet.1.length < 65025) := by
  induction packets generalizing r with
  | nil => exact ⟨h, fun _ _ packet hpacket => absurd hpacket not_mem_nil⟩
  | cons packet rest ih =>
    have hrest := ih h
    have hone := hrest.1.writeOpusPacket
    exact ⟨hone.1, fun hn hc => forall_mem_cons.2 ⟨hone.2 hn hc, hrest.2 hn hc⟩⟩

/-- A call whose pages are numbered and counted right is well sized. -/
theorem Leads.call (h : Leads (r.call c) final) : Leads r final ∧ (Numbered final → Counted final → c.WellSized) := by
  unfold Call.WellSized
  cases c with
  | writeOpusPacket packet =>
    rw [Call.blocks, forall_mem_singleton, lacingCount_singleton_le_iff]
    exact h.writeOpusPacket
  | writeOpusPackets packets =>
    by_cases hpackets : packets = []
    · subst hpackets
      exact ⟨h, fun _ _ block hblock => absurd hblock not_mem_nil⟩
    · rw [Call.blocks, if_neg hpackets]
      by_cases hsize : 65025 < totalSize packets
      · rw [OpusRecorder.call, writeOpusPackets_of_lt hsize] at h
        simp only [if_pos hsize, forall_mem_map, lacingCount_singleton_le_iff]
        exact h.foldl
      · -- all packets are on one page, whose table is counted
        rw [OpusRecorder.call, writeOpusPackets_of_le hpackets hsize] at h
        rw [if_neg hsize, forall_mem_singleton]
        obtain ⟨page, rest, rfl, -⟩ := h
        refine ⟨⟨_, page :: rest, append_assoc _ _ _, rfl⟩, ?_⟩
        intro _ hcounted
        have hle := (counted_iff _).1 hcounted
          (blockPage r.serial r.pageSeq (r.granule + Int64.ofNat (sumSamples packets).toNat) packets) (by simp [write])
        rw [length_table_blockPage] at hle
        exact hle

theorem Leads.calls (h : Leads (r.calls cs) final) :
    Leads r final ∧ (Numbered final → Counted final → ∀ c ∈ cs, c.WellSized) := by
  induction cs generalizing r with
  | nil => exact ⟨h, fun _ _ c hc => absurd hc not_mem_nil⟩
  | cons c rest ih =>
    have hrest := ih h
    have hone := hrest.1.call
    exact ⟨hone.1, fun hn hc => forall_mem_cons.2 ⟨hone.2 hn hc, hrest.2 hn hc⟩⟩

end OpusRecorder
end LingVoice.LmRecorder

import Mathlib.Data.List.Chain
import LingVoice.LmRecorder.OpusPages

/-!
# OpusRoundTrip — a recording read back

The file of a recording should hold the Opus header and the packets, its pages should be numbered and counted right,
and the granule position of a page on which a packet ends should be the number of samples up to the last such packet.

When packets that are too much for one page are written in one call, their sum is subtracted before every packet.
-/

namespace LingVoice.LmRecorder

open Lib Lib.Ogg List Nat

/-! ## What is asked of a recording -/

def sampleCount (packets : List Packet) : Nat :=
  (packets.map fun packet => packet.2.toNat).sum

theorem sampleCount_singleton (packet : Packet) : sampleCount [packet] = packet.2.toNat :=
  sum_singleton

theorem sampleCount_append (front back : List Packet) :
    sampleCount (front ++ back) = sampleCount front + sampleCount back := by
  rw [sampleCount, map_append, List.sum_append]
  rfl

def endings (page : Page) : Nat :=
  page.table.countP fun lacing => lacing < 255

/-- The granule positions, where `done` packets have ended on the pages before. -/
def Granules (samples : List Nat) : Nat → List Page → Prop
  | _, [] => True
  | done, page :: rest =>
    (0 < endings page → page.granule.toInt = ((samples.take (done + endings page)).sum : Nat)) ∧
      Granules samples (done + endings page) rest

namespace OpusRecorder

def Call.packets : Call → List Packet
  | .writeOpusPacket packet => [packet]
  | .writeOpusPackets packets => packets

/-- The header counts as a packet without samples. -/
structure RoundTrip (serial sampleRate : UInt32) (channels : UInt16) (cs : List Call) : Prop where
  packets : Ogg.read (file serial sampleRate channels cs) =
    some (opusHead sampleRate channels :: (cs.flatMap Call.packets).map Prod.fst)
  numbered : Numbered (record serial sampleRate channels cs)
  counted : Counted (record serial sampleRate channels cs)
  granules : Granules (0 :: (cs.flatMap Call.packets).map fun packet => packet.2.toNat) 0
    (record serial sampleRate channels cs)

/-- What is asked of the samples of a call. -/
def Call.Timed : Call → Prop
  | .writeOpusPacket _ => True
  | .writeOpusPackets packets =>
    if 65025 < totalSize packets then sampleCount packets % 2 ^ 32 = 0 else sampleCount packets < 2 ^ 32

/-! ## Pages of whole packets -/

abbrev TimedBlock := Int64 × List Packet

/-- The pages of packets that are written one by one, each with the sum taken back. -/
def takenBack (totalSamples : UInt32) : Int64 → List Packet → List TimedBlock
  | _, [] => []
  | granule, packet :: rest =>
    let granule := granule - Int64.ofNat totalSamples.toNat + Int64.ofNat packet.2.toNat
    (granule, [packet]) :: takenBack totalSamples granule rest

def Call.timed (granule : Int64) : Call → List TimedBlock
  | .writeOpusPacket packet => [(granule + Int64.ofNat packet.2.toNat, [packet])]
  | .writeOpusPackets packets =>
    let next := granule + Int64.ofNat (sumSamples packets).toNat
    if packets = [] then
      []
    else if 65025 < totalSize packets then
      takenBack (sumSamples packets) next packets
    else
      [(next, packets)]

def lastGranule : Int64 → List TimedBlock → Int64
  | granule, [] => granule
  | _, page :: rest => lastGranule page.1 rest

def timed : Int64 → List Call → List TimedBlock
  | _, [] => []
  | granule, c :: rest => c.timed granule ++ timed (lastGranule granule (c.timed granule)) rest

def pagesFrom (serial : UInt32) : UInt32 → List TimedBlock → List Page
  | _, [] => []
  | sequence, page :: rest => blockPage serial sequence page.1 page.2 :: pagesFrom serial (sequence + 1) rest

def place (r : OpusRecorder) (pages : List TimedBlock) : OpusRecorder :=
  { r with
    granule := lastGranule r.granule pages
    pageSeq := r.pageSeq + UInt32.ofNat pages.length
    pages := r.pages ++ pagesFrom r.serial r.pageSeq pages }

variable (r : OpusRecorder)

theorem place_nil : r.place [] = r := by
  simp [place, lastGranule, pagesFrom]

theorem place_cons (page : TimedBlock) (rest : List TimedBlock) :
    r.place (page :: rest) =
      ({ r with granule := page.1 }.write [blockPage r.serial r.pageSeq page.1 page.2]).place rest := by
  simp [place, write, lastGranule, pagesFrom, UInt32.ofNat_add, UInt32.add_assoc, UInt32.add_comm]

theorem place_append (front back : List TimedBlock) : r.place (front ++ back) = (r.place front).place back := by
  induction front generalizing r with
  | nil => rw [nil_append, place_nil]
  | cons page rest ih => rw [cons_append, place_cons, ih, place_cons]

variable {payload : Bytes} {c : Call} {n : Nat}

theorem writeOpusPacket_of_lt (h : payload.length < 65025) (samples : UInt32) (r : OpusRecorder) :
    r.writeOpusPacket payload samples = r.place [(r.granule + Int64.ofNat samples.toNat, [(payload, samples)])] := by
  exact if_neg (by omega)

variable {packets : List Packet} {pages : List TimedBlock} {cs : List Call} {done : Nat}

theorem foldl_writeTakenBack (h : ∀ packet ∈ packets, packet.1.length < 65025)
    (totalSamples : UInt32) (r : OpusRecorder) :
    packets.foldl (writeTakenBack totalSamples) r = r.place (takenBack totalSamples r.granule packets) := by
  induction packets generalizing r with
  | nil => rw [takenBack, place_nil]; rfl
  | cons packet rest ih =>
    rw [forall_mem_cons] at h
    rw [foldl_cons, ih h.2, takenBack, place_cons, writeTakenBack, writeOpusPacket_of_lt h.1, place_cons, place_nil]
    rfl

theorem call_eq (h : c.WellSized) (r : OpusRecorder) : r.call c = r.place (c.timed r.granule) := by
  cases c with
  | writeOpusPacket packet =>
    rw [Call.WellSized, Call.blocks, forall_mem_singleton, lacingCount_singleton_le_iff] at h
    exact writeOpusPacket_of_lt h packet.2 r
  | writeOpusPackets packets =>
    rw [Call.WellSized, Call.blocks] at h
    by_cases hpackets : packets = []
    · subst hpackets
      exact (place_nil r).symm
    · rw [if_neg hpackets] at h
      rw [call, Call.timed, if_neg hpackets]
      by_cases hsize : 65025 < totalSize packets
      · rw [if_pos hsize, forall_mem_map] at h
        have hshort : ∀ packet ∈ packets, packet.1.length < 65025 := fun packet hpacket =>
          (lacingCount_singleton_le_iff packet).1 (h packet hpacket)
        rw [if_pos hsize, writeOpusPackets_of_lt hsize, foldl_writeTakenBack hshort]
        -- the granule position before a page is forgotten
        cases packets with
        | nil => exact absurd rfl hpackets
        | cons packet rest => rw [takenBack, place_cons, takenBack, place_cons]; rfl
      · rw [if_neg hsize, writeOpusPackets_of_le hpackets hsize, place_cons, place_nil]
        rfl

theorem calls_eq (h : ∀ c ∈ cs, c.WellSized) (r : OpusRecorder) : r.calls cs = r.place (timed r.granule cs) := by
  induction cs generalizing r with
  | nil => rw [timed, place_nil]; rfl
  | cons c rest ih =>
    rw [forall_mem_cons] at h
    rw [timed, place_append, ← call_eq h.1]
    have hgranule : lastGranule r.granule (c.timed r.granule) = (r.call c).granule := by
      rw [call_eq h.1]
      rfl
    rw [hgranule]
    exact ih h.2 (r.call c)

/-! ## The packets on the pages -/

theorem map_snd_takenBack (totalSamples : UInt32) (granule : Int64) (packets : List Packet) :
    (takenBack totalSamples granule packets).map Prod.snd = packets.map fun packet => [packet] := by
  induction packets generalizing granule with
  | nil => rfl
  | cons packet rest ih => rw [takenBack, map_cons, map_cons, ih]

theorem Call.map_snd_timed (c : Call) (granule : Int64) : (c.timed granule).map Prod.snd = c.blocks := by
  cases c with
  | writeOpusPacket packet => rfl
  | writeOpusPackets packets =>
    rw [Call.timed, Call.blocks]
    split
    · rfl
    · split
      · exact map_snd_takenBack _ _ packets
      · rfl

variable (granule : Int64)

theorem map_snd_timed (cs : List Call) : (timed granule cs).map Prod.snd = cs.flatMap Call.blocks := by
  induction cs generalizing granule with
  | nil => rfl
  | cons c rest ih => rw [timed, map_append, c.map_snd_timed, ih, flatMap_cons]

theorem exists_of_mem_timed {granule : Int64} {page : TimedBlock} (h : page ∈ timed granule cs) :
    ∃ c ∈ cs, page.2 ∈ c.blocks := by
  have hblock : page.2 ∈ (timed granule cs).map Prod.snd := mem_map_of_mem h
  rw [map_snd_timed] at hblock
  exact mem_flatMap.1 hblock

theorem Call.flatten_blocks (c : Call) : c.blocks.flatten = c.packets := by
  cases c with
  | writeOpusPacket packet => rfl
  | writeOpusPackets packets =>
    rw [Call.blocks, Call.packets]
    split
    · rename_i hnil
      rw [hnil]
      rfl
    · split
      · exact flatMap_singleton' packets
      · exact flatten_singleton

theorem Call.block_ne_nil {block : List Packet} (h : block ∈ c.blocks) : block ≠ [] := by
  cases c with
  | writeOpusPacket packet =>
    rw [mem_singleton.1 h]
    exact cons_ne_nil _ _
  | writeOpusPackets packets =>
    rw [Call.blocks] at h
    split at h
    · exact absurd h not_mem_nil
    · rename_i hpackets
      split at h
      · obtain ⟨packet, -, rfl⟩ := mem_map.1 h
        exact cons_ne_nil _ _
      · rw [mem_singleton.1 h]
        exact hpackets

theorem flatten_blocks (cs : List Call) : (cs.flatMap Call.blocks).flatten = cs.flatMap Call.packets := by
  induction cs with
  | nil => rfl
  | cons c rest ih => rw [flatMap_cons, flatten_append, c.flatten_blocks, ih, flatMap_cons]

/-! ## A recording of calls that are well sized -/

theorem record_eq (h : ∀ c ∈ cs, c.WellSized) (serial sampleRate : UInt32) (channels : UInt16) :
    record serial sampleRate channels cs =
      buildOggPageMulti serial 0 0 0x02 [opusHead sampleRate channels] ::
        (pagesFrom serial 1 (timed 0 cs) ++
          [buildOggPageMulti serial (1 + UInt32.ofNat (timed 0 cs).length) (lastGranule 0 (timed 0 cs)) 0x04 []]) := by
  rw [record, calls_eq h]
  rfl

theorem map_sequence_pagesFrom (serial : UInt32) (start : Nat) (pages : List TimedBlock) :
    (pagesFrom serial (UInt32.ofNat start) pages).map Page.sequence =
      (range' start pages.length).map UInt32.ofNat := by
  induction pages generalizing start with
  | nil => rfl
  | cons page rest ih =>
    have hnext : UInt32.ofNat start + 1 = UInt32.ofNat (start + 1) := (UInt32.ofNat_add start 1).symm
    rw [pagesFrom, map_cons, hnext, ih, length_cons, range'_succ, map_cons]
    rfl

/-- Numbers in 32 bits follow each other as long as there are not more than these. -/
theorem isChain_ofNat_iff {start : Nat} (hstart : start < 2 ^ 32) :
    ((range' start (n + 1)).map UInt32.ofNat).IsChain (fun a b => b.toNat = a.toNat + 1) ↔ start + n < 2 ^ 32 := by
  have htoNat (k : Nat) : (UInt32.ofNat k).toNat = k % 2 ^ 32 := rfl
  induction n generalizing start with
  | zero => simpa using hstart
  | succ n ih =>
    rw [range'_succ, map_cons, range'_succ, map_cons, isChain_cons_cons, ← map_cons,
      ← range'_succ, htoNat, htoNat, mod_eq_of_lt hstart]
    -- after the largest number comes zero
    by_cases hnext : start + 1 < 2 ^ 32
    · have hrest := ih hnext
      rw [mod_eq_of_lt hnext]
      constructor
      · rintro ⟨-, hchain⟩
        have := hrest.1 hchain
        omega
      · intro hlt
        exact ⟨rfl, hrest.2 (by omega)⟩
    · omega

theorem forall_mem_pagesFrom {P : Page → Prop} {serial sequence : UInt32}
    (h : ∀ sequence, ∀ page ∈ pages, P (blockPage serial sequence page.1 page.2)) :
    ∀ page ∈ pagesFrom serial sequence pages, P page := by
  induction pages generalizing sequence with
  | nil => exact fun page hpage => absurd hpage not_mem_nil
  | cons page rest ih =>
    rw [pagesFrom, forall_mem_cons]
    exact ⟨h sequence page mem_cons_self, ih fun sequence page hpage => h sequence page (mem_cons_of_mem _ hpage)⟩

theorem wholes_pagesFrom (serial sequence : UInt32) (pages : List TimedBlock) :
    Forall₂ Page.Wholes (pagesFrom serial sequence pages) (pages.map fun page => page.2.map Prod.fst) := by
  induction pages generalizing sequence with
  | nil => exact .nil
  | cons page rest ih => exact .cons (wholes_buildOggPageMulti rfl _) (ih (sequence + 1))

/-! ## Granule positions -/

/-- The granule positions of the pages are the sums of the samples so far. -/
def Summed : Nat → List TimedBlock → Prop
  | _, [] => True
  | done, page :: rest =>
    page.1.toInt = (done + sampleCount page.2 : Nat) ∧ Summed (done + sampleCount page.2) rest

theorem toInt_eq_iff (n : Nat) : granule.toInt = (n : Int) ↔ granule = Int64.ofNat n ∧ n < 2 ^ 63 := by
  constructor
  · intro h
    have hlt := granule.toInt_lt
    refine ⟨?_, by omega⟩
    rw [← granule.ofInt_toInt, h, Int64.ofInt_eq_ofNat]
  · rintro ⟨rfl, hlt⟩
    exact Int64.toInt_ofNat_of_lt hlt

theorem ofNat_inj_of_lt {m : Nat} (hm : m < 2 ^ 63) (hn : n < 2 ^ 63) (h : Int64.ofNat m = Int64.ofNat n) : m = n := by
  have htoInt := congrArg Int64.toInt h
  rw [Int64.toInt_ofNat_of_lt hm, Int64.toInt_ofNat_of_lt hn] at htoInt
  omega

theorem toNat_sumSamples (packets : List Packet) : (sumSamples packets).toNat = sampleCount packets % 2 ^ 32 := by
  unfold sumSamples sampleCount
  induction packets using reverseRecOn with
  | nil => rfl
  | append_singleton packets packet ih =>
    rw [foldl_append, map_append, List.sum_append, foldl_cons, foldl_nil, UInt32.toNat_add, ih]
    simp

theorem summed_append (done : Nat) (front back : List TimedBlock) :
    Summed done (front ++ back) ↔ Summed done front ∧ Summed (done + sampleCount (front.flatMap Prod.snd)) back := by
  induction front generalizing done with
  | nil => simp [Summed, sampleCount]
  | cons page rest ih =>
    rw [cons_append, Summed, Summed, ih, flatMap_cons, sampleCount_append, add_assoc, and_assoc]

theorem lastGranule_of_summed (h : Summed done pages) :
    lastGranule (Int64.ofNat done) pages = Int64.ofNat (done + sampleCount (pages.flatMap Prod.snd)) := by
  induction pages generalizing done with
  | nil => rfl
  | cons page rest ih =>
    have hpage := ((toInt_eq_iff _ _).1 h.1).1
    rw [lastGranule, hpage, ih h.2, flatMap_cons, sampleCount_append, add_assoc]

/-- Packets that are written one by one with a sum of zero taken back. -/
theorem summed_takenBack_iff (hdone : done < 2 ^ 63) (packets : List Packet) :
    Summed done (takenBack 0 (Int64.ofNat done) packets) ↔ done + sampleCount packets < 2 ^ 63 := by
  induction packets generalizing done with
  | nil => simpa [takenBack, Summed, sampleCount] using hdone
  | cons packet rest ih =>
    have hgranule : Int64.ofNat done - Int64.ofNat (0 : UInt32).toNat + Int64.ofNat packet.2.toNat =
        Int64.ofNat (done + packet.2.toNat) := by
      rw [Int64.ofNat_add]
      congr 1
      exact Int64.sub_zero _
    rw [takenBack]
    simp only [hgranule]
    have hcount : sampleCount (packet :: rest) = packet.2.toNat + sampleCount rest := rfl
    rw [Summed, sampleCount_singleton, toInt_eq_iff, hcount]
    constructor
    · rintro ⟨⟨-, hlt⟩, hrest⟩
      have := (ih hlt).1 hrest
      omega
    · intro hlt
      have hnext : done + packet.2.toNat < 2 ^ 63 := by omega
      exact ⟨⟨rfl, hnext⟩, (ih hnext).2 (by omega)⟩

/-- A sum that is not zero is taken back twice from the second packet. -/
theorem not_summed_takenBack {totalSamples : UInt32} (h : totalSamples ≠ 0) (done : Nat) (first second : Packet)
    (rest : List Packet) :
    ¬ Summed done (takenBack totalSamples (Int64.ofNat done + Int64.ofNat totalSamples.toNat)
      (first :: second :: rest)) := by
  rw [takenBack, takenBack]
  simp only [Summed, toInt_eq_iff]
  rintro ⟨⟨hfirst, -⟩, ⟨hsecond, -⟩, -⟩
  rw [hfirst, Int64.ofNat_add (done + sampleCount [first]), sampleCount_singleton second] at hsecond
  -- what is left is that nothing was taken back
  have hzero : Int64.ofNat totalSamples.toNat = Int64.ofNat 0 := by
    rw [Int64.add_left_inj, Int64.sub_eq_iff_eq_add] at hsecond
    have hsame : Int64.ofNat (done + sampleCount [first]) + 0 =
        Int64.ofNat (done + sampleCount [first]) + Int64.ofNat totalSamples.toNat := by
      rw [Int64.add_zero]
      exact hsecond
    exact ((Int64.add_right_inj _).1 hsame).symm
  have hlt : totalSamples.toNat < 2 ^ 32 := totalSamples.toNat_lt
  have := ofNat_inj_of_lt (by omega) (by omega) hzero
  exact h (UInt32.toNat_inj.1 this)

theorem exists_two_of_totalSize (hsize : 65025 < totalSize packets)
    (h : ∀ packet ∈ packets, packet.1.length < 65025) : ∃ first second rest, packets = first :: second :: rest := by
  match packets, hsize, h with
  | [packet], hsize, h =>
    have hlt := h packet (mem_singleton.2 rfl)
    rw [totalSize, map_singleton, sum_singleton] at hsize
    omega
  | first :: second :: rest, _, _ => exact ⟨first, second, rest, rfl⟩

theorem Call.summed_timed_iff (h : c.WellSized) (hdone : done < 2 ^ 63) :
    Summed done (c.timed (Int64.ofNat done)) ↔ c.Timed ∧ done + sampleCount c.packets < 2 ^ 63 := by
  cases c with
  | writeOpusPacket packet =>
    simp only [Call.timed, Summed, Call.Timed, Call.packets, toInt_eq_iff, sampleCount_singleton, Int64.ofNat_add,
      true_and, and_true]
  | writeOpusPackets packets =>
    rw [Call.WellSized, Call.blocks] at h
    have hsum := toNat_sumSamples packets
    simp only [Call.timed, Call.Timed, Call.packets]
    by_cases hpackets : packets = []
    · subst hpackets
      simpa [Summed, totalSize, sampleCount] using hdone
    · rw [if_neg hpackets] at h ⊢
      by_cases hsize : 65025 < totalSize packets
      · rw [if_pos hsize, forall_mem_map] at h
        rw [if_pos hsize, if_pos hsize, ← hsum]
        -- the sum is subtracted before every packet, which is right only if it is zero in 32 bits
        by_cases hzero : sumSamples packets = 0
        · have hstart : Int64.ofNat done + Int64.ofNat (0 : UInt32).toNat = Int64.ofNat done := Int64.add_zero _
          rw [hzero, hstart, summed_takenBack_iff hdone]
          simp
        · obtain ⟨first, second, rest, heq⟩ := exists_two_of_totalSize hsize fun packet hpacket =>
            (lacingCount_singleton_le_iff packet).1 (h packet hpacket)
          have hnot := not_summed_takenBack hzero done first second rest
          rw [← heq] at hnot
          have hpos : (sumSamples packets).toNat ≠ 0 := fun hcount => hzero (UInt32.toNat_inj.1 hcount)
          simp only [hnot, hpos, false_and]
      · -- one page, whose granule position takes the sum in 32 bits
        rw [if_neg hsize, if_neg hsize]
        simp only [Summed, and_true, toInt_eq_iff, ← Int64.ofNat_add, hsum]
        constructor
        · rintro ⟨hsame, hlt⟩
          have := ofNat_inj_of_lt (by omega) hlt hsame
          omega
        · rintro ⟨hlt, hlt'⟩
          rw [mod_eq_of_lt hlt]
          exact ⟨rfl, hlt'⟩

theorem flatMap_snd_timed (cs : List Call) : (timed granule cs).flatMap Prod.snd = cs.flatMap Call.packets := by
  rw [← flatten_blocks, ← map_snd_timed granule]
  rfl

theorem Call.flatMap_snd_timed (c : Call) (granule : Int64) : (c.timed granule).flatMap Prod.snd = c.packets := by
  rw [← c.flatten_blocks, ← c.map_snd_timed granule]
  rfl

theorem summed_timed_iff (h : ∀ c ∈ cs, c.WellSized) (hdone : done < 2 ^ 63) :
    Summed done (timed (Int64.ofNat done) cs) ↔
      (∀ c ∈ cs, c.Timed) ∧ done + sampleCount (cs.flatMap Call.packets) < 2 ^ 63 := by
  induction cs generalizing done with
  | nil => simpa [timed, Summed, sampleCount] using hdone
  | cons c rest ih =>
    rw [forall_mem_cons] at h
    rw [timed, summed_append, c.flatMap_snd_timed, forall_mem_cons, flatMap_cons, sampleCount_append]
    constructor
    · rintro ⟨hc, hrest⟩
      have hlast := lastGranule_of_summed hc
      obtain ⟨htimed, hlt⟩ := (c.summed_timed_iff h.1 hdone).1 hc
      rw [hlast, c.flatMap_snd_timed, ih h.2 hlt] at hrest
      exact ⟨⟨htimed, hrest.1⟩, by omega⟩
    · rintro ⟨⟨htimed, hrest⟩, hlt⟩
      have hnext : done + sampleCount c.packets < 2 ^ 63 := by omega
      have hc := (c.summed_timed_iff h.1 hdone).2 ⟨htimed, hnext⟩
      refine ⟨hc, ?_⟩
      rw [lastGranule_of_summed hc, c.flatMap_snd_timed, ih h.2 hnext]
      exact ⟨hrest, by omega⟩

theorem countP_lacing (n : Nat) : (lacing n).countP (fun value => value < 255) = 1 := by
  have hlast : UInt8.ofNat (n % 255) < 255 := by
    rw [UInt8.lt_iff_toNat_lt, toNat_lacing (mod_lt n (by omega))]
    exact mod_lt n (by omega)
  rw [lacing, countP_append, countP_replicate, countP_singleton]
  simp [hlast]

theorem endings_buildOggPageMulti (serial sequence : UInt32) (granule : Int64) (headerType : UInt8)
    (segments : List Bytes) :
    endings (buildOggPageMulti serial sequence granule headerType segments) = segments.length := by
  simp [endings, buildOggPageMulti, buildSegmentTable, segmentSizes_eq_lacing, countP_flatMap, Function.comp_def,
    countP_lacing]

/-- The granule positions of pages of whole packets, where `before` are the samples of the packets before; no packet ends
on the last page. -/
theorem granules_pagesFrom_iff (h : ∀ page ∈ pages, page.2 ≠ []) {last : Page} (hlast : endings last = 0)
    (before : List Nat) (serial sequence : UInt32) :
    Granules (before ++ (pages.flatMap Prod.snd).map fun packet => packet.2.toNat) before.length
        (pagesFrom serial sequence pages ++ [last]) ↔ Summed before.sum pages := by
  induction pages generalizing before sequence with
  | nil => simp [pagesFrom, Granules, Summed, hlast]
  | cons page rest ih =>
    rw [forall_mem_cons] at h
    -- the packets that end on this page are those of its block
    let here := page.2.map fun packet => packet.2.toNat
    have hendings : endings (blockPage serial sequence page.1 page.2) = here.length := by
      rw [blockPage, endings_buildOggPageMulti, length_map, length_map]
    have hpos : 0 < here.length := by
      rw [length_map]
      exact length_pos_of_ne_nil h.1
    have hsamples : before ++ ((page :: rest).flatMap Prod.snd).map (fun packet => packet.2.toNat) =
        (before ++ here) ++ (rest.flatMap Prod.snd).map fun packet => packet.2.toNat := by
      rw [flatMap_cons, map_append, append_assoc]
    have hlength : before.length + here.length = (before ++ here).length := by rw [length_append]
    have hsum : (before ++ here).sum = before.sum + sampleCount page.2 := by rw [List.sum_append]; rfl
    rw [pagesFrom, cons_append, Granules, hendings, hsamples, hlength, ih h.2 (before ++ here), take_left, hsum, Summed]
    simp only [hpos, forall_const]
    rfl

section WellSized

variable {cs : List Call} (h : ∀ c ∈ cs, c.WellSized) (serial sampleRate : UInt32) (channels : UInt16)

include h

theorem numbered_record_iff :
    Numbered (record serial sampleRate channels cs) ↔ (cs.flatMap Call.blocks).length + 2 ≤ 2 ^ 32 := by
  have hsequence : (record serial sampleRate channels cs).map Page.sequence =
      (range' 0 ((timed 0 cs).length + 1 + 1)).map UInt32.ofNat := by
    have hlast : (1 : UInt32) + UInt32.ofNat (timed 0 cs).length = UInt32.ofNat (1 + (timed 0 cs).length) :=
      (UInt32.ofNat_add 1 _).symm
    have hpages : (pagesFrom serial 1 (timed 0 cs)).map Page.sequence =
        (range' 1 (timed 0 cs).length).map UInt32.ofNat := map_sequence_pagesFrom serial 1 (timed 0 cs)
    rw [record_eq h, hlast, range'_succ, range'_1_concat, map_cons, map_cons, map_append, map_append, hpages]
    rfl
  have hlength : (timed 0 cs).length = (cs.flatMap Call.blocks).length := by
    rw [← map_snd_timed 0, length_map]
  have hchain : Numbered (record serial sampleRate channels cs) ↔
      ((record serial sampleRate channels cs).map Page.sequence).IsChain fun a b => b.toNat = a.toNat + 1 := by
    rw [isChain_map]
    rfl
  rw [hchain, hsequence, isChain_ofNat_iff (by omega), hlength]
  omega

theorem counted_record : Counted (record serial sampleRate channels cs) := by
  rw [counted_iff, record_eq h, forall_mem_cons, forall_mem_append, forall_mem_singleton]
  refine ⟨?_, ?_, ?_⟩
  · -- the header is a packet of 19 bytes
    simp [buildOggPageMulti, buildSegmentTable, segmentSizes_eq_lacing, opusHead]
  · apply forall_mem_pagesFrom
    intro sequence page hpage
    obtain ⟨c, hc, hblock⟩ := exists_of_mem_timed hpage
    rw [length_table_blockPage]
    exact h c hc page.2 hblock
  · exact zero_le 255

theorem read_file :
    Ogg.read (file serial sampleRate channels cs) =
      some (opusHead sampleRate channels :: (cs.flatMap Call.packets).map Prod.fst) := by
  have hwholes : Forall₂ Page.Wholes (record serial sampleRate channels cs)
      ([opusHead sampleRate channels] :: ((timed 0 cs).map (fun page => page.2.map Prod.fst) ++ [[]])) := by
    rw [record_eq h]
    refine .cons (wholes_buildOggPageMulti rfl _) (rel_append (wholes_pagesFrom serial 1 _) ?_)
    exact .cons (wholes_buildOggPageMulti rfl []) .nil
  have htable : ∀ page ∈ record serial sampleRate channels cs, page.table.length < 256 := fun page hpage =>
    lt_succ_of_le ((counted_iff _).1 (counted_record h serial sampleRate channels) page hpage)
  have hpackets : ((timed 0 cs).map fun page => page.2.map Prod.fst).flatten =
      (cs.flatMap Call.packets).map Prod.fst := by
    rw [← flatten_blocks, ← map_snd_timed 0, map_flatten, map_map]
    rfl
  have hfile : file serial sampleRate channels cs =
      (record serial sampleRate channels cs).flatMap fun page => page.bytes page.checksum := by
    unfold file
    congr 1
    funext page
    exact pageBytes_eq page
  rw [hfile, read_wholes hwholes htable, flatten_cons, flatten_append, hpackets]
  simp

theorem granules_record_iff :
    Granules (0 :: (cs.flatMap Call.packets).map fun packet => packet.2.toNat) 0
        (record serial sampleRate channels cs) ↔
      (∀ c ∈ cs, c.Timed) ∧ sampleCount (cs.flatMap Call.packets) < 2 ^ 63 := by
  have hblocks : ∀ page ∈ timed 0 cs, page.2 ≠ [] := by
    intro page hpage
    obtain ⟨c, -, hblock⟩ := exists_of_mem_timed hpage
    exact Call.block_ne_nil hblock
  have hpages := granules_pagesFrom_iff hblocks (endings_buildOggPageMulti serial
    (1 + UInt32.ofNat (timed 0 cs).length) (lastGranule 0 (timed 0 cs)) 0x04 []) [0] serial 1
  have hsummed := summed_timed_iff h (show 0 < 2 ^ 63 by omega)
  rw [flatMap_snd_timed] at hpages
  rw [zero_add] at hsummed
  rw [record_eq h, Granules, endings_buildOggPageMulti, ← hsummed]
  exact (and_iff_right fun _ => rfl).trans hpages

end WellSized

/-! ## The round trip -/

/-- A recording is read back exactly where the packets of every page fit in its table, the samples add up without an
overflow and there are not more than `2 ^ 32` pages. -/
theorem recording_roundTrip_iff (serial sampleRate : UInt32) (channels : UInt16) (cs : List Call) :
    RoundTrip serial sampleRate channels cs ↔
      (∀ c ∈ cs, c.WellSized ∧ c.Timed) ∧ (cs.flatMap Call.blocks).length + 2 ≤ 2 ^ 32 ∧
        sampleCount (cs.flatMap Call.packets) < 2 ^ 63 := by
  constructor
  · intro hround
    have hsized : ∀ c ∈ cs, c.WellSized :=
      (leads_finalize _).calls.2 hround.numbered hround.counted
    have hnumbered := (numbered_record_iff hsized serial sampleRate channels).1 hround.numbered
    obtain ⟨htimed, hsamples⟩ := (granules_record_iff hsized serial sampleRate channels).1 hround.granules
    exact ⟨fun c hc => ⟨hsized c hc, htimed c hc⟩, hnumbered, hsamples⟩
  · rintro ⟨hcalls, hnumber, hsamples⟩
    have hsized : ∀ c ∈ cs, c.WellSized := fun c hc => (hcalls c hc).1
    exact
      { packets := read_file hsized serial sampleRate channels
        numbered := (numbered_record_iff hsized serial sampleRate channels).2 hnumber
        counted := counted_record hsized serial sampleRate channels
        granules := (granules_record_iff hsized serial sampleRate channels).2 ⟨fun c hc => (hcalls c hc).2, hsamples⟩ }

/-- A packet that fills a table of lacing values is never read back. -/
theorem not_roundTrip_of_length (h : 65025 ≤ payload.length) :
    ¬ RoundTrip 1 48000 2 [.writeOpusPacket (payload, 960)] := by
  intro hround
  have hleads : Leads ((create 1 48000 2).writeOpusPacket payload 960)
      (record 1 48000 2 [.writeOpusPacket (payload, 960)]) := leads_finalize _
  have hlt := hleads.writeOpusPacket.2 hround.numbered hround.counted
  omega

/-- A packet of 65025 bytes: its page says that it has no lacing values. -/
theorem not_roundTrip_65025 : ¬ RoundTrip 1 48000 2 [.writeOpusPacket (List.replicate 65025 0, 960)] :=
  not_roundTrip_of_length (le_of_eq length_replicate.symm)

end OpusRecorder
end LingVoice.LmRecorder

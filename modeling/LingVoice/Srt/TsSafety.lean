import LingVoice.Srt.TsParserSpec

/-!
# TsSafety — for which input the demuxer does not panic

The demuxer computes the end of a PAT or PMT body as `3 + sectionLen - 4` and slices up to it without
looking at the lower bound.  `SectionsFit` says of a sequence of packets that no section is so short.
Nothing else in the demuxer can fault, and every loop ends.
-/

namespace LingVoice.Srt

open Lib Lib.Slice Common List

/-! ## Sections that fit -/

/-- The PAT that a packet starts, if it is complete, has room for its fixed part and its checksum. -/
def PatFits (pkt : TsPacket) : Prop :=
  ∀ sec sectionLen, completeSection pkt 8 = some (sec, sectionLen) → 9 ≤ sectionLen

def programInfoLength (sec : Bytes) : Nat :=
  (uint16 (sec.getD 10 0) (sec.getD 11 0) &&& 0x0FFF).toNat

def PmtFits (pkt : TsPacket) : Prop :=
  ∀ sec sectionLen, completeSection pkt 12 = some (sec, sectionLen) →
    13 + programInfoLength sec ≤ sectionLen

/-- The packet is no table, or its section fits; `pmtPID` is the PID learned so far. -/
def Fits (pmtPID : UInt16) (pkt : TsPacket) : Prop :=
  (pkt.pid = pidPAT → PatFits pkt) ∧ (pmtPID ≠ 0 → pkt.pid = pmtPID → PmtFits pkt)

def nextPMT (pmtPID : UInt16) (pkt : TsPacket) : UInt16 :=
  if pkt.pid = pidPAT then
    match completeSection pkt 8 with
    | some (sec, sectionLen) => Session.programPID pmtPID ((sec.take (sectionLen - 1)).drop 8)
    | none => pmtPID
  else
    pmtPID

/-- Every packet fits, with the PMT PID that the ones before it have set. -/
def SectionsFit : UInt16 → List TsPacket → Prop
  | _, [] => True
  | pmtPID, pkt :: pkts => Fits pmtPID pkt ∧ SectionsFit (nextPMT pmtPID pkt) pkts

theorem sectionsFit_append (pmtPID : UInt16) (pkts more : List TsPacket) :
    SectionsFit pmtPID (pkts ++ more) ↔ SectionsFit pmtPID pkts ∧ SectionsFit (pkts.foldl nextPMT pmtPID) more := by
  induction pkts generalizing pmtPID with
  | nil => simp [SectionsFit]
  | cons pkt pkts ih => simp [SectionsFit, ih, and_assoc]

namespace Session

/-! ## One packet -/

variable (s : Session)

/-- The body of a section is cut out when its end is not before its start. -/
theorem slice_settles {sec : Bytes} {sectionLen : Nat} (start : Nat) (hlen : 3 + sectionLen ≤ sec.length) :
    Settles (slice sec start (3 + (sectionLen : Int) - 4)) .sliceBoundsOutOfRange (start + 1 ≤ sectionLen)
      (fun body => body = (sec.take (sectionLen - 1)).drop start) := by
  by_cases hroom : start + 1 ≤ sectionLen
  · have hend : 3 + (sectionLen : Int) - 4 = ((sectionLen - 1 : Nat) : Int) := by omega
    rw [hend]
    exact .of_ok (slice_eq_ok (by omega) (by omega)) hroom rfl
  · exact .of_error (slice_eq_error (by omega)) hroom

theorem parsePAT_settles {pkt : TsPacket} (hpid : pkt.pid = pidPAT) :
    Settles (s.parsePAT pkt) .sliceBoundsOutOfRange (PatFits pkt)
      (fun s' => s'.tsParser.pmtPID = nextPMT s.tsParser.pmtPID pkt ∧ s'.tsBuffer = s.tsBuffer) := by
  rw [parsePAT, sectionOf_eq (by decide)]
  cases hsec : completeSection pkt 8 with
  | none =>
    refine .of_ok (a := s) rfl ?_ ⟨?_, rfl⟩
    · simp [PatFits, hsec]
    · simp [nextPMT, hpid, hsec]
  | some found =>
    rcases found with ⟨sec, sectionLen⟩
    have hfits : 9 ≤ sectionLen ∧ True ↔ PatFits pkt := by simp [PatFits, hsec]
    refine ((slice_settles 8 (completeSection_some hsec).2).bind ?_).congr hfits
    rintro _ rfl
    refine .of_ok (congrArg (· >>= _) (patLoop_eq _ _ (by omega))) trivial ⟨?_, rfl⟩
    simp [nextPMT, hpid, hsec]

variable (pkt : TsPacket)

/-- Only the streams change. -/
theorem parsePMT_settles :
    Settles (s.parsePMT pkt) .sliceBoundsOutOfRange (PmtFits pkt)
      (fun s' => s'.tsParser.pmtPID = s.tsParser.pmtPID ∧ s'.tsBuffer = s.tsBuffer) := by
  rw [parsePMT, sectionOf_eq (by decide)]
  cases hsec : completeSection pkt 12 with
  | none =>
    refine .of_ok (a := s) rfl ?_ ⟨rfl, rfl⟩
    simp [PmtFits, hsec]
  | some found =>
    rcases found with ⟨sec, sectionLen⟩
    have hlen := completeSection_some hsec
    have hinfo := @uint16At_eq_ok sec 10 (by omega)
    show Settles (uint16At sec 10 >>= _) _ _ _
    rw [hinfo]
    have hfits : 12 + programInfoLength sec + 1 ≤ sectionLen ∧ True ↔ PmtFits pkt := by
      simp [PmtFits, hsec]
      omega
    refine ((slice_settles (12 + programInfoLength sec) hlen.2).bind ?_).congr hfits
    rintro _ rfl
    obtain ⟨t, hloop, hsame⟩ := @pmtLoop_ok _ _ s.tsParser 0 (Nat.lt_succ_self _)
    exact .of_ok (congrArg (· >>= _) hloop) trivial ⟨hsame, rfl⟩

theorem processPES_ok :
    ∃ s', s.processPES pkt = .ok s' ∧ s'.tsParser.pmtPID = s.tsParser.pmtPID ∧ s'.tsBuffer = s.tsBuffer := by
  unfold processPES
  cases hinfo : s.tsParser.streams pkt.pid with
  | none => exact ⟨s, rfl, rfl, rfl⟩
  | some info =>
    cases hstart : pkt.payloadUnitStart with
    | false => exact ⟨_, rfl, rfl, rfl⟩
    | true =>
      rcases s.flushPending_ok info with ⟨s', hflush, hsame⟩
      simp only [if_true, hflush, parsePESHeader_eq, bind, Except.bind]
      cases pesPayload pkt.payload with
      | some es | none =>
        refine ⟨_, rfl, ?_⟩
        rw [hsame]
        exact ⟨rfl, rfl⟩

theorem processTSPacket_settles :
    Settles (s.processTSPacket pkt) .sliceBoundsOutOfRange (Fits s.tsParser.pmtPID pkt)
      (fun s' => s'.tsParser.pmtPID = nextPMT s.tsParser.pmtPID pkt ∧ s'.tsBuffer = s.tsBuffer) := by
  unfold processTSPacket
  by_cases hpat : pkt.pid = pidPAT
  · rw [if_pos hpat]
    refine (s.parsePAT_settles hpat).congr ?_
    constructor
    · intro hfits
      refine ⟨fun _ => hfits, ?_⟩
      -- PID 0 is not a PMT PID once one is set
      intro hset hpmt
      exact absurd (hpmt.symm.trans hpat) hset
    · intro hfits
      exact hfits.1 hpat
  · have hnext : nextPMT s.tsParser.pmtPID pkt = s.tsParser.pmtPID := by
      rw [nextPMT, if_neg hpat]
    rw [if_neg hpat, hnext]
    by_cases hpmt : s.tsParser.pmtPID ≠ 0 ∧ pkt.pid = s.tsParser.pmtPID
    · rw [if_pos hpmt]
      refine (s.parsePMT_settles pkt).congr ?_
      constructor
      · intro hfits
        exact ⟨fun h => absurd h hpat, fun _ _ => hfits⟩
      · intro hfits
        exact hfits.2 hpmt.1 hpmt.2
    · rw [if_neg hpmt]
      rcases s.processPES_ok pkt with ⟨s', hok, hsame⟩
      refine .of_ok hok ⟨fun h => absurd h hpat, ?_⟩ hsame
      intro hset hpid
      exact absurd ⟨hset, hpid⟩ hpmt

/-! ## Cutting the buffer into packets -/

/-- Packets with an error flag or without a payload are counted but not looked at. -/
def ignored (pkt : TsPacket) : Bool :=
  pkt.transportError || pkt.payload.length == 0

/-- What stays of a buffer without a packet: all of it while it is short, and else its last byte. -/
def leftover (buf : Bytes) : Bytes :=
  if tsPacketSize ≤ buf.length then buf.drop (buf.length - 1) else buf

/-- The packets that `n` turns of the loop of `feedTSData` find in a buffer, without those it ignores,
and what stays in the buffer. -/
def cut : Nat → Bytes → List TsPacket × Bytes
  | 0, buf => ([], buf)
  | n + 1, buf =>
    match firstSync buf with
    | none => ([], leftover buf)
    | some k =>
      let pkt := packetOf ((buf.drop k).take tsPacketSize)
      let later := cut n ((buf.drop k).drop tsPacketSize)
      (if ignored pkt then later.1 else pkt :: later.1, later.2)

/-- What one packet does to the PMT PID. -/
def packetPMT (pmtPID : UInt16) (pkt : TsPacket) : UInt16 :=
  if ignored pkt then pmtPID else nextPMT pmtPID pkt

/-- What the bytes of a packet do once they are out of the buffer. -/
def process (s : Session) (p : Bytes) : Except Fault Session :=
  let s := { s with tsPackets := s.tsPackets + 1 }
  if ignored (packetOf p) then return s else s.processTSPacket (packetOf p)

theorem takePacket_eq {s : Session} (hlen : tsPacketSize ≤ s.tsBuffer.length) (hsync : s.tsBuffer.getD 0 0 = 0x47) :
    s.takePacket =
      process { s with tsBuffer := s.tsBuffer.drop tsPacketSize } (s.tsBuffer.take tsPacketSize) := by
  have htake : (s.tsBuffer.take tsPacketSize).length = 188 := by
    rw [length_take, Nat.min_eq_left hlen]
    rfl
  have hsync' : Mpegts.sync (s.tsBuffer.take tsPacketSize) = 0x47 := by
    rw [Mpegts.sync, getD_eq_getElem?_getD, getElem?_take_of_lt (by decide), ← getD_eq_getElem?_getD, hsync]
  have hfront : slice s.tsBuffer 0 tsPacketSize = .ok (s.tsBuffer.take tsPacketSize) :=
    slice_eq_ok (Nat.zero_le _) hlen
  have hparse := parseTSPacket_eq htake
  rw [if_pos hsync'] at hparse
  simp only [takePacket, hfront, slice_to_end hlen, hparse, bind, Except.bind, process, ignored, Bool.or_eq_true,
    beq_iff_eq]

theorem process_settles (s : Session) (p : Bytes) :
    Settles (s.process p) .sliceBoundsOutOfRange
      (ignored (packetOf p) = false → Fits s.tsParser.pmtPID (packetOf p))
      (fun s' => s'.tsBuffer = s.tsBuffer ∧ s'.tsParser.pmtPID = packetPMT s.tsParser.pmtPID (packetOf p)) := by
  rw [process, packetPMT]
  -- only a packet that is looked at can fault
  cases ignored (packetOf p) with
  | true => exact .of_ok rfl (by simp) ⟨rfl, rfl⟩
  | false =>
    have hprocess := processTSPacket_settles { s with tsPackets := s.tsPackets + 1 } (packetOf p)
    refine ⟨?_, ?_⟩
    · intro hfits
      rcases hprocess.returns (hfits rfl) with ⟨s', hs', hpmt, hbuffer⟩
      exact ⟨s', hs', hbuffer, hpmt⟩
    · intro hnot
      exact hprocess.faults (fun hfits => hnot (fun _ => hfits))

/-! ## Runs -/

theorem feedLoop_none (n : Nat) {s : Session} (hnone : firstSync s.tsBuffer = none) :
    feedLoop (n + 1) s = .ok { s with tsBuffer := leftover s.tsBuffer } := by
  by_cases hlong : tsPacketSize ≤ s.tsBuffer.length
  · have hsize : tsPacketSize = 188 := rfl
    have hfind := @findSync_eq s.tsBuffer (s.tsBuffer.length + 1) 0 (by omega)
    rw [drop_zero, hnone] at hfind
    simp only [feedLoop, if_pos hlong, hfind, bind, Except.bind, Option.map_none, leftover]
    rw [if_pos (by omega), slice_to_end (by omega)]
    rfl
  · rw [feedLoop, if_neg hlong, leftover, if_neg hlong]
    rfl

theorem feedLoop_some (n : Nat) {s : Session} {k : Nat} (hsome : firstSync s.tsBuffer = some k) :
    feedLoop (n + 1) s =
      process { s with tsBuffer := (s.tsBuffer.drop k).drop tsPacketSize } ((s.tsBuffer.drop k).take tsPacketSize) >>=
        feedLoop n := by
  have hsize : tsPacketSize = 188 := rfl
  rcases firstSync_some hsome with ⟨hend, hbyte⟩
  have hfind := @findSync_eq s.tsBuffer (s.tsBuffer.length + 1) 0 (by omega)
  rw [drop_zero, hsome, Option.map_some] at hfind
  have hlong : tsPacketSize ≤ s.tsBuffer.length := by omega
  have hwhole : tsPacketSize ≤ (s.tsBuffer.drop k).length := by
    rw [length_drop]
    omega
  have hfirst : (s.tsBuffer.drop k).getD 0 0 = 0x47 := by
    rw [getD_eq_getElem?_getD, getElem?_drop, Nat.add_zero, ← getD_eq_getElem?_getD, hbyte]
  have htake := @takePacket_eq { s with tsBuffer := s.tsBuffer.drop k } hwhole hfirst
  simp only [feedLoop, if_pos hlong, hfind, bind, Except.bind, Nat.add_zero,
    slice_to_end (show k ≤ s.tsBuffer.length by omega), if_neg (Nat.not_lt.2 hwhole), htake]

theorem feedLoop_settles (n : Nat) {s : Session} {buf : Bytes} {pmtPID : UInt16} (hbuffer : s.tsBuffer = buf)
    (hpmt : s.tsParser.pmtPID = pmtPID) (hn : buf.length < n) :
    Settles (feedLoop n s) .sliceBoundsOutOfRange (SectionsFit pmtPID (cut n buf).1)
      (fun s' => s'.tsBuffer = (cut n buf).2 ∧ s'.tsParser.pmtPID = (cut n buf).1.foldl nextPMT pmtPID) := by
  induction n generalizing s buf pmtPID with
  | zero => omega
  | succ n ih =>
    subst hbuffer hpmt
    cases hsync : firstSync s.tsBuffer with
    | none =>
      rw [feedLoop_none n hsync, cut, hsync]
      exact .of_ok rfl trivial ⟨rfl, rfl⟩
    | some k =>
      have hsize : tsPacketSize = 188 := rfl
      have hend := (firstSync_some hsync).1
      have htake := process_settles { s with tsBuffer := (s.tsBuffer.drop k).drop tsPacketSize }
        ((s.tsBuffer.drop k).take tsPacketSize)
      obtain ⟨pkt, hpkt⟩ : ∃ pkt, packetOf ((s.tsBuffer.drop k).take tsPacketSize) = pkt := ⟨_, rfl⟩
      rw [hpkt] at htake
      -- the rest of the buffer is shorter, with the PMT PID this packet has set
      have hturn := htake.bind fun s' h => ih h.1 h.2 (by rw [length_drop, length_drop]; omega)
      rw [← feedLoop_some n hsync] at hturn
      rw [cut, hsync]
      simp only [hpkt]
      -- an ignored packet is not among those that have to fit
      cases hignored : ignored pkt with
      | true =>
        rw [hignored, packetPMT, if_pos hignored] at hturn
        exact hturn.congr (by simp)
      | false =>
        rw [hignored, packetPMT, hignored] at hturn
        exact hturn.congr (by simp [SectionsFit])

/-- The packets that a sequence of calls processes, from what is in the buffer at first. -/
def received : Bytes → List Bytes → List TsPacket
  | _, [] => []
  | buf, data :: datas =>
    let found := cut ((buf ++ data).length + 1) (buf ++ data)
    found.1 ++ received found.2 datas

theorem feedAll_settles (datas : List Bytes) {s : Session} {buf : Bytes} {pmtPID : UInt16}
    (hbuffer : s.tsBuffer = buf) (hpmt : s.tsParser.pmtPID = pmtPID) :
    Settles (feedAll s datas) .sliceBoundsOutOfRange (SectionsFit pmtPID (received buf datas)) (fun _ => True) := by
  induction datas generalizing s buf pmtPID with
  | nil => exact .of_ok rfl trivial trivial
  | cons data datas ih =>
    subst hbuffer hpmt
    have hfeed := @feedLoop_settles ((s.tsBuffer ++ data).length + 1) { s with tsBuffer := s.tsBuffer ++ data } _ _ rfl
      rfl (Nat.lt_succ_self _)
    rw [received, sectionsFit_append]
    -- the next call starts from what this one has left in the buffer
    exact hfeed.bind fun s' h => ih h.1 h.2

/-- A sequence of calls of `feedTSData` on a new session returns, without a panic and with every loop
ended, exactly when each section it takes apart is long enough. -/
theorem feedAll_ok_iff (handler : Bool) (datas : List Bytes) :
    (∃ s, feedAll (newSession handler) datas = .ok s) ↔ SectionsFit 0 (received [] datas) :=
  (feedAll_settles datas rfl rfl).returns_iff

/-- A run that does not return ends with a slice out of range; no loop runs on. -/
theorem feedAll_error {handler : Bool} {datas : List Bytes}
    (h : (feedAll (newSession handler) datas).isOk = false) :
    feedAll (newSession handler) datas = .error .sliceBoundsOutOfRange := by
  have hsettles := @feedAll_settles datas (newSession handler) _ _ rfl rfl
  apply hsettles.faults
  intro hfits
  rcases hsettles.returns hfits with ⟨s, hs, _⟩
  rw [hs] at h
  exact nomatch h

def shortPAT : Bytes :=
  [0x47, 0x40, 0x00, 0x10, 0x00, 0x00, 0xB0, 0x00] ++ List.replicate 180 0xFF

/-- `sec[8 : 3+0-4]` -/
theorem shortPAT_panics : feedAll (newSession true) [shortPAT] = .error .sliceBoundsOutOfRange := by
  apply feedAll_error
  decide +kernel

end Session

end LingVoice.Srt

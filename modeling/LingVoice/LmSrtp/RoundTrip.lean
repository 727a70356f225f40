import LingVoice.LmSrtp.SessionSpec

/-!
# RoundTrip — a sender and a receiver over a whole run

`exchange` hands every output of `protect_rtp` to `unprotect_rtp` and checks that the packet comes
back.  Sender and receiver keep separate rollover counters.  They stay in step (`InStep`) as long as
the sequence number does not wrap; the first wrapped packet is encrypted and authenticated with the
old counter, while the receiver already expects the new one.
-/

namespace LingVoice.LmSrtp

open Lib List

/-! ## Headers -/

section Headers

variable {p : Bytes} (hlong : 12 ≤ p.length) (x : Bytes)

include hlong

/-- The fields of the header are before what follows it. -/
theorem field_take_append {i n : Nat} (hfield : i + n ≤ 12) : ((p.take 12 ++ x).drop i).take n = (p.drop i).take n := by
  rw [drop_append_of_le_length (by simp; omega), take_append_of_le_length (by simp; omega), drop_take, take_take,
    Nat.min_eq_left (by omega)]

theorem rtpSeq_take_append : rtpSeq (p.take 12 ++ x) = rtpSeq p := by
  rw [rtpSeq, rtpSeq, field_take_append hlong x (by decide)]

theorem rtpSsrc_take_append : rtpSsrc (p.take 12 ++ x) = rtpSsrc p := by
  rw [rtpSsrc, rtpSsrc, field_take_append hlong x (by decide)]

end Headers

/-- RTP packets of one SSRC whose sequence numbers go up by one, modulo `2 ^ 16`. -/
def RtpStream (ssrc : UInt32) : UInt16 → List Bytes → Prop
  | _, [] => True
  | seq, p :: ps => 12 ≤ p.length ∧ rtpSsrc p = ssrc ∧ rtpSeq p = seq ∧ RtpStream ssrc (seq + 1) ps

namespace SrtpSession

/-! ## Exchanging packets -/

/-- Protect each packet, unprotect the output in order; `none` as soon as a call fails or gives back
something else. -/
def exchange (suite : CipherSuite) :
    SrtpSession → SrtpSession → List Bytes → Option (SrtpSession × SrtpSession)
  | snd, rcv, [] => some (snd, rcv)
  | snd, rcv, p :: ps =>
    match (snd.protectRtp suite p).result with
    | .error _ => none
    | .ok c =>
      match (rcv.unprotectRtp suite c).result with
      | .error _ => none
      | .ok q =>
        if q = p then
          exchange suite (snd.protectRtp suite p).session (rcv.unprotectRtp suite c).session ps
        else
          none

variable {suite : CipherSuite}

theorem exchange_append {snd rcv snd' rcv' : SrtpSession}
    {ps qs : List Bytes} (h : exchange suite snd rcv ps = some (snd', rcv')) :
    exchange suite snd rcv (ps ++ qs) = exchange suite snd' rcv' qs := by
  induction ps generalizing snd rcv with
  | nil =>
    cases h
    rfl
  | cons p ps ih =>
    cases hprot : (snd.protectRtp suite p).result with
    | error f => simp [exchange, hprot] at h
    | ok c =>
      cases hunprot : (rcv.unprotectRtp suite c).result with
      | error f => simp [exchange, hprot, hunprot] at h
      | ok q =>
        by_cases hsame : q = p
        · simp only [exchange, hprot, hunprot, hsame, if_true] at h
          simp only [cons_append, exchange, hprot, hunprot, hsame, if_true]
          exact ih h
        · simp [exchange, hprot, hunprot, hsame] at h

/-- Two sessions that use the same keys for the same SSRC. -/
structure SharedKeys (snd rcv : SrtpSession) : Prop where
  config : rcv.config = snd.config
  ssrc : rcv.ssrc = snd.ssrc
  encryptionKey : rcv.encryptionKey = snd.encryptionKey
  authKey : rcv.authKey = snd.authKey
  saltKey : rcv.saltKey = snd.saltKey

theorem SharedKeys.trans {a b c : SrtpSession} (hab : SharedKeys a b) (hbc : SharedKeys b c) : SharedKeys a c :=
  ⟨hbc.config.trans hab.config, hbc.ssrc.trans hab.ssrc, hbc.encryptionKey.trans hab.encryptionKey,
    hbc.authKey.trans hab.authKey, hbc.saltKey.trans hab.saltKey⟩

/-- Before any wrap: both counters are 0, both have seen the same last sequence number, and the
receiver has accepted nothing from `next` on. -/
structure InStep (snd rcv : SrtpSession) (next : Nat) : Prop extends SharedKeys snd rcv where
  tagLen : snd.config.authTagLen ≤ 20
  sndRoc : snd.roc = 0
  rcvRoc : rcv.roc = 0
  lastSeq : rcv.lastSeq = snd.lastSeq
  lastSeq_le : snd.lastSeq.toNat ≤ next
  unseen : rcv.replayInitialized = true → rcv.lastIndex < next

variable {snd rcv : SrtpSession} {p : Bytes}

theorem framed_fields (hlong : 12 ≤ p.length) (enc : Bytes) {tag : Bytes} {n : Nat} (htag : tag.length = n) :
    (p.take 12 ++ enc ++ tag).length - n = (p.take 12 ++ enc).length ∧ rtpSeq (p.take 12 ++ enc ++ tag) = rtpSeq p := by
  rw [@length_append _ (p.take 12 ++ enc) tag, htag, append_assoc, rtpSeq_take_append hlong]
  exact ⟨Nat.add_sub_cancel .., rfl⟩

/-- What the receiver makes of an accepted packet: the header, and the payload decrypted under its
own estimate of the counter. -/
theorem unprotectRtp_framed {enc tag : Bytes} (hlong : 12 ≤ p.length) (htag : tag.length = rcv.config.authTagLen)
    (hacc : RtpAccepts suite rcv (p.take 12 ++ enc ++ tag)) :
    (rcv.unprotectRtp suite (p.take 12 ++ enc ++ tag)).result =
        .ok (p.take 12 ++ suite.applyKeystream rcv.encryptionKey
          (rcv.generateIv (rtpSeq p) (rcv.estimatedRoc (rtpSeq p))) enc) ∧
      (rcv.unprotectRtp suite (p.take 12 ++ enc ++ tag)).session = rcv.received (rtpSeq p) := by
  have hhead : (p.take 12).length = 12 := length_take_of_le hlong
  obtain ⟨hbodyLen, hseq⟩ := framed_fields hlong enc htag
  have hbody : (p.take 12 ++ enc).drop 12 = enc := drop_left' hhead
  have htake : (p.take 12 ++ enc ++ tag).take 12 = p.take 12 := by
    rw [append_assoc]
    exact take_left' hhead
  rw [unprotectRtp_eq hacc, hbodyLen, hseq, take_left]
  exact ⟨by simp only [hbody, htake], rfl⟩

/-- What the sender makes of a packet. -/
theorem exists_protected (suite : CipherSuite) (hkeys : SharedKeys snd rcv) (hlong : 12 ≤ p.length)
    (hssrc : rtpSsrc p = snd.ssrc) (htagLen : snd.config.authTagLen ≤ 20) :
    ∃ enc tag, enc = suite.applyKeystream snd.encryptionKey (snd.generateIv (rtpSeq p) snd.roc) (p.drop 12) ∧
      tag = (suite.hmac snd.authKey (p.take 12 ++ enc ++ toBe 4 snd.roc.toNat)).take snd.config.authTagLen ∧
      tag.length = rcv.config.authTagLen ∧ (snd.protectRtp suite p).result = .ok (p.take 12 ++ enc ++ tag) := by
  refine ⟨_, _, rfl, rfl, ?_, ?_⟩
  · simp [suite.length_hmac, htagLen, hkeys.config]
  · rw [protectRtp_eq hlong hssrc htagLen]

/-- With shared keys, a packet whose rollover counter the receiver estimates as the sender's is
accepted, unless it is a replay, and comes back unchanged. -/
theorem unprotectRtp_protectRtp (suite : CipherSuite) (hkeys : SharedKeys snd rcv)
    (hlong : 12 ≤ p.length) (hssrc : rtpSsrc p = snd.ssrc) (htagLen : snd.config.authTagLen ≤ 20)
    (hroc : rcv.estimatedRoc (rtpSeq p) = snd.roc) (hfresh : rcv.checkReplay (rcv.packetIndex (rtpSeq p)) = true) :
    ∃ c, (snd.protectRtp suite p).result = .ok c ∧
      (rcv.unprotectRtp suite c).result = .ok p ∧ (rcv.unprotectRtp suite c).session = rcv.received (rtpSeq p) := by
  obtain ⟨enc, tag, henc, htag, htagLength, hres⟩ := exists_protected suite hkeys hlong hssrc htagLen
  obtain ⟨hbodyLen, hseq⟩ := framed_fields hlong enc htagLength
  have hiv : rcv.generateIv (rtpSeq p) snd.roc = snd.generateIv (rtpSeq p) snd.roc := by
    simp [generateIv, ivFor, hkeys.saltKey, hkeys.ssrc]
  -- the receiver authenticates the sender's bytes with the sender's counter
  have hacc : RtpAccepts suite rcv (p.take 12 ++ enc ++ tag) := by
    refine ⟨?_, ?_, ?_, ?_, ?_⟩
    · simp only [length_append, length_take_of_le hlong, htagLength]
      omega
    · rw [append_assoc, rtpSsrc_take_append hlong, hssrc, hkeys.ssrc]
    · rw [hkeys.config]
      exact htagLen
    · rw [hbodyLen, hseq, hroc, take_left, drop_left, hkeys.authKey, hkeys.config, ← htag]
    · rw [hseq]
      exact hfresh
  rcases unprotectRtp_framed hlong htagLength hacc with ⟨hdec, hsess⟩
  refine ⟨p.take 12 ++ enc ++ tag, hres, ?_, hsess⟩
  rw [hdec, hroc, hiv, hkeys.encryptionKey, henc, applyKeystream_applyKeystream, take_append_drop]

/-- One packet whose sequence number has not wrapped. -/
theorem InStep.exchange_cons (suite : CipherSuite) {next : Nat} (ps : List Bytes) (hin : InStep snd rcv next)
    (hlong : 12 ≤ p.length) (hssrc : rtpSsrc p = snd.ssrc) (hseq : (rtpSeq p).toNat = next) :
    ∃ snd' rcv', exchange suite snd rcv (p :: ps) = exchange suite snd' rcv' ps ∧
      InStep snd' rcv' (next + 1) ∧ SharedKeys snd snd' ∧ snd'.lastSeq = rtpSeq p := by
  have hsndLe : snd.lastSeq.toNat ≤ (rtpSeq p).toNat := by
    rw [hseq]
    exact hin.lastSeq_le
  have hrcvLe : rcv.lastSeq.toNat ≤ (rtpSeq p).toNat := by
    rw [hin.lastSeq]
    exact hsndLe
  have hindex : rcv.packetIndex (rtpSeq p) = next := by
    rw [packetIndex_of_le hin.rcvRoc hrcvLe, hseq]
  have hroc : rcv.estimatedRoc (rtpSeq p) = 0 := estimatedRoc_of_le hin.rcvRoc hrcvLe
  have hfresh : rcv.checkReplay (rcv.packetIndex (rtpSeq p)) = true := by
    rw [hindex]
    cases hinit : rcv.replayInitialized with
    | false => simp [checkReplay, windowCheck, hinit]
    | true => simp [checkReplay, windowCheck, hinit, hin.unseen hinit]
  rcases unprotectRtp_protectRtp suite hin.toSharedKeys hlong hssrc hin.tagLen
    (hroc.trans hin.sndRoc.symm) hfresh with ⟨c, hprot, hunprot, hsess⟩
  have hsnd : (snd.protectRtp suite p).session = { snd with lastSeq := rtpSeq p } := by
    rw [protectRtp_eq hlong hssrc hin.tagLen]
    exact updateIndex_of_le hsndLe
  refine ⟨{ snd with lastSeq := rtpSeq p }, rcv.received (rtpSeq p), ?_, ?_, ⟨rfl, rfl, rfl, rfl, rfl⟩, rfl⟩
  · simp only [exchange, hprot, hunprot, if_true, hsnd, hsess]
  · -- the receiver's session is `rcv` with the new sequence number and replay state
    have hmoved : ({ rcv with roc := rcv.estimatedRoc (rtpSeq p) } : SrtpSession).updateIndex
        (rtpSeq p) = { rcv with roc := 0, lastSeq := rtpSeq p } := by
      rw [hroc]
      exact updateIndex_of_le (s := { rcv with roc := 0 }) hrcvLe
    have hlast : (rcv.received (rtpSeq p)).lastIndex ≤ next := by
      simp only [received, hmoved, updateReplay, hindex]
      cases hinit : rcv.replayInitialized with
      | false => simp
      | true =>
        have hlt := hin.unseen hinit
        simp [hlt]
    refine { hin with rcvRoc := ?_, lastSeq := ?_, lastSeq_le := ?_, unseen := ?_ }
    · simp [received, hmoved, updateReplay]
    · simp [received, hmoved, updateReplay]
    · simp only
      omega
    · intro _
      omega

/-- A run that stays below the wrap keeps both sides in step to its end. -/
theorem InStep.exchange_run (suite : CipherSuite) {packets : List Bytes} {seq : UInt16} {next : Nat}
    (hin : InStep snd rcv next) (hstream : RtpStream snd.ssrc seq packets) (hnext : packets ≠ [] → seq.toNat = next)
    (hbound : next + packets.length ≤ 65536) :
    ∃ snd' rcv', exchange suite snd rcv packets = some (snd', rcv') ∧
      InStep snd' rcv' (next + packets.length) ∧ SharedKeys snd snd' ∧
      (snd.lastSeq.toNat + 1 = next ∨ packets ≠ [] → snd'.lastSeq.toNat + 1 = next + packets.length) := by
  induction packets generalizing snd rcv seq next with
  | nil => exact ⟨snd, rcv, rfl, hin, ⟨rfl, rfl, rfl, rfl, rfl⟩, by simp⟩
  | cons p ps ih =>
    rcases hstream with ⟨hlong, hssrc, hseq, hrest⟩
    have hseqNext : (rtpSeq p).toNat = next := by
      rw [hseq]
      exact hnext (cons_ne_nil p ps)
    rw [length_cons] at hbound
    rcases hin.exchange_cons suite ps hlong hssrc hseqNext with ⟨snd₁, rcv₁, hstep, hin₁, hkeys₁, hlast₁⟩
    -- if another packet follows, the successor of `seq` is below the wrap
    have hsucc : ps ≠ [] → (seq + 1).toNat = next + 1 := by
      intro hmore
      have hpos := length_pos_of_ne_nil hmore
      rw [UInt16.toNat_add, UInt16.toNat_one, ← hseq]
      omega
    rw [← hkeys₁.ssrc] at hrest
    rcases ih hin₁ hrest hsucc (by omega) with ⟨snd', rcv', hrun, hin', hkeys', hlast'⟩
    have hcount : next + 1 + ps.length = next + (p :: ps).length := by
      rw [length_cons]
      omega
    rw [hcount] at hin' hlast'
    exact ⟨snd', rcv', hstep.trans hrun, hin', hkeys₁.trans hkeys', fun _ => hlast' (.inl (by rw [hlast₁, hseqNext]))⟩

/-! ## The wrap -/

/-- A suite under which the low byte of the rollover counter shows in every decrypted byte. -/
def rocSuite : CipherSuite where
  keystream _ iv n := List.replicate n (iv.getD 11 0)
  hmac _ _ := List.replicate 20 0
  length_keystream := by simp
  length_hmac := by simp

def numberedPacket (ssrc : UInt32) (seq : UInt16) : Bytes :=
  [0x80, 0] ++ toBe 2 seq.toNat ++ [0, 0, 0, 0] ++ toBe 4 ssrc.toNat ++ [0]

def numberedPackets (ssrc : UInt32) : UInt16 → Nat → List Bytes
  | _, 0 => []
  | seq, n + 1 => numberedPacket ssrc seq :: numberedPackets ssrc (seq + 1) n

variable (ssrc : UInt32) (seq : UInt16)

theorem rtpSeq_numberedPacket : rtpSeq (numberedPacket ssrc seq) = seq := by
  have hfield : ((numberedPacket ssrc seq).drop 2).take 2 = toBe 2 seq.toNat := by simp [numberedPacket, toBe]
  rw [rtpSeq, hfield, ofBe_toBe_of_lt seq.toNat_lt, UInt16.ofNat_toNat]

theorem rtpSsrc_numberedPacket : rtpSsrc (numberedPacket ssrc seq) = ssrc := by
  have hfield : ((numberedPacket ssrc seq).drop 8).take 4 = toBe 4 ssrc.toNat := by simp [numberedPacket, toBe]
  rw [rtpSsrc, hfield, ofBe_toBe_of_lt ssrc.toNat_lt, UInt32.ofNat_toNat]

theorem length_numberedPackets (n : Nat) : (numberedPackets ssrc seq n).length = n := by
  induction n generalizing seq with
  | zero => rfl
  | succ n ih => simp [numberedPackets, ih]

theorem rtpStream_numberedPackets (n : Nat) : RtpStream ssrc seq (numberedPackets ssrc seq n) := by
  induction n generalizing seq with
  | zero => trivial
  | succ n ih =>
    refine ⟨?_, rtpSsrc_numberedPacket ssrc seq, rtpSeq_numberedPacket ssrc seq, ih (seq + 1)⟩
    simp [numberedPacket]

theorem numberedPackets_add (m n : Nat) :
    numberedPackets ssrc seq (m + n) = numberedPackets ssrc seq m ++ numberedPackets ssrc (seq + UInt16.ofNat m) n := by
  induction m generalizing seq with
  | zero => simp [numberedPackets]
  | succ m ih =>
    have hseq : seq + 1 + UInt16.ofNat m = seq + UInt16.ofNat (m + 1) := by
      rw [UInt16.ofNat_add, UInt16.add_assoc, UInt16.add_comm 1]
      rfl
    rw [Nat.add_right_comm, numberedPackets, ih, hseq, numberedPackets, cons_append]

/-- Byte 11 of an IV carries the low byte of the rollover counter. -/
theorem getD_generateIv {s : SrtpSession} (hsalt : s.saltKey.length = 14) (seq : UInt16) (roc : UInt32) :
    (s.generateIv seq roc).getD 11 0 = s.saltKey.getD 11 0 ^^^ UInt8.ofNat roc.toNat := by
  have hseq := seq.toNat_lt
  have hroc : (roc.toNat * 65536 + seq.toNat) / 256 / 256 = roc.toNat := by omega
  rw [generateIv_eq_ivFor]
  simp [ivFor, xorBytes, toBe, getD_eq_getElem?_getD, hsalt, hroc]

/-- The packet that wraps does not come back: it was encrypted under counter 0 and is decrypted under
counter 1. -/
theorem InStep.exchange_wrap (hin : InStep snd rcv 65536) (hsalt : snd.saltKey.length = 14)
    (hlast : snd.lastSeq.toNat = 65535) (ps : List Bytes) :
    exchange rocSuite snd rcv (numberedPacket snd.ssrc 0 :: ps) = none := by
  have hlong : 12 ≤ (numberedPacket snd.ssrc 0).length := by simp [numberedPacket]
  have hseq : rtpSeq (numberedPacket snd.ssrc 0) = 0 := rtpSeq_numberedPacket snd.ssrc 0
  have hssrc : rtpSsrc (numberedPacket snd.ssrc 0) = snd.ssrc := rtpSsrc_numberedPacket snd.ssrc 0
  have hpayload : (numberedPacket snd.ssrc 0).drop 12 = [0] := by simp [numberedPacket, toBe]
  -- nothing else about the packet is used
  generalize numberedPacket snd.ssrc 0 = q at hlong hseq hssrc hpayload ⊢
  obtain ⟨enc, tag, henc, -, htag, hres⟩ := exists_protected rocSuite hin.toSharedKeys hlong hssrc hin.tagLen
  have hroc : rcv.estimatedRoc (rtpSeq q) = 1 := by
    rw [hseq]
    exact estimatedRoc_wrap hin.rcvRoc (by rw [hin.lastSeq]; exact hlast)
  -- whether or not the tag passes, the packet does not come back
  by_cases hacc : RtpAccepts rocSuite rcv (q.take 12 ++ enc ++ tag)
  · rcases unprotectRtp_framed hlong htag hacc with ⟨hdec, _⟩
    have hrcvSalt : rcv.saltKey.length = 14 := by
      rw [hin.saltKey]
      exact hsalt
    -- the two keystream bytes differ in the lowest bit
    have hdiff : q.take 12 ++ rocSuite.applyKeystream rcv.encryptionKey
        (rcv.generateIv (rtpSeq q) (rcv.estimatedRoc (rtpSeq q))) enc ≠ q := by
      intro heq
      have htail : rocSuite.applyKeystream rcv.encryptionKey
          (rcv.generateIv (rtpSeq q) (rcv.estimatedRoc (rtpSeq q))) enc = q.drop 12 := by
        apply append_cancel_left
        rw [heq, take_append_drop]
      simp only [henc, hpayload, CipherSuite.applyKeystream, rocSuite, xorBytes,
        getD_generateIv hsalt, getD_generateIv hrcvSalt, hroc, hin.sndRoc, hin.saltKey] at htail
      have hbyte : 0 ^^^ (snd.saltKey.getD 11 0 ^^^ 0) ^^^ (snd.saltKey.getD 11 0 ^^^ 1) = 0 := (List.cons.inj htail).1
      rw [UInt8.zero_xor, UInt8.xor_zero, ← UInt8.xor_assoc, UInt8.xor_self] at hbyte
      exact absurd hbyte (by decide)
    simp only [exchange, hres, hdec, if_neg hdiff]
  · rcases unprotectRtp_rejected hacc with ⟨f, hrej, _⟩
    simp only [exchange, hres, hrej]

theorem InStep.of_new {config : SrtpConfig} {ssrc : UInt32}
    (hsnd : new suite config ssrc = .ok snd) (hrcv : new suite config ssrc = .ok rcv)
    (htagLen : config.authTagLen ≤ 20) (next : Nat) : InStep snd rcv next := by
  have hsame : snd = rcv := by
    rw [hsnd] at hrcv
    exact Except.ok.inj hrcv
  subst hsame
  have hfresh := new_ok hsnd
  refine ⟨⟨rfl, rfl, rfl, rfl, rfl⟩, ?_, hfresh.roc_eq, hfresh.roc_eq, rfl, ?_, ?_⟩
  · rw [hfresh.config_eq]
    exact htagLen
  · simp [hfresh.lastSeq_eq]
  · simp [hfresh.replayInitialized_eq]

/-- Every run of `n` packets starting at `start` comes back unchanged, for every cipher and digest,
exactly when its sequence numbers do not wrap. -/
theorem exchange_complete_iff (config : SrtpConfig) (ssrc : UInt32) (start : UInt16) (n : Nat)
    (hkey : config.masterKey.length = 16) (hsalt : config.masterSalt.length = 14)
    (htagLen : config.authTagLen ≤ 20) :
    (∀ (suite : CipherSuite) (snd rcv : SrtpSession) (packets : List Bytes),
        new suite config ssrc = .ok snd → new suite config ssrc = .ok rcv →
        RtpStream ssrc start packets → packets.length = n →
        (exchange suite snd rcv packets).isSome = true) ↔
      start.toNat + n ≤ 65536 := by
  constructor
  · intro hall
    by_contra hwrap
    have hstart := start.toNat_lt
    rcases exists_new rocSuite ssrc hkey hsalt with ⟨s, hs⟩
    have hfresh := new_ok hs
    -- split the run at the wrap: `k` packets up to 65535, then sequence number 0
    obtain ⟨k, hk⟩ : ∃ k, k = 65536 - start.toNat := ⟨_, rfl⟩
    obtain ⟨m, hm⟩ : ∃ m, n = k + (m + 1) := ⟨n - k - 1, by omega⟩
    have hzero : start + UInt16.ofNat k = 0 := by
      apply UInt16.toNat_inj.1
      simp
      omega
    have hsplit : numberedPackets ssrc start n = numberedPackets ssrc start k ++
        numberedPacket ssrc 0 :: numberedPackets ssrc (0 + 1) m := by
      rw [hm, numberedPackets_add, hzero, numberedPackets]
    have hin : InStep s s start.toNat := InStep.of_new hs hs htagLen _
    have hstream : RtpStream s.ssrc start (numberedPackets ssrc start k) := by
      rw [hfresh.ssrc_eq]
      exact rtpStream_numberedPackets ssrc start k
    rcases hin.exchange_run rocSuite hstream (fun _ => rfl) (by rw [length_numberedPackets]; omega) with
      ⟨snd', rcv', hrun, hin', hkeys, hlast'⟩
    rw [length_numberedPackets, show start.toNat + k = 65536 by omega] at hin' hlast'
    have hnonempty : numberedPackets ssrc start k ≠ [] := by
      apply ne_nil_of_length_pos
      rw [length_numberedPackets]
      omega
    have hlast : snd'.lastSeq.toNat = 65535 := Nat.succ.inj (hlast' (.inr hnonempty))
    have hsome := hall rocSuite s s (numberedPackets ssrc start n) hs hs
      (rtpStream_numberedPackets ssrc start n) (length_numberedPackets ssrc start n)
    have hsalt' : snd'.saltKey.length = 14 := by
      rw [hkeys.saltKey]
      exact hfresh.length_saltKey
    have hnone := hin'.exchange_wrap hsalt' hlast (numberedPackets ssrc (0 + 1) m)
    rw [hkeys.ssrc, hfresh.ssrc_eq] at hnone
    rw [hsplit, exchange_append hrun, hnone] at hsome
    cases hsome
  · intro hbound suite snd rcv packets hsnd hrcv hstream hlen
    have hin : InStep snd rcv start.toNat := InStep.of_new hsnd hrcv htagLen _
    have hstream' : RtpStream snd.ssrc start packets := by
      rw [(new_ok hsnd).ssrc_eq]
      exact hstream
    rcases hin.exchange_run suite hstream' (fun _ => rfl) (by rw [hlen]; exact hbound) with
      ⟨snd', rcv', hrun, _, _, _⟩
    simp [hrun]

/-- Packets 1 and 2 of a fresh session with the default configuration come back. -/
theorem exchange_complete_iff_two_packets :
    ∃ s, new echoSuite SrtpConfig.default 0 = .ok s ∧
      (exchange echoSuite s s (numberedPackets 0 1 2)).isSome = true := by
  refine ⟨_, rfl, ?_⟩
  exact (exchange_complete_iff SrtpConfig.default 0 1 2 rfl rfl (by decide)).2 (by decide)
    echoSuite _ _ _ rfl rfl (rtpStream_numberedPackets 0 1 2) rfl

/-- Packets 65535 and 0: the second fails authentication at the receiver. -/
theorem exchange_fails_at_wrap :
    ∃ s snd rcv c, new echoSuite SrtpConfig.default 0 = .ok s ∧
      RtpStream 0 65535 (numberedPackets 0 65535 2) ∧
      exchange echoSuite s s (numberedPackets 0 65535 1) = some (snd, rcv) ∧
      (snd.protectRtp echoSuite (numberedPacket 0 0)).result = .ok c ∧
      (rcv.unprotectRtp echoSuite c).result = .error (.err .authenticationFailed) ∧
      exchange echoSuite s s (numberedPackets 0 65535 2) = none := by
  refine ⟨_, _, _, _, rfl, rtpStream_numberedPackets 0 65535 2, rfl, rfl, rfl, by decide +kernel⟩

end SrtpSession

end LingVoice.LmSrtp

import LingVoice.LmSrtp.Session

/-!
# SessionSpec — what each session operation can do

One lemma per operation, so that the proofs about runs never unfold an operation again.
-/

namespace LingVoice.LmSrtp

open Lib List Nat

/-! ## The constant-time comparison -/

theorem foldl_or_eq_zero_iff (ps : List (UInt8 × UInt8)) (acc : UInt8) :
    ps.foldl (fun diff p => diff ||| (p.1 ^^^ p.2)) acc = 0 ↔ acc = 0 ∧ ∀ p ∈ ps, p.1 = p.2 := by
  induction ps generalizing acc with
  | nil => simp
  | cons p ps ih =>
    have hstep : acc ||| (p.1 ^^^ p.2) = 0 ↔ acc = 0 ∧ p.1 = p.2 := by
      rw [UInt8.or_eq_zero_iff, UInt8.xor_eq_zero_iff]
    simp only [foldl_cons, ih, hstep, mem_cons, forall_eq_or_imp]
    exact and_assoc

theorem ctEq_iff (a b : Bytes) : ctEq a b = true ↔ a = b := by
  unfold ctEq
  by_cases hlen : a.length = b.length
  · have hfold := foldl_or_eq_zero_iff (zip a b) 0
    have hzip : (∀ p ∈ zip a b, p.1 = p.2) ↔ a = b := by
      rw [← forall₂_eq_eq_eq, forall₂_iff_zip, and_iff_right hlen, Prod.forall]
    rw [hzip] at hfold
    simpa [hlen] using hfold
  · have hne : a ≠ b := by
      intro heq
      exact hlen (by rw [heq])
    simp [hlen, hne]

@[simp] theorem length_applyKeystream (suite : CipherSuite) (key iv data : Bytes) :
    (suite.applyKeystream key iv data).length = data.length := by
  simp [CipherSuite.applyKeystream, suite.length_keystream]

/-- Decrypting with the key and IV of the encryption gives the data back. -/
theorem applyKeystream_applyKeystream (suite : CipherSuite) (key iv data : Bytes) :
    suite.applyKeystream key iv (suite.applyKeystream key iv data) = data := by
  have hlen := length_applyKeystream suite key iv data
  unfold CipherSuite.applyKeystream at hlen ⊢
  rw [hlen]
  exact xorBytes_cancel (by simp [suite.length_keystream])

/-- A small suite for concrete runs: the keystream repeats the IV, the digest adds up the message. -/
def echoSuite : CipherSuite where
  keystream _ iv n := (List.range n).map fun i => iv.getD (i % 16) 0
  hmac _ msg := List.replicate 20 (msg.foldl (· + ·) 0)
  length_keystream := by simp
  length_hmac := by simp

namespace SrtpSession

variable {suite : CipherSuite} {s : SrtpSession} {p : Bytes}

/-! ## Fresh sessions -/

/-- The state `new` leaves for the operations: nothing sent, nothing received. -/
structure IsFresh (suite : CipherSuite) (config : SrtpConfig) (ssrc : UInt32) (s : SrtpSession) :
    Prop where
  config_eq : s.config = config
  ssrc_eq : s.ssrc = ssrc
  roc_eq : s.roc = 0
  lastSeq_eq : s.lastSeq = 0
  srtcpIndex_eq : s.srtcpIndex = 0
  replayInitialized_eq : s.replayInitialized = false
  lastIndex_eq : s.lastIndex = 0
  replayBitmap_eq : s.replayBitmap = List.replicate ((config.replayWindowSize.toNat + 63) / 64) 0
  length_saltKey : s.saltKey.length = 14
  encryptionKey_eq : s.encryptionKey =
    deriveKey suite config.masterKey config.masterSalt keyIdEncryption ssrc 16

variable {config : SrtpConfig} {seq : UInt16}

theorem new_ok {ssrc : UInt32} (h : new suite config ssrc = .ok s) : IsFresh suite config ssrc s := by
  unfold new at h
  split at h
  · cases h
  · split at h
    · cases h
    · cases h
      refine ⟨rfl, rfl, rfl, rfl, rfl, rfl, rfl, rfl, ?_, rfl⟩
      simp [deriveSalt, deriveKey]

theorem exists_new (suite : CipherSuite) (ssrc : UInt32)
    (hkey : config.masterKey.length = 16) (hsalt : config.masterSalt.length = 14) :
    ∃ s, new suite config ssrc = .ok s := by
  simp [new, hkey, hsalt]

/-! ## Initialization vectors -/

/-- Only the low 48 bits of the index enter an IV, and all of them do. -/
theorem ivFor_eq_iff (hsalt : s.saltKey.length = 14) {i j : Nat} : s.ivFor i = s.ivFor j ↔ i % 2 ^ 48 = j % 2 ^ 48 := by
  have hpow : (2 : Nat) ^ 48 = 256 ^ 6 := by
    norm_num
  rw [hpow, ← toBe_eq_iff, ← drop_toBe 2 6 i, ← drop_toBe 2 6 j]
  constructor
  · intro heq
    -- SSRC and salt are the same on both sides and cancel
    have hmask := xorBytes_right_injective (by simp [hsalt]) (by simp [hsalt]) heq
    simpa using hmask
  · intro heq
    simp only [ivFor]
    rw [heq]

theorem shiftLeft_or_eq {a b : Nat} (hb : b < 65536) : a <<< 16 ||| b = a * 65536 + b := by
  rw [← shiftLeft_add_eq_or_of_lt hb, shiftLeft_eq]

theorem generateIv_eq_ivFor (seq : UInt16) (roc : UInt32) :
    s.generateIv seq roc = s.ivFor (roc.toNat * 65536 + seq.toNat) := by
  rw [generateIv, shiftLeft_or_eq seq.toNat_lt]

/-! ## The rollover counter -/

/-- A sequence number at or above the last one keeps the counter. -/
theorem packetIndex_of_le (hroc : s.roc = 0) (hle : s.lastSeq.toNat ≤ seq.toNat) : s.packetIndex seq = seq.toNat := by
  -- the first branch of `packet_index` asks for a smaller sequence number
  have hlt : ¬ (seq.toNat + 0x8000 < s.lastSeq.toNat + 0x10000 ∧ seq.toNat < s.lastSeq.toNat) := by omega
  have hzero : s.roc.toNat = 0 := by
    rw [hroc]
    rfl
  have hkeep : 0 <<< 16 ||| seq.toNat = seq.toNat := by
    rw [zero_shiftLeft, zero_or]
  simp only [packetIndex, hzero, if_neg hlt, hkeep, lt_irrefl, ite_self]

theorem estimatedRoc_of_le (hroc : s.roc = 0) (hle : s.lastSeq.toNat ≤ seq.toNat) : s.estimatedRoc seq = 0 := by
  have hseq := seq.toNat_lt
  have hzero : seq.toNat >>> 16 = 0 := by omega
  simp [estimatedRoc, packetIndex_of_le hroc hle, hzero]

/-- The first packet after the largest sequence number belongs to the next counter. -/
theorem estimatedRoc_wrap (hroc : s.roc = 0) (hlast : s.lastSeq.toNat = 65535) : s.estimatedRoc 0 = 1 := by
  have hseq : (0 : UInt16).toNat = 0 := rfl
  have hzero : s.roc.toNat = 0 := by
    rw [hroc]
    rfl
  have hwrap : (0 : Nat) + 0x8000 < 65535 + 0x10000 ∧ (0 : Nat) < 65535 := by omega
  have hhigh : (0x8000 : Nat) < 65535 ∧ (0 : Nat) < 0x4000 := by omega
  simp only [estimatedRoc, packetIndex, hseq, hlast, hzero, if_pos hwrap, if_pos hhigh]
  decide

/-- Where the tests of `packet_index` see a wrap exactly when the number is more than half the range behind. -/
def Estimable (s : SrtpSession) (i : Nat) : Prop :=
  i % 2 ^ 16 < s.lastSeq.toNat →
    (0x8000 < s.lastSeq.toNat ∧ i % 2 ^ 16 < 0x4000 ↔ i % 2 ^ 16 + 2 ^ 15 < s.lastSeq.toNat)

/-- An index less than half the range away from the last one is estimated exactly where the tests see the wraps. -/
theorem packetIndex_eq_iff (s : SrtpSession) (i : Nat) (hroc : 1 ≤ s.roc.toNat ∧ s.roc.toNat < 2 ^ 32 - 1)
    (hahead : i < s.roc.toNat * 2 ^ 16 + s.lastSeq.toNat + 2 ^ 15)
    (hbehind : s.roc.toNat * 2 ^ 16 + s.lastSeq.toNat < i + 2 ^ 15) :
    s.packetIndex (UInt16.ofNat i) = i ↔ s.Estimable i := by
  have hlast := s.lastSeq.toNat_lt
  have hindex (roc : Nat) : roc <<< 16 ||| i % 2 ^ 16 = roc * 65536 + i % 2 ^ 16 :=
    shiftLeft_or_eq (mod_lt _ (by decide))
  simp only [packetIndex, UInt16.toNat_ofNat', hindex, Estimable]
  -- in each branch the counter is off by at most one, and the distance tells by how much
  split_ifs
  all_goals omega

def stateAt (roc : UInt32) (lastSeq : UInt16) : SrtpSession :=
  ⟨.default, 0, [], [], [], [], 0, false, [], 0, false, 0, roc, lastSeq⟩

theorem packetIndex_next_but_one : (stateAt 1 0x8001).packetIndex (UInt16.ofNat 0x18003) = 0x18003 :=
  (packetIndex_eq_iff (stateAt 1 0x8001) 0x18003 (by decide) (by decide) (by decide)).2 (by unfold Estimable; decide)

/-- A packet that is 0x4002 late is taken for one ahead. -/
theorem packetIndex_late : (stateAt 1 0x8001).packetIndex (UInt16.ofNat 0x13FFF) = 0x23FFF := by decide

theorem updateIndex_of_le (hle : s.lastSeq.toNat ≤ seq.toNat) : s.updateIndex seq = { s with lastSeq := seq } := by
  have hlt : ¬ seq < s.lastSeq := by
    rw [UInt16.lt_iff_toNat_lt]
    omega
  simp [updateIndex, hlt]

/-! ## Sending -/

theorem protectRtp_eq (hlong : 12 ≤ p.length) (hssrc : rtpSsrc p = s.ssrc) (htagLen : s.config.authTagLen ≤ 20) :
    s.protectRtp suite p =
      { session := s.updateIndex (rtpSeq p)
        result := .ok (p.take 12 ++
          suite.applyKeystream s.encryptionKey (s.generateIv (rtpSeq p) s.roc) (p.drop 12) ++
          (suite.hmac s.authKey (p.take 12 ++
            suite.applyKeystream s.encryptionKey (s.generateIv (rtpSeq p) s.roc) (p.drop 12) ++
            toBe 4 s.roc.toNat)).take s.config.authTagLen)
        aesCm := [⟨s.encryptionKey, s.generateIv (rtpSeq p) s.roc⟩] } := by
  have hlong' : ¬ p.length < 12 := not_lt.2 hlong
  have htagLen' : ¬ 20 < s.config.authTagLen := not_lt.2 htagLen
  simp [protectRtp, hlong', hssrc, htagLen']

/-- A packet that is too short or carries another SSRC is refused before anything is encrypted. -/
theorem protectRtp_rejected (h : ¬ (12 ≤ p.length ∧ rtpSsrc p = s.ssrc)) : ∃ e, s.protectRtp suite p = s.reject e := by
  by_cases hlong : p.length < 12
  · refine ⟨.packetTooShort p.length, ?_⟩
    simp only [protectRtp, if_pos hlong]
  · have hssrc : rtpSsrc p ≠ s.ssrc := by
      intro heq
      exact h ⟨not_lt.1 hlong, heq⟩
    refine ⟨.ssrcMismatch s.ssrc (rtpSsrc p), ?_⟩
    simp only [protectRtp, if_neg hlong, if_pos hssrc]

theorem protectRtcp_rejected (h : ¬ 8 ≤ p.length) : ∃ e, s.protectRtcp suite p = s.reject e := by
  refine ⟨.packetTooShort p.length, ?_⟩
  simp only [protectRtcp, if_pos (Nat.lt_of_not_le h)]

/-- The session after an RTCP packet was sent: only the 31-bit counter has moved. -/
def sentRtcp (s : SrtpSession) : SrtpSession :=
  { s with srtcpIndex := (s.srtcpIndex + 1) &&& 0x7FFFFFFF }

theorem protectRtcp_sends (h : 8 ≤ p.length) :
    (s.protectRtcp suite p).session = s.sentRtcp ∧
      (s.protectRtcp suite p).aesCm = [⟨s.encryptionKey, s.ivFor (s.srtcpIndex.toNat * 65536)⟩] ∧
      ((s.protectRtcp suite p).result = .error .panic ↔ 20 < s.config.authTagLen) := by
  have hlong : ¬ p.length < 8 := not_lt.2 h
  have hiv : s.srtcpIv s.srtcpIndex = s.ivFor (s.srtcpIndex.toNat * 65536) := by
    rw [srtcpIv, shiftLeft_eq]
  -- the counter has moved and the payload is encrypted before the tag is cut
  by_cases htagLen : 20 < s.config.authTagLen
  · simp [protectRtcp, sentRtcp, hlong, htagLen, hiv]
  · simp [protectRtcp, sentRtcp, hlong, htagLen, hiv]

theorem sentRtcp_srtcpIndex (h : s.srtcpIndex.toNat + 1 < 2 ^ 31) :
    s.sentRtcp.srtcpIndex.toNat = s.srtcpIndex.toNat + 1 := by
  have hmask : (0x7FFFFFFF : UInt32).toNat = 2 ^ 31 - 1 := rfl
  have hone : (1 : UInt32).toNat = 1 := rfl
  rw [sentRtcp, UInt32.toNat_and, UInt32.toNat_add, hmask, hone, and_two_pow_sub_one_eq_mod]
  omega

/-! ## Receiving RTP -/

/-- The checks `unprotect_rtp` makes, in its order. -/
structure RtpAccepts (suite : CipherSuite) (s : SrtpSession) (p : Bytes) : Prop where
  long : 12 + s.config.authTagLen ≤ p.length
  ssrc : rtpSsrc p = s.ssrc
  tagLen : s.config.authTagLen ≤ 20
  tag : (suite.hmac s.authKey (p.take (p.length - s.config.authTagLen) ++
      toBe 4 (s.estimatedRoc (rtpSeq p)).toNat)).take s.config.authTagLen =
    p.drop (p.length - s.config.authTagLen)
  fresh : s.checkReplay (s.packetIndex (rtpSeq p)) = true

def received (s : SrtpSession) (seq : UInt16) : SrtpSession :=
  (({ s with roc := s.estimatedRoc seq }).updateIndex seq).updateReplay (s.packetIndex seq)

theorem unprotectRtp_eq (h : RtpAccepts suite s p) :
    s.unprotectRtp suite p =
      { session := s.received (rtpSeq p)
        result := .ok (p.take 12 ++
          suite.applyKeystream s.encryptionKey
            (s.generateIv (rtpSeq p) (s.estimatedRoc (rtpSeq p)))
            ((p.take (p.length - s.config.authTagLen)).drop 12))
        aesCm :=
          [⟨s.encryptionKey, s.generateIv (rtpSeq p) (s.estimatedRoc (rtpSeq p))⟩] } := by
  have hlong : ¬ p.length < 12 + s.config.authTagLen := not_lt.2 h.long
  have htagLen : ¬ 20 < s.config.authTagLen := not_lt.2 h.tagLen
  have htag := (ctEq_iff _ _).2 h.tag
  simp [unprotectRtp, received, hlong, htagLen, h.ssrc, h.fresh, htag]

/-- A call that fails one of the checks changes nothing. -/
theorem unprotectRtp_rejected (h : ¬ RtpAccepts suite s p) :
    ∃ f, (s.unprotectRtp suite p).result = .error f ∧ (s.unprotectRtp suite p).session = s := by
  unfold unprotectRtp reject
  -- one case for each check, in the order of the source
  by_cases hlong : p.length < 12 + s.config.authTagLen
  · simp [hlong]
  by_cases hssrc : rtpSsrc p = s.ssrc
  · by_cases htagLen : 20 < s.config.authTagLen
    · simp [hlong, hssrc, htagLen]
    by_cases htag : ctEq ((suite.hmac s.authKey (p.take (p.length - s.config.authTagLen) ++
        toBe 4 (s.estimatedRoc (rtpSeq p)).toNat)).take s.config.authTagLen)
          (p.drop (p.length - s.config.authTagLen)) = true
    · by_cases hfresh : s.checkReplay (s.packetIndex (rtpSeq p)) = true
      · exact absurd ⟨not_lt.1 hlong, hssrc, not_lt.1 htagLen, (ctEq_iff _ _).1 htag, hfresh⟩ h
      · simp [hlong, hssrc, htagLen, htag, hfresh]
    · simp [hlong, hssrc, htagLen, htag]
  · simp [hlong, hssrc]

/-! ## Receiving RTCP -/

/-- The checks `unprotect_rtcp` makes: length and authentication tag, and nothing else. -/
@[mk_iff] structure RtcpAccepts (suite : CipherSuite) (s : SrtpSession) (p : Bytes) : Prop where
  long : 8 + 4 + s.config.authTagLen ≤ p.length
  tagLen : s.config.authTagLen ≤ 20
  tag : (suite.hmac s.authKey (p.take (p.length - s.config.authTagLen))).take
      s.config.authTagLen = p.drop (p.length - s.config.authTagLen)

theorem unprotectRtcp_session : (s.unprotectRtcp suite p).session = s := by
  simp only [unprotectRtcp, reject]
  repeat' split
  all_goals rfl

theorem unprotectRtcp_ok_iff : (∃ q, (s.unprotectRtcp suite p).result = .ok q) ↔ RtcpAccepts suite s p := by
  rw [rtcpAccepts_iff, ← ctEq_iff]
  simp only [unprotectRtcp, reject]
  by_cases hlong : p.length < 8 + 4 + s.config.authTagLen
  · simp [hlong, not_le.2 hlong]
  by_cases htagLen : 20 < s.config.authTagLen
  · simp [hlong, htagLen, not_le.2 htagLen]
  by_cases htag : ctEq ((suite.hmac s.authKey (p.take (p.length - s.config.authTagLen))).take
      s.config.authTagLen) (p.drop (p.length - s.config.authTagLen)) = true
  · -- the E flag decides about decryption, not about acceptance
    by_cases hflag : (s.srtcpIndexWithE p >>> 31) &&& 1 = 1
    · simp [hlong, htagLen, htag, hflag, not_lt.1 hlong, not_lt.1 htagLen]
    · simp [hlong, htagLen, htag, hflag, not_lt.1 hlong, not_lt.1 htagLen]
  · simp [hlong, htagLen, htag]

end SrtpSession

end LingVoice.LmSrtp

import Mathlib.Data.List.Nodup
import LingVoice.LmSrtp.RoundTrip

/-!
# Keystream — which `(key, IV)` pairs a sender uses

`protectLog` collects the AES-CM runs of any interleaving of `protect_rtp` and `protect_rtcp`.  All
of them use the session's one encryption key, so a pair repeats exactly when two 48-bit indices
repeat.  RTP packet number `k` uses `rtpNonce start k`: the packet that wraps still counts with the
old rollover counter, so it uses an index 65536 too low.  RTCP packet number `j` uses `j * 65536`,
which is the index of the RTP packet with sequence number 0 and counter `j`.
-/

namespace LingVoice.LmSrtp

open Lib List Nat

/-! ## Runs of the sender -/

inductive ProtectCall
  | rtp (packet : Bytes)
  | rtcp (packet : Bytes)
  deriving DecidableEq, Repr

namespace SrtpSession

def protectCall (suite : CipherSuite) (s : SrtpSession) : ProtectCall → Outcome
  | .rtp packet => s.protectRtp suite packet
  | .rtcp packet => s.protectRtcp suite packet

/-- The AES-CM runs of a sequence of calls; a panic ends it. -/
def protectLog (suite : CipherSuite) : SrtpSession → List ProtectCall → List AesCmRun
  | _, [] => []
  | s, c :: cs =>
    if (s.protectCall suite c).result = .error .panic then
      (s.protectCall suite c).aesCm
    else
      (s.protectCall suite c).aesCm ++ protectLog suite (s.protectCall suite c).session cs

end SrtpSession

/-- The RTP packets that pass the checks of `protect_rtp` for `ssrc`, in call order. -/
def rtpPackets (ssrc : UInt32) : List ProtectCall → List Bytes
  | [] => []
  | .rtp p :: cs =>
    if 12 ≤ p.length ∧ rtpSsrc p = ssrc then p :: rtpPackets ssrc cs else rtpPackets ssrc cs
  | .rtcp _ :: cs => rtpPackets ssrc cs

/-- The number of RTCP packets that pass the check of `protect_rtcp`. -/
def rtcpCount : List ProtectCall → Nat
  | [] => 0
  | .rtp _ :: cs => rtcpCount cs
  | .rtcp p :: cs => if 8 ≤ p.length then rtcpCount cs + 1 else rtcpCount cs

/-! ## Indices -/

/-- The 48-bit index packet number `k` of a run starting at `start` is encrypted with. -/
def rtpNonce (start k : Nat) : Nat :=
  if (start + k) % 65536 = 0 ∧ 0 < k then
    (start + k - 65536) % 2 ^ 48
  else
    (start + k) % 2 ^ 48

theorem rtpNonce_lt (start k : Nat) : rtpNonce start k < 2 ^ 48 := by
  unfold rtpNonce
  split
  · omega
  · omega

/-- The delayed counter maps the packets with sequence number 0 one slot down, so only the two
lowest of them can meet, and only when the run starts with one. -/
theorem rtpNonce_inj_iff {start n : Nat} (hstart : start < 65536) (hn : n < 2 ^ 48) :
    (∀ i < n, ∀ k < n, rtpNonce start i = rtpNonce start k → i = k) ↔ start ≠ 0 ∨ n ≤ 65536 := by
  constructor
  · intro hinj
    by_contra hnot
    -- the second packet with sequence number 0 still has counter 0
    have heq : rtpNonce start 0 = rtpNonce start 65536 := by simp [rtpNonce, show start = 0 by omega]
    have := hinj 0 (by omega) 65536 (by omega) heq
    omega
  · intro hcond i hi k hk heq
    -- equal indices have equal sequence numbers, so both packets wrap or neither does
    unfold rtpNonce at heq
    split at heq
    · split at heq
      · omega
      · omega
    · split at heq
      · omega
      · omega

/-- The sender's counters after `k` RTP and `j` RTCP packets. -/
structure Sent (start k j : Nat) (s : SrtpSession) : Prop where
  roc : s.roc.toNat = (start + k - 1) / 65536 % 2 ^ 32
  lastSeq : 0 < k → s.lastSeq.toNat = (start + k - 1) % 65536
  first : k = 0 → s.lastSeq.toNat = 0
  srtcpIndex : s.srtcpIndex.toNat = j

namespace Sent

variable {start k j : Nat} {s : SrtpSession} {seq : UInt16}

/-- The index of the next RTP packet. -/
theorem nonce (hs : Sent start k j s) (hstart : start < 65536) (hseq : seq.toNat = (start + k) % 65536) :
    s.roc.toNat * 65536 + seq.toNat = rtpNonce start k := by
  have hroc := hs.roc
  unfold rtpNonce
  split
  · omega
  · by_cases hk : k = 0
    · subst hk
      omega
    · omega

theorem sendRtp (hs : Sent start k j s) (hstart : start < 65536)
    (hseq : seq.toNat = (start + k) % 65536) : Sent start (k + 1) j (s.updateIndex seq) := by
  have hroc := hs.roc
  have hlt : seq < s.lastSeq ↔ seq.toNat < s.lastSeq.toNat := UInt16.lt_iff_toNat_lt
  refine ⟨?_, ?_, ?_, hs.srtcpIndex⟩
  · by_cases hk : k = 0
    · -- the first packet never counts as a wrap
      have hlast := hs.first hk
      have hno : ¬ seq < s.lastSeq := by
        rw [hlt]
        omega
      simp only [SrtpSession.updateIndex, hno, false_and, if_false]
      omega
    · have hlast := hs.lastSeq (by omega)
      by_cases hwrap : (start + k) % 65536 = 0
      · -- from 65535 to 0: the difference is above half the range
        have hsub : (s.lastSeq - seq).toNat = s.lastSeq.toNat - seq.toNat := by
          apply UInt16.toNat_sub_of_le
          rw [UInt16.le_iff_toNat_le]
          omega
        have hyes : seq < s.lastSeq ∧ 0x8000 < s.lastSeq - seq := by
          rw [hlt, UInt16.lt_iff_toNat_lt, hsub]
          have hconst : (0x8000 : UInt16).toNat = 32768 := rfl
          omega
        simp only [SrtpSession.updateIndex, hyes, and_self, if_true]
        rw [UInt32.toNat_add, UInt32.toNat_one]
        omega
      · have hno : ¬ seq < s.lastSeq := by
          rw [hlt]
          omega
        simp only [SrtpSession.updateIndex, hno, false_and, if_false]
        omega
  · intro _
    simp only [SrtpSession.updateIndex]
    omega
  · intro hzero
    omega

end Sent

namespace SrtpSession

variable {suite : CipherSuite} {base s : SrtpSession} {calls : List ProtectCall}
  {start k j : Nat} {seq : UInt16}

/-! ## The log as a set of indices -/

def runAt (s : SrtpSession) (index : Nat) : AesCmRun :=
  ⟨s.encryptionKey, s.ivFor index⟩

theorem runAt_eq_iff (hsalt : s.saltKey.length = 14) {a b : Nat} : s.runAt a = s.runAt b ↔ a % 2 ^ 48 = b % 2 ^ 48 := by
  rw [← ivFor_eq_iff hsalt]
  simp [runAt]

theorem runAt_of_sharedKeys (hkeys : SharedKeys base s) (index : Nat) : s.runAt index = base.runAt index := by
  simp [runAt, ivFor, hkeys.encryptionKey, hkeys.saltKey, hkeys.ssrc]

variable {p : Bytes}

theorem protectLog_rtp_refused (h : ¬ (12 ≤ p.length ∧ rtpSsrc p = s.ssrc)) :
    protectLog suite s (.rtp p :: calls) = protectLog suite s calls := by
  obtain ⟨e, hrej⟩ : ∃ e, s.protectRtp suite p = s.reject e := protectRtp_rejected h
  simp [protectLog, protectCall, hrej, reject]

theorem protectLog_rtcp_refused (h : ¬ 8 ≤ p.length) :
    protectLog suite s (.rtcp p :: calls) = protectLog suite s calls := by
  obtain ⟨e, hrej⟩ : ∃ e, s.protectRtcp suite p = s.reject e := protectRtcp_rejected h
  simp [protectLog, protectCall, hrej, reject]

/-- Whatever the interleaving, the log holds the indices of the RTP packets and those of the RTCP
packets, each once per packet. -/
theorem protectLog_perm (hkeys : SharedKeys base s) (htagLen : base.config.authTagLen ≤ 20)
    (hstart : start < 65536) (hsent : Sent start k j s) (hseq : seq.toNat = (start + k) % 65536)
    (hstream : RtpStream base.ssrc seq (rtpPackets base.ssrc calls)) (hrtcp : j + rtcpCount calls < 2 ^ 31) :
    (protectLog suite s calls).Perm
      ((range' k (rtpPackets base.ssrc calls).length).map
          (fun i => base.runAt (rtpNonce start i)) ++
        (range' j (rtcpCount calls)).map (fun i => base.runAt (i * 65536))) := by
  induction calls generalizing s k j seq with
  | nil => simp [protectLog, rtpPackets, rtcpCount]
  | cons c cs ih =>
    have htagLen' : s.config.authTagLen ≤ 20 := by
      rw [hkeys.config]
      exact htagLen
    cases c with
    | rtp p =>
      by_cases hok : 12 ≤ p.length ∧ rtpSsrc p = base.ssrc
      · -- encrypted with the next RTP index, which heads the first part
        have hssrc : rtpSsrc p = s.ssrc := by
          rw [hkeys.ssrc]
          exact hok.2
        simp only [rtpPackets, hok, and_self, if_true] at hstream ⊢
        rcases hstream with ⟨_, _, hpseq, hrest⟩
        have hseq' : (rtpSeq p).toNat = (start + k) % 65536 := by
          rw [hpseq]
          exact hseq
        have hrun : (⟨s.encryptionKey, s.generateIv (rtpSeq p) s.roc⟩ : AesCmRun) = base.runAt (rtpNonce start k) := by
          rw [generateIv_eq_ivFor, hsent.nonce hstart hseq']
          exact runAt_of_sharedKeys hkeys _
        have hsucc : (seq + 1).toNat = (start + (k + 1)) % 65536 := by
          rw [UInt16.toNat_add, hseq, UInt16.toNat_one]
          omega
        have htail := ih (s := s.updateIndex (rtpSeq p)) { hkeys with } (hsent.sendRtp hstart hseq') hsucc hrest hrtcp
        simp only [protectLog, protectCall, protectRtp_eq hok.1 hssrc htagLen', hrun,
          reduceCtorEq, if_false, length_cons, range'_succ, map_cons,
          cons_append, nil_append]
        exact htail.cons _
      · -- refused: neither the session nor the log has changed
        have hno : ¬ (12 ≤ p.length ∧ rtpSsrc p = s.ssrc) := by
          rw [hkeys.ssrc]
          exact hok
        simp only [rtpPackets, hok, if_false] at hstream ⊢
        rw [protectLog_rtp_refused hno]
        exact ih hkeys hsent hseq hstream hrtcp
    | rtcp p =>
      by_cases hlong : 8 ≤ p.length
      · -- encrypted with the next RTCP index, which heads the second part
        rcases protectRtcp_sends hlong with ⟨hsess, hlog, hpanic⟩
        simp only [rtpPackets, rtcpCount, hlong, if_true] at hstream hrtcp ⊢
        have hrun : (⟨s.encryptionKey, s.ivFor (s.srtcpIndex.toNat * 65536)⟩ : AesCmRun) = base.runAt (j * 65536) := by
          rw [hsent.srtcpIndex]
          exact runAt_of_sharedKeys hkeys _
        have hindex : s.sentRtcp.srtcpIndex.toNat = j + 1 := by
          rw [sentRtcp_srtcpIndex (by rw [hsent.srtcpIndex]; omega), hsent.srtcpIndex]
        have htail := ih (s := s.sentRtcp) { hkeys with } { hsent with srtcpIndex := hindex } hseq hstream (by omega)
        have hnopanic : ¬ (s.protectRtcp suite p).result = .error .panic := by
          rw [hpanic]
          omega
        simp only [protectLog, protectCall, hnopanic, if_false, hsess, hlog, hrun,
          range'_succ, map_cons, cons_append, nil_append]
        exact (htail.cons _).trans perm_middle.symm
      · simp only [rtpPackets, rtcpCount, hlong, if_false] at hstream hrtcp ⊢
        rw [protectLog_rtcp_refused hlong]
        exact ih hkeys hsent hseq hstream hrtcp

/-- A session whose tag length is out of range panics in the first call that encrypts. -/
theorem protectLog_panic (htagLen : 20 < s.config.authTagLen) : (protectLog suite s calls).length ≤ 1 := by
  induction calls with
  | nil => simp [protectLog]
  | cons c cs ih =>
    cases c with
    | rtp p =>
      by_cases hok : 12 ≤ p.length ∧ rtpSsrc p = s.ssrc
      · have hlong : ¬ p.length < 12 := not_lt.2 hok.1
        simp [protectLog, protectCall, protectRtp, hlong, hok.2, htagLen]
      · rwa [protectLog_rtp_refused hok]
    | rtcp p =>
      by_cases hlong : 8 ≤ p.length
      · have hpanic : (s.protectRtcp suite p).result = .error .panic :=
          (protectRtcp_sends hlong).2.2.2 htagLen
        have hlog : (s.protectRtcp suite p).aesCm.length = 1 := by
          rw [(protectRtcp_sends hlong).2.1]
          rfl
        simp [protectLog, protectCall, hpanic, hlog]
      · rwa [protectLog_rtcp_refused hlong]

theorem sent_of_new {config : SrtpConfig} {ssrc : UInt32} (hnew : new suite config ssrc = .ok s)
    (hstart : start < 65536) : Sent start 0 0 s := by
  have hfresh := new_ok hnew
  refine ⟨?_, ?_, ?_, ?_⟩
  · rw [hfresh.roc_eq]
    have hzero : (0 : UInt32).toNat = 0 := rfl
    omega
  · intro hpos
    omega
  · intro _
    rw [hfresh.lastSeq_eq]
    rfl
  · rw [hfresh.srtcpIndex_eq]
    rfl

/-- The two index lists share nothing and repeat nothing under this condition only. -/
theorem nodup_indices_iff (hsalt : base.saltKey.length = 14) {n m : Nat} (hstart : start < 65536)
    (hn : n < 2 ^ 48) (hm : m < 2 ^ 31) :
    ((range' 0 n).map (fun i => base.runAt (rtpNonce start i)) ++
        (range' 0 m).map (fun i => base.runAt (i * 65536))).Nodup ↔
      (∀ i < n, (start + i) % 65536 ≠ 0) ∨ (m = 0 ∧ (start ≠ 0 ∨ n ≤ 65536)) := by
  have hrtp : ((range' 0 n).map (fun i => base.runAt (rtpNonce start i))).Nodup ↔
      start ≠ 0 ∨ n ≤ 65536 := by
    rw [nodup_map_iff_inj_on nodup_range', ← rtpNonce_inj_iff hstart hn]
    simp only [mem_range'_1, zero_le, true_and, zero_add, runAt_eq_iff hsalt, mod_eq_of_lt (rtpNonce_lt _ _)]
  -- below 2 ^ 31 packets the RTCP indices stay inside 48 bits
  have hrtcp : ((range' 0 m).map (fun i => base.runAt (i * 65536))).Nodup := by
    rw [nodup_map_iff_inj_on nodup_range']
    intro i hi j hj heq
    rw [mem_range'_1] at hi hj
    rw [runAt_eq_iff hsalt] at heq
    omega
  have hapart : (∀ a ∈ (range' 0 n).map (fun i => base.runAt (rtpNonce start i)),
      ∀ b ∈ (range' 0 m).map (fun i => base.runAt (i * 65536)), a ≠ b) ↔
      m = 0 ∨ ∀ i < n, (start + i) % 65536 ≠ 0 := by
    simp only [mem_map, mem_range'_1, zero_le, true_and, zero_add,
      forall_exists_index, and_imp, forall_apply_eq_imp_iff₂, ne_eq, runAt_eq_iff hsalt,
      mod_eq_of_lt (rtpNonce_lt _ _)]
    constructor
    · intro hne
      by_cases hzero : m = 0
      · exact .inl hzero
      · refine .inr (fun i hi hwrap => ?_)
        -- the first packet with sequence number 0 meets RTCP packet number 0
        have hfirst : (65536 - start) % 65536 < n := by omega
        apply hne _ hfirst 0 (pos_of_ne_zero hzero)
        unfold rtpNonce
        split
        · omega
        · omega
    · intro hcond i hi j hj heq
      have hmod : rtpNonce start i % 65536 = (start + i) % 65536 := by
        unfold rtpNonce
        split
        · omega
        · omega
      rcases hcond with hzero | hnowrap
      · omega
      · apply hnowrap i hi
        omega
  rw [nodup_append, hrtp, hapart]
  constructor
  · rintro ⟨hinj, -, hzero | hnowrap⟩
    · exact .inr ⟨hzero, hinj⟩
    · exact .inl hnowrap
  · rintro (hnowrap | ⟨hzero, hinj⟩)
    · refine ⟨?_, hrtcp, .inr hnowrap⟩
      by_contra hnot
      exact hnowrap 0 (by omega) (by omega)
    · exact ⟨hinj, hrtcp, .inl hzero⟩

/-- In a stream the packets' own sequence numbers say whether a wrap is reached. -/
theorem rtpSeq_ne_zero_iff {ssrc : UInt32} {packets : List Bytes} (hstream : RtpStream ssrc seq packets) :
    (∀ p ∈ packets, rtpSeq p ≠ 0) ↔ ∀ i < packets.length, (seq.toNat + i) % 65536 ≠ 0 := by
  induction packets generalizing seq with
  | nil => simp
  | cons p ps ih =>
    rcases hstream with ⟨_, _, hseq, hrest⟩
    have hlt := seq.toNat_lt
    have hhead : rtpSeq p ≠ 0 ↔ seq.toNat % 65536 ≠ 0 := by
      rw [hseq, ne_eq, ← UInt16.toNat_inj, mod_eq_of_lt hlt]
      rfl
    have hshift : ∀ i, ((seq + 1).toNat + i) % 65536 = (seq.toNat + (i + 1)) % 65536 := by
      intro i
      rw [UInt16.toNat_add, UInt16.toNat_one]
      omega
    simp only [forall_mem_cons, length_cons, forall_lt_succ_left, add_zero]
    rw [hhead, ih hrest]
    simp only [hshift]

/-! ## Keystream reuse -/

/-- The exact runs in which no `(key, IV)` pair is used twice.  A sender that gets past its first
packet repeats a pair as soon as an RTP packet with sequence number 0 and an RTCP packet are both
sent, and, without RTCP, when a run that starts at sequence number 0 wraps. -/
theorem protectLog_nodup_iff (config : SrtpConfig) (ssrc : UInt32) (start : UInt16)
    (hnew : new suite config ssrc = .ok s)
    (hstream : RtpStream ssrc start (rtpPackets ssrc calls))
    (hrtp : (rtpPackets ssrc calls).length < 2 ^ 48) (hrtcp : rtcpCount calls < 2 ^ 31) :
    (protectLog suite s calls).Nodup ↔
      20 < config.authTagLen ∨ (∀ p ∈ rtpPackets ssrc calls, rtpSeq p ≠ 0) ∨
        (rtcpCount calls = 0 ∧ (start ≠ 0 ∨ (rtpPackets ssrc calls).length ≤ 65536)) := by
  have hfresh := new_ok hnew
  have hstart : start.toNat < 65536 := start.toNat_lt
  by_cases htagLen : 20 < config.authTagLen
  · have hshort : (protectLog suite s calls).length ≤ 1 := by
      apply protectLog_panic
      rw [hfresh.config_eq]
      exact htagLen
    have hnodup : (protectLog suite s calls).Nodup := by
      match protectLog suite s calls, hshort with
      | [], _ => exact nodup_nil
      | [run], _ => exact nodup_singleton run
    exact ⟨fun _ => .inl htagLen, fun _ => hnodup⟩
  · have hkeys : SharedKeys s s := ⟨rfl, rfl, rfl, rfl, rfl⟩
    have htagLen' : s.config.authTagLen ≤ 20 := by
      rw [hfresh.config_eq]
      exact not_lt.1 htagLen
    have hstream' : RtpStream s.ssrc start (rtpPackets s.ssrc calls) := by
      rw [hfresh.ssrc_eq]
      exact hstream
    have hperm : (protectLog suite s calls).Perm _ := protectLog_perm hkeys htagLen' hstart
      (sent_of_new hnew hstart) (mod_eq_of_lt hstart).symm hstream' (by omega)
    rw [hfresh.ssrc_eq] at hperm
    have hzero : start ≠ 0 ↔ start.toNat ≠ 0 := by
      rw [ne_eq, ← UInt16.toNat_inj]
      rfl
    rw [hperm.nodup_iff, nodup_indices_iff hfresh.length_saltKey hstart hrtp hrtcp, rtpSeq_ne_zero_iff hstream, hzero]
    simp [htagLen]

/-- Sequence numbers 1 and 2 with an RTCP packet between them. -/
theorem protectLog_nodup_iff_no_wrap :
    ∃ s, new echoSuite SrtpConfig.default 7 = .ok s ∧
      (protectLog echoSuite s
        [.rtp (numberedPacket 7 1), .rtcp (List.replicate 8 0), .rtp (numberedPacket 7 2)]).Nodup := by
  obtain ⟨s, hs⟩ : ∃ s, new echoSuite SrtpConfig.default 7 = .ok s := exists_new echoSuite 7 rfl rfl
  have hpackets : rtpPackets 7
      [.rtp (numberedPacket 7 1), .rtcp (replicate 8 0), .rtp (numberedPacket 7 2)] =
      numberedPackets 7 1 2 := by
    decide
  refine ⟨s, hs, ?_⟩
  rw [protectLog_nodup_iff SrtpConfig.default 7 1 hs
    (by rw [hpackets]; exact rtpStream_numberedPackets 7 1 2) (by rw [hpackets]; decide) (by decide),
    hpackets]
  exact .inr (.inl (by decide))

/-- The RTP packet with sequence number 0 and the first RTCP packet of a fresh session are encrypted with one
keystream. -/
theorem protectLog_reuses_keystream :
    ∃ s run, new echoSuite SrtpConfig.default 7 = .ok s ∧
      RtpStream 7 0 (rtpPackets 7 [.rtp (numberedPacket 7 0), .rtcp (List.replicate 8 0)]) ∧
      protectLog echoSuite s [.rtp (numberedPacket 7 0), .rtcp (List.replicate 8 0)] = [run, run] :=
  ⟨_, _, rfl, rtpStream_numberedPackets 7 0 1, rfl⟩

end SrtpSession

end LingVoice.LmSrtp

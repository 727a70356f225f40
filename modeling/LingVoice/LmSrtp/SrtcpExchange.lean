import LingVoice.LmSrtp.Keystream

/-!
# SrtcpExchange — RTCP between two sessions

An SRTCP packet carries its index, so the receiver needs nothing of what came before it.
-/

namespace LingVoice.LmSrtp

open Lib List

namespace SrtpSession

variable {suite : CipherSuite} {base s : SrtpSession} {p : Bytes}

def unprotectCall (suite : CipherSuite) (s : SrtpSession) : ProtectCall → Outcome
  | .rtp packet => s.unprotectRtp suite packet
  | .rtcp packet => s.unprotectRtcp suite packet

/-- The session after any calls of a sender or a receiver. -/
def afterCalls (call : SrtpSession → ProtectCall → Outcome) (s : SrtpSession) (calls : List ProtectCall) :
    SrtpSession :=
  calls.foldl (fun s c => (call s c).session) s

/-- The keys of a new session, and an index of 31 bits. -/
structure Keyed (base s : SrtpSession) : Prop extends SharedKeys base s where
  index : s.srtcpIndex.toNat < 2 ^ 31

theorem Keyed.protectCall (h : Keyed base s) (c : ProtectCall) : Keyed base (s.protectCall suite c).session := by
  cases c with
  | rtp packet =>
    simp only [SrtpSession.protectCall, protectRtp, reject]
    split
    · exact h
    · split
      · exact h
      · split
        · exact h
        · exact { h with }
  | rtcp packet =>
    by_cases hlong : 8 ≤ packet.length
    · have hmask : (0x7FFFFFFF : UInt32).toNat = 2 ^ 31 - 1 := rfl
      rw [SrtpSession.protectCall, (protectRtcp_sends hlong).1]
      refine ⟨{ h with }, ?_⟩
      rw [sentRtcp, UInt32.toNat_and, hmask, Nat.and_two_pow_sub_one_eq_mod]
      exact Nat.mod_lt _ (by decide)
    · obtain ⟨e, hrejected⟩ := @protectRtcp_rejected suite s _ hlong
      rw [SrtpSession.protectCall, hrejected]
      exact h

theorem Keyed.unprotectCall (h : Keyed base s) (c : ProtectCall) : Keyed base (s.unprotectCall suite c).session := by
  cases c with
  | rtp packet =>
    by_cases haccepts : RtpAccepts suite s packet
    · rw [SrtpSession.unprotectCall, unprotectRtp_eq haccepts]
      exact { h with }
    · obtain ⟨-, -, hsame⟩ := unprotectRtp_rejected haccepts
      rw [SrtpSession.unprotectCall, hsame]
      exact h
  | rtcp packet =>
    rw [SrtpSession.unprotectCall, unprotectRtcp_session]
    exact h

/-- The index and the E flag are read back from the index word. -/
theorem index_with_flag {index : UInt32} (h : index.toNat < 2 ^ 31) :
    (index ||| ((1 : UInt32) <<< 31)) &&& 0x7FFFFFFF = index ∧
      ((index ||| ((1 : UInt32) <<< 31)) >>> 31) &&& 1 = 1 := by
  have hword : (index ||| ((1 : UInt32) <<< 31)).toNat = 2 ^ 31 + index.toNat := by
    rw [UInt32.toNat_or, Nat.or_comm]
    exact (Nat.two_pow_add_eq_or_of_lt h 1).symm
  have hmask : (0x7FFFFFFF : UInt32).toNat = 2 ^ 31 - 1 := rfl
  have hshift : (2 ^ 31 + index.toNat) >>> ((31 : UInt32).toNat % 32) = 1 := by
    rw [Nat.shiftRight_eq_div_pow]
    change _ / 2 ^ 31 = 1
    omega
  simp only [← UInt32.toNat_inj, UInt32.toNat_and, UInt32.toNat_shiftRight, hword, hmask, hshift,
    Nat.and_two_pow_sub_one_eq_mod]
  exact ⟨by omega, rfl⟩

/-- What a receiver makes of an encrypted SRTCP packet with the right tag. -/
theorem unprotectRtcp_framed {head enc body tag : Bytes} {word : UInt32} (hhead : head.length = 8)
    (hbody : body = head ++ enc ++ toBe 4 word.toNat) (htagLen : s.config.authTagLen ≤ 20)
    (htag : tag = (suite.hmac s.authKey body).take s.config.authTagLen) (hflag : (word >>> 31) &&& 1 = 1) :
    (s.unprotectRtcp suite (body ++ tag)).result =
      .ok (head ++ suite.applyKeystream s.encryptionKey (s.srtcpIv (word &&& 0x7FFFFFFF)) enc) := by
  have hlength : (body ++ tag).length - s.config.authTagLen = body.length := by
    rw [length_append, htag, length_take_of_le (by rw [suite.length_hmac]; exact htagLen), Nat.add_sub_cancel]
  have hindex : body.length - 4 = (head ++ enc).length := by
    rw [hbody, length_append, length_toBe, Nat.add_sub_cancel]
  have hword : s.srtcpIndexWithE (body ++ tag) = word := by
    rw [srtcpIndexWithE, hlength, hindex, hbody, append_assoc (head ++ enc), drop_left, take_left' (length_toBe ..),
      ofBe_toBe_of_lt word.toNat_lt, UInt32.ofNat_toNat]
  have hlong : ¬ (body ++ tag).length < 8 + 4 + s.config.authTagLen := by
    rw [length_append] at hlength ⊢
    rw [length_append, hhead] at hindex
    omega
  have hpanic := not_lt.2 htagLen
  have hsame := (ctEq_iff _ _).2 htag.symm
  simp only [unprotectRtcp, srtcpPacketIndex, hlong, hlength, hindex, hword, hflag, hpanic, take_left, drop_left, hsame,
    ↓reduceIte, Bool.not_true, Bool.false_eq_true]
  rw [hbody, append_assoc (head ++ enc), take_left, append_assoc, take_left' hhead, drop_left' hhead]

/-- Whatever a session has sent, and whatever another one with the same keys was given, by the sender or anybody else,
an RTCP packet is returned as it was. -/
theorem unprotectRtcp_protectRtcp {config : SrtpConfig} {ssrc : UInt32} (hnew : new suite config ssrc = .ok s)
    (htagLen : config.authTagLen ≤ 20) (sent received : List ProtectCall) (hlong : 8 ≤ p.length) :
    ∃ c, ((s.afterCalls (protectCall suite) sent).protectRtcp suite p).result = .ok c ∧
      ((s.afterCalls (unprotectCall suite) received).unprotectRtcp suite c).result = .ok p := by
  have hfresh := new_ok hnew
  have hkeyed : Keyed s s := ⟨⟨rfl, rfl, rfl, rfl, rfl⟩, by rw [hfresh.srtcpIndex_eq]; decide⟩
  have hsnd : Keyed s (s.afterCalls (protectCall suite) sent) :=
    foldlRecOn sent _ hkeyed fun _ h c _ => h.protectCall c
  have hrcv : Keyed s (s.afterCalls (unprotectCall suite) received) :=
    foldlRecOn received _ hkeyed fun _ h c _ => h.unprotectCall c
  generalize s.afterCalls (protectCall suite) sent = snd at hsnd
  generalize s.afterCalls (unprotectCall suite) received = rcv at hrcv
  rw [← hfresh.config_eq] at htagLen
  obtain ⟨hindex, hflag⟩ := index_with_flag hsnd.index
  have hshort : ¬ p.length < 8 := not_lt.2 hlong
  have hpanic : ¬ 20 < snd.config.authTagLen := by
    rw [hsnd.config]
    exact not_lt.2 htagLen
  have hiv : rcv.srtcpIv snd.srtcpIndex = snd.srtcpIv snd.srtcpIndex := by
    simp only [srtcpIv, ivFor, hsnd.saltKey, hrcv.saltKey, hsnd.ssrc, hrcv.ssrc]
  refine ⟨_, by simp only [protectRtcp, hshort, hpanic, if_false]; rfl, ?_⟩
  rw [unprotectRtcp_framed (length_take_of_le hlong) rfl (hrcv.config ▸ htagLen) ?_ hflag, hindex, hiv,
    hrcv.encryptionKey, ← hsnd.encryptionKey, applyKeystream_applyKeystream, take_append_drop]
  rw [hrcv.authKey, hrcv.config, hsnd.authKey, hsnd.config]

/-- The sender has sent an RTP packet, and the receiver has refused an empty one. -/
theorem unprotectRtcp_protectRtcp_second :
    let p : Bytes := replicate 8 1
    ∃ s c, new echoSuite SrtpConfig.default 7 = .ok s ∧
      ((s.afterCalls (protectCall echoSuite) [.rtp (numberedPacket 7 0)]).protectRtcp echoSuite p).result = .ok c ∧
      ((s.afterCalls (unprotectCall echoSuite) [.rtcp []]).unprotectRtcp echoSuite c).result = .ok p := by
  intro p
  obtain ⟨s, hnew⟩ : ∃ s, new echoSuite SrtpConfig.default 7 = .ok s := exists_new echoSuite 7 rfl rfl
  obtain ⟨c, hc⟩ := unprotectRtcp_protectRtcp hnew (by decide) [.rtp (numberedPacket 7 0)] [.rtcp []]
    (show 8 ≤ p.length by decide)
  exact ⟨s, c, hnew, hc⟩

end SrtpSession
end LingVoice.LmSrtp

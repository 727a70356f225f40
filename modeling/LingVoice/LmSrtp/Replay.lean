import LingVoice.Lib.ReplayWindow
import LingVoice.LmSrtp.SessionSpec

/-!
# Replay — replay protection of the receiving side

The bitmap of an RTP session is exactly the set of accepted packet indices inside the window; this
is the invariant `ReplayInv`, stated with the history filter of `Lib.ReplayWindow`.  It is kept by
every `unprotect_rtp`, also while `roc` and `last_seq` move backwards on reordered packets, because
check and update are made with the index computed at the start of the call.

The SRTCP receive path carries the same window and never consults it: `unprotect_rtcp` does not
depend on what was received before.
-/

namespace LingVoice.LmSrtp

open Lib List

namespace SrtpSession

variable {suite : CipherSuite} {s : SrtpSession} {h : List Nat} {index : Nat}

/-! ## The invariant -/

/-- The replay state of `s` stands for the accepted indices `h`. -/
structure ReplayInv (s : SrtpSession) (h : List Nat) : Prop where
  covers : s.config.replayWindowSize.toNat ≤ 64 * s.replayBitmap.length
  fresh : s.replayInitialized = false →
    h = [] ∧ s.lastIndex = 0 ∧ ∀ k, bitmapGet s.replayBitmap k = false
  window : s.replayInitialized = true →
    Represents (64 * s.replayBitmap.length) s.lastIndex h (bitmapGet s.replayBitmap)

theorem ReplayInv.of_new {config : SrtpConfig} {ssrc : UInt32}
    (hnew : new suite config ssrc = .ok s) : ReplayInv s [] := by
  have hs := new_ok hnew
  refine ⟨?_, ?_, ?_⟩
  · rw [hs.config_eq, hs.replayBitmap_eq, length_replicate]
    omega
  · intro _
    refine ⟨rfl, hs.lastIndex_eq, ?_⟩
    intro k
    rw [hs.replayBitmap_eq, bitmapGet_eq_wordBit]
    simp only [getD_eq_getElem?_getD, getElem?_replicate]
    split <;> simp
  · intro hinit
    rw [hs.replayInitialized_eq] at hinit
    cases hinit

/-- `check_replay` on an initialized session is the filter on histories. -/
theorem checkReplay_iff (hinv : ReplayInv s h) (hinit : s.replayInitialized = true) :
    s.checkReplay index = true ↔ Admits s.config.replayWindowSize.toNat s.lastIndex h index := by
  have hrep := hinv.window hinit
  have hcov := hinv.covers
  unfold checkReplay windowCheck Admits
  by_cases hnew : s.lastIndex < index
  · simp [hinit, hnew]
  · by_cases hold : s.config.replayWindowSize.toNat ≤ s.lastIndex - index
    · simp [hinit, hnew, hold]
    · have hwin : s.lastIndex - index < s.config.replayWindowSize.toNat := Nat.lt_of_not_le hold
      -- inside the window the bit of `index` is set exactly when it was accepted
      have hbit := hrep.bit_eq (Nat.le_of_not_lt hnew) (Nat.lt_of_lt_of_le hwin hcov)
      simp [hinit, hnew, hold, ← hbit, hwin]

/-- An index that passes the check was not accepted before. -/
theorem not_mem_of_checkReplay (hinv : ReplayInv s h) (hok : s.checkReplay index = true) : index ∉ h := by
  cases hinit : s.replayInitialized with
  | false => simp [(hinv.fresh hinit).1]
  | true =>
    exact Admits.not_mem (hinv.window hinit).le_top ((checkReplay_iff hinv hinit).1 hok)

/-- Recording an index extends the represented history by it. -/
theorem ReplayInv.updateReplay (hinv : ReplayInv s h) : ReplayInv (s.updateReplay index) (h ++ [index]) := by
  have hcov := hinv.covers
  cases hinit : s.replayInitialized with
  | false =>
    -- the first index: bit 0 alone is set
    have hfresh := hinv.fresh hinit
    simp only [SrtpSession.updateReplay, windowBitmap, hinit, hfresh.1, Bool.not_false, Bool.true_or, if_true]
    refine ⟨by simpa using hcov, by simp, ?_⟩
    intro _
    refine Represents.first ?_
    intro k hk
    have hk' : k < 64 * s.replayBitmap.length := by simpa using hk
    simp [bitmapGet_bitmapSet hk', hfresh.2.2 k]
  | true =>
    have hrep := hinv.window hinit
    by_cases hnew : s.lastIndex < index
    · simp only [SrtpSession.updateReplay, windowBitmap, hinit, hnew, Bool.not_true, decide_true, Bool.or_true,
        Bool.false_eq_true, if_true, if_false]
      refine ⟨by simpa using hcov, by simp, ?_⟩
      intro _
      simp only [length_bitmapSet, length_bitmapShiftLeft]
      refine hrep.advance hnew ?_
      intro k hk
      -- the old bits move up by the advance, and bit 0 is the new index
      have hk' : k < 64 * (bitmapShiftLeft s.replayBitmap (index - s.lastIndex)).length := by simpa using hk
      rw [bitmapGet_bitmapSet hk', bitmapGet_bitmapShiftLeft hk]
    · simp only [SrtpSession.updateReplay, windowBitmap, hinit, hnew, Bool.not_true, decide_false, Bool.or_false,
        Bool.false_eq_true, if_false]
      refine ⟨by simpa using hcov, by simp, ?_⟩
      intro _
      simp only [length_bitmapSet]
      refine hrep.fill (Nat.le_of_not_lt hnew) ?_
      intro k hk
      exact bitmapGet_bitmapSet hk

/-- Rewriting `roc` and `last_seq` does not touch the replay state. -/
theorem ReplayInv.received (hinv : ReplayInv s h) (seq : UInt16) :
    ReplayInv (s.received seq) (h ++ [s.packetIndex seq]) := by
  have hmoved : ReplayInv (({ s with roc := s.estimatedRoc seq }).updateIndex seq) h :=
    ⟨hinv.covers, hinv.fresh, hinv.window⟩
  exact hmoved.updateReplay

/-! ## Runs of `unprotect_rtp` -/

def afterUnprotect (suite : CipherSuite) (s : SrtpSession) : List Bytes → SrtpSession
  | [] => s
  | p :: ps => afterUnprotect suite (s.unprotectRtp suite p).session ps

/-- The packet indices, each computed at the time of its call, of the calls that return `Ok`. -/
def acceptedIndices (suite : CipherSuite) (s : SrtpSession) : List Bytes → List Nat
  | [] => []
  | p :: ps =>
    match (s.unprotectRtp suite p).result with
    | .ok _ =>
      s.packetIndex (rtpSeq p) :: acceptedIndices suite (s.unprotectRtp suite p).session ps
    | .error _ => acceptedIndices suite (s.unprotectRtp suite p).session ps

/-- A run keeps the invariant, and what it accepts is new and without repetition. -/
theorem ReplayInv.run (hinv : ReplayInv s h) (packets : List Bytes) :
    ReplayInv (afterUnprotect suite s packets) (h ++ acceptedIndices suite s packets) ∧
      (∀ i ∈ acceptedIndices suite s packets, i ∉ h) ∧ (acceptedIndices suite s packets).Nodup := by
  induction packets generalizing s h with
  | nil => simpa [afterUnprotect, acceptedIndices] using hinv
  | cons p ps ih =>
    by_cases hacc : RtpAccepts suite s p
    · -- accepted: the index enters the history before the rest of the run
      have hnew : s.packetIndex (rtpSeq p) ∉ h := not_mem_of_checkReplay hinv hacc.fresh
      have hstep := ih (hinv.received (rtpSeq p))
      have hlist : acceptedIndices suite s (p :: ps) =
          s.packetIndex (rtpSeq p) :: acceptedIndices suite (s.received (rtpSeq p)) ps := by
        simp [acceptedIndices, unprotectRtp_eq hacc]
      have hafter : afterUnprotect suite s (p :: ps) = afterUnprotect suite (s.received (rtpSeq p)) ps := by
        simp [afterUnprotect, unprotectRtp_eq hacc]
      rcases hstep with ⟨hrest, hfresh, hnodup⟩
      rw [hlist, hafter]
      refine ⟨by simpa using hrest, ?_, ?_⟩
      · intro i hi
        rcases mem_cons.1 hi with hhead | htail
        · rwa [hhead]
        · intro hmem
          exact hfresh i htail (mem_append_left _ hmem)
      · refine nodup_cons.2 ⟨?_, hnodup⟩
        intro hmem
        exact hfresh _ hmem (mem_append_right _ (by simp))
    · -- rejected: the session is the same as before the call
      rcases unprotectRtp_rejected hacc with ⟨f, hres, hsess⟩
      have hlist : acceptedIndices suite s (p :: ps) = acceptedIndices suite s ps := by
        simp [acceptedIndices, hres, hsess]
      have hafter : afterUnprotect suite s (p :: ps) = afterUnprotect suite s ps := by simp [afterUnprotect, hsess]
      rw [hlist, hafter]
      exact ih hinv

theorem afterUnprotect_config (packets : List Bytes) : (afterUnprotect suite s packets).config = s.config := by
  induction packets generalizing s with
  | nil => rfl
  | cons p ps ih =>
    by_cases hacc : RtpAccepts suite s p
    · simp only [afterUnprotect, unprotectRtp_eq hacc]
      exact ih
    · rcases unprotectRtp_rejected hacc with ⟨f, _, hsess⟩
      simp only [afterUnprotect, hsess]
      exact ih

/-- Accepted indices never repeat, and nothing below the window is accepted.  With an empty window
the second part starts with the first accepted packet: a fresh session reports `last_index = 0`
without having received index 0. -/
theorem unprotectRtp_replay_protection (suite : CipherSuite) (config : SrtpConfig) (ssrc : UInt32)
    (s : SrtpSession) (hnew : new suite config ssrc = .ok s) (packets : List Bytes) :
    (acceptedIndices suite s packets).Nodup ∧
      ∀ p : Bytes,
        (0 < config.replayWindowSize.toNat ∨ acceptedIndices suite s packets ≠ []) →
        (afterUnprotect suite s packets).packetIndex (rtpSeq p) ≤
          (afterUnprotect suite s packets).lastIndex →
        config.replayWindowSize.toNat ≤ (afterUnprotect suite s packets).lastIndex -
          (afterUnprotect suite s packets).packetIndex (rtpSeq p) →
        ∃ f, ((afterUnprotect suite s packets).unprotectRtp suite p).result = .error f := by
  rcases (ReplayInv.of_new hnew).run packets with ⟨hinv, _, hnodup⟩
  refine ⟨hnodup, ?_⟩
  intro p hstart hle hbelow
  have hconfig : (afterUnprotect suite s packets).config = config := by
    rw [afterUnprotect_config, (new_ok hnew).config_eq]
  -- before the first acceptance `last_index` is zero, and only an empty window reaches it
  have hinit : (afterUnprotect suite s packets).replayInitialized = true := by
    cases hflag : (afterUnprotect suite s packets).replayInitialized with
    | true => rfl
    | false =>
      rcases hinv.fresh hflag with ⟨hnil, hzero, _⟩
      rcases hstart with hwindow | hsome
      · omega
      · exact absurd (by simpa using hnil) hsome
  have hrej : ¬ RtpAccepts suite (afterUnprotect suite s packets) p := by
    intro hacc
    have hcheck := hacc.fresh
    simp [checkReplay, windowCheck, hinit, Nat.not_lt.2 hle, hconfig, hbelow] at hcheck
  rcases unprotectRtp_rejected hrej with ⟨f, hres, _⟩
  exact ⟨f, hres⟩

/-- A 12-byte RTP header with sequence number `seq` and SSRC 0, and its tag under `echoSuite`. -/
def taggedHeader (seq : UInt8) : Bytes :=
  [0x80, 0, 0, seq, 0, 0, 0, 0, 0, 0, 0, 0] ++ List.replicate 10 (0x80 + seq)

/-- In a run that presents packet 7 twice, packet 3, and packet 7 again, every packet is accepted
once. -/
theorem unprotectRtp_replay_protection_run :
    ∃ s, new echoSuite SrtpConfig.default 0 = .ok s ∧
      acceptedIndices echoSuite s
        [taggedHeader 7, taggedHeader 7, taggedHeader 3, taggedHeader 7] = [7, 3] ∧
      (acceptedIndices echoSuite s
        [taggedHeader 7, taggedHeader 7, taggedHeader 3, taggedHeader 7]).Nodup := by
  refine ⟨_, rfl, by decide +kernel, ?_⟩
  exact (unprotectRtp_replay_protection echoSuite SrtpConfig.default 0 _ rfl _).1

/-- With a window of size 0, index 0 is at `last_index` in a fresh session and is accepted. -/
theorem empty_window_accepts_index_zero :
    ∃ s, new echoSuite { SrtpConfig.default with replayWindowSize := 0 } 0 = .ok s ∧
      s.packetIndex (rtpSeq (taggedHeader 0)) ≤ s.lastIndex ∧
      s.config.replayWindowSize.toNat ≤ s.lastIndex - s.packetIndex (rtpSeq (taggedHeader 0)) ∧
      (s.unprotectRtp echoSuite (taggedHeader 0)).result =
        .ok [0x80, 0, 0, 0, 0, 0, 0, 0, 0, 0, 0, 0] := by
  refine ⟨_, rfl, by decide +kernel, by decide +kernel, by rfl⟩

/-! ## Runs of `unprotect_rtcp` -/

def afterUnprotectRtcp (suite : CipherSuite) (s : SrtpSession) : List Bytes → SrtpSession
  | [] => s
  | p :: ps => afterUnprotectRtcp suite (s.unprotectRtcp suite p).session ps

/-- The 31-bit SRTCP indices of the calls that return `Ok`. -/
def acceptedSrtcpIndices (suite : CipherSuite) (s : SrtpSession) :
    List Bytes → List UInt32
  | [] => []
  | p :: ps =>
    match (s.unprotectRtcp suite p).result with
    | .ok _ =>
      s.srtcpPacketIndex p :: acceptedSrtcpIndices suite (s.unprotectRtcp suite p).session ps
    | .error _ => acceptedSrtcpIndices suite (s.unprotectRtcp suite p).session ps

@[simp] theorem afterUnprotectRtcp_eq (packets : List Bytes) : afterUnprotectRtcp suite s packets = s := by
  induction packets with
  | nil => rfl
  | cons p ps ih => simpa [afterUnprotectRtcp, unprotectRtcp_session] using ih

/-- A session that can accept a tag at all accepts some packet. -/
theorem exists_rtcpAccepts (suite : CipherSuite) (htagLen : s.config.authTagLen ≤ 20) : ∃ p, RtcpAccepts suite s p := by
  let body : Bytes := List.replicate 12 0
  let tag := (suite.hmac s.authKey body).take s.config.authTagLen
  have htag : tag.length = s.config.authTagLen := by simp [tag, suite.length_hmac, htagLen]
  have hlen : (body ++ tag).length - s.config.authTagLen = body.length := by simp [htag]
  refine ⟨body ++ tag, ?_, htagLen, ?_⟩
  · rw [length_append, htag, length_replicate]
  · rw [hlen, take_left, drop_left]

/-- Nothing is remembered: a session is protected against SRTCP replays only when its tag length
makes every call fail, and a packet that was accepted once is accepted whenever it comes again. -/
theorem unprotectRtcp_replay_protected_iff (suite : CipherSuite) (s : SrtpSession) :
    ((∀ packets, (acceptedSrtcpIndices suite s packets).Nodup) ↔ 20 < s.config.authTagLen) ∧
      ∀ packets p q,
        ((afterUnprotectRtcp suite s packets).unprotectRtcp suite p).result = .ok q →
        ∀ more, ((afterUnprotectRtcp suite s (packets ++ p :: more)).unprotectRtcp suite p).result =
          .ok q := by
  refine ⟨⟨?_, ?_⟩, ?_⟩
  · intro hprot
    by_contra htagLen
    -- the packet the session accepts is presented twice
    rcases exists_rtcpAccepts suite (Nat.not_lt.1 htagLen) with ⟨p, hacc⟩
    rcases unprotectRtcp_ok_iff.2 hacc with ⟨q, hq⟩
    have htwice : acceptedSrtcpIndices suite s [p, p] = [s.srtcpPacketIndex p, s.srtcpPacketIndex p] := by
      simp [acceptedSrtcpIndices, unprotectRtcp_session, hq]
    have hnodup := hprot [p, p]
    rw [htwice] at hnodup
    simp at hnodup
  · intro htagLen packets
    have hnil : acceptedSrtcpIndices suite s packets = [] := by
      induction packets with
      | nil => rfl
      | cons p ps ih =>
        cases hres : (s.unprotectRtcp suite p).result with
        | ok q =>
          have hacc := unprotectRtcp_ok_iff.1 ⟨q, hres⟩
          exact absurd htagLen (Nat.not_lt.2 hacc.tagLen)
        | error f => simpa [acceptedSrtcpIndices, hres, unprotectRtcp_session] using ih
    simp [hnil]
  · intro packets p q hq more
    simpa using hq

/-- The SRTCP packet a session with the default configuration sends first is accepted twice. -/
theorem srtcp_replay_accepted :
    ∃ s p q, new echoSuite SrtpConfig.default 0 = .ok s ∧
      (s.protectRtcp echoSuite [0x80, 200, 0, 1, 0, 0, 0, 0]).result = .ok p ∧
      (s.unprotectRtcp echoSuite p).result = .ok q ∧
      acceptedSrtcpIndices echoSuite s [p, p] = [0, 0] := by
  refine ⟨_, _, _, rfl, rfl, rfl, by decide +kernel⟩

end SrtpSession

end LingVoice.LmSrtp

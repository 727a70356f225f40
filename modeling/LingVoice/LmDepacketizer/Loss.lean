import LingVoice.LmDepacketizer.RoundTrip

/-!
# Loss — which losses the depacketizers survive

The depacketizers do not look for gaps in the sequence numbers: they only drop stale packets.  What
they remember of an unfinished frame is small, a `Tracker` follows it from the packets alone, and
`CleanLoss` says which losses cannot be mistaken for a complete frame: every frame arrives whole, or no
packet that would complete it is taken.
-/

namespace LingVoice.LmDepacketizer

open LmCore List H264Depacketizer Reply

/-! ## Losses and sequence numbers -/

/-- Every run of losses between two packets that arrive is shorter than `2 ^ 15`. -/
def ShortLosses (keep : Nat → Bool) : Prop :=
  ∀ m n, m < n → keep m = true → keep n = true → (∀ k, m < k → k < n → keep k = false) → n ≤ m + 2 ^ 15

/-- The last packet taken was the last one to arrive before place `n`. -/
def Current (keep : Nat → Bool) (n : Nat) (lastSeq : Option UInt16) : Prop :=
  ∀ seq, lastSeq = some seq →
    ∃ m < n, seq = UInt16.ofNat m ∧ keep m = true ∧ ∀ k, m < k → k < n → keep k = false

section Current

variable {keep : Nat → Bool} {n : Nat} {lastSeq : Option UInt16}

theorem current_none (n : Nat) : Current keep n none := by
  intro seq h
  cases h

theorem Current.skip (h : Current keep n lastSeq) (hlost : keep n = false) : Current keep (n + 1) lastSeq := by
  intro seq hseq
  obtain ⟨m, hlt, heq, hm, hgap⟩ := h seq hseq
  refine ⟨m, by omega, heq, hm, ?_⟩
  intro k hmk hk
  by_cases hkn : k = n
  · rw [hkn, hlost]
  · exact hgap k hmk (by omega)

theorem JustBefore.current (h : JustBefore (n + 1) lastSeq) (hkept : keep n = true) : Current keep (n + 1) lastSeq := by
  obtain ⟨m, hm, rfl⟩ := h
  obtain rfl : n = m := by omega
  intro seq hseq
  exact ⟨n, Nat.lt_succ_self n, (Option.some.inj hseq).symm, hkept, fun k hk hk' => by omega⟩

theorem Current.timely (h : Current keep n lastSeq) (hshort : ShortLosses keep) (hkept : keep n = true) :
    Timely n lastSeq := by
  cases hlast : lastSeq with
  | none => exact timely_none n
  | some seq =>
    obtain ⟨m, hlt, rfl, hm, hgap⟩ := h seq hlast
    exact timely_some hlt (hshort m n hlt hm hkept hgap)

end Current

/-! ## What a depacketizer remembers -/

/-- What a depacketizer holds open, followed from the packets it takes. -/
structure Tracker (κ : Type) where
  /-- After a packet that does not complete a frame. -/
  observe : κ → RtpPacketOut → κ
  /-- A packet that ends a frame is dropped. -/
  drops : κ → RtpPacketOut → Bool
  /-- A frame of these packets begins anew. -/
  fresh : κ → List RtpPacketOut → Bool
  /-- After a complete frame. -/
  finish : κ → κ

namespace Tracker

variable {κ : Type} (t : Tracker κ) (keep : Nat → Bool)

/-- After those of the packets that arrive. -/
def observeKept : κ → Nat → List RtpPacketOut → κ
  | k, _, [] => k
  | k, n, packet :: rest => observeKept (if keep n then t.observe k packet else k) (n + 1) rest

/-- The packet that ends the frame is lost, or arrives and is dropped. -/
def Silent : κ → Nat → List RtpPacketOut → Prop
  | _, _, [] => True
  | k, n, packet :: rest =>
    (keep n = true → packet.marker = true → t.drops k packet = true) ∧
      Silent (if keep n then t.observe k packet else k) (n + 1) rest

/-- Every frame arrives whole and begins anew, or stays silent. -/
def CleanLoss : κ → Nat → List (List RtpPacketOut) → Prop
  | _, _, [] => True
  | k, n, packets :: rest =>
    ((∀ i < packets.length, keep (n + i) = true) ∧ t.fresh k packets = true ∧
        CleanLoss (t.finish k) (n + packets.length) rest) ∨
      (t.Silent keep k n packets ∧ CleanLoss (t.observeKept keep k n packets) (n + packets.length) rest)

instance decidableSilent : ∀ k n packets, Decidable (t.Silent keep k n packets)
  | _, _, [] => inferInstanceAs (Decidable True)
  | k, n, packet :: rest =>
    have := decidableSilent (if keep n then t.observe k packet else k) (n + 1) rest
    inferInstanceAs (Decidable ((keep n = true → packet.marker = true → t.drops k packet = true) ∧ _))

instance decidableCleanLoss : ∀ k n frames, Decidable (t.CleanLoss keep k n frames)
  | _, _, [] => inferInstanceAs (Decidable True)
  | k, n, packets :: rest =>
    have := decidableCleanLoss (t.finish k) (n + packets.length) rest
    have := decidableCleanLoss (t.observeKept keep k n packets) (n + packets.length) rest
    inferInstanceAs (Decidable (((∀ i < packets.length, keep (n + i) = true) ∧ _ ∧ _) ∨ (_ ∧ _)))

end Tracker

def Sound (sent : List MediaFrame) (reply : Reply) : Prop :=
  reply.result = .frameComplete → ∃ frame ∈ sent, reply.frame = some frame

instance (sent : List MediaFrame) (reply : Reply) : Decidable (Sound sent reply) :=
  inferInstanceAs (Decidable (reply.result = .frameComplete → ∃ frame ∈ sent, reply.frame = some frame))

theorem Reply.needMore_result_ne : needMore.result ≠ .frameComplete := by
  decide

variable {sent : List MediaFrame} {reply : Reply} {packets : List RtpPacketOut} {b : UInt8} {n : Nat}
  {frame : AccessUnit}

theorem Sound.mono {sent' : List MediaFrame} (h : Sound sent reply)
    (hsub : ∀ frame ∈ sent, frame ∈ sent') : Sound sent' reply := by
  intro hcomplete
  obtain ⟨frame, hframe, heq⟩ := h hcomplete
  exact ⟨frame, hsub frame hframe, heq⟩

theorem sound_frameReplies {frame : MediaFrame}
    (hframe : frame ∈ sent) (h : reply ∈ frameReplies packets frame) : Sound sent reply := by
  rcases mem_append.mp h with hmore | hlast
  · rw [eq_of_mem_replicate hmore]
    intro hcomplete
    cases hcomplete
  · rw [mem_singleton.mp hlast]
    intro _
    exact ⟨frame, hframe, rfl⟩

/-! ## Runs with losses -/

section Run

variable {δ κ : Type} [Depacketizer δ]

/-- A depacketizer is followed by a tracker on the packets `Sent` by its packetizer. -/
structure Follows (t : Tracker κ) (lastSeq : δ → Option UInt16) (Tracks : κ → δ → Prop)
    (Sent : List RtpPacketOut → MediaFrame → Prop) : Prop where
  nonempty : ∀ packets media, Sent packets media → 0 < packets.length
  /-- A packet that does not end a frame, or is dropped. -/
  packet : ∀ packets media, Sent packets media → ∀ packet ∈ packets, ∀ k n d, Timely n (lastSeq d) →
    Tracks k d → (packet.marker = true → t.drops k packet = true) →
    let result := receivePacket d (UInt16.ofNat n, packet)
    result.2.result ≠ .frameComplete ∧ lastSeq result.1 = some (UInt16.ofNat n) ∧
      Tracks (t.observe k packet) result.1
  /-- A frame whose packets all arrive. -/
  frame : ∀ packets media, Sent packets media → ∀ k n d keep, Timely n (lastSeq d) → Tracks k d →
    t.fresh k packets = true → (∀ i < packets.length, keep (n + i) = true) →
    let result := receiveAll d (deliver keep n packets)
    result.2 = frameReplies packets media ∧
      JustBefore (n + packets.length) (lastSeq result.1) ∧ Tracks (t.finish k) result.1

namespace Follows

variable {t : Tracker κ} {lastSeq : δ → Option UInt16} {Tracks : κ → δ → Prop}
  {Sent : List RtpPacketOut → MediaFrame → Prop} {keep : Nat → Bool}

theorem receiveAll_silent (h : Follows t lastSeq Tracks Sent) (hshort : ShortLosses keep)
    {packets : List RtpPacketOut} {media : MediaFrame} (hsent : Sent packets media)
    (rest : List RtpPacketOut) (hrest : ∀ packet ∈ rest, packet ∈ packets) (k : κ) (n : Nat) (d : δ)
    (hcurrent : Current keep n (lastSeq d)) (htracks : Tracks k d) (hsilent : t.Silent keep k n rest) :
    let result := receiveAll d (deliver keep n rest)
    (∀ reply ∈ result.2, reply.result ≠ .frameComplete) ∧
      Current keep (n + rest.length) (lastSeq result.1) ∧
      Tracks (t.observeKept keep k n rest) result.1 := by
  induction rest generalizing k n d with
  | nil => exact ⟨by simp [deliver, receiveAll], hcurrent, htracks⟩
  | cons packet rest ih =>
    obtain ⟨hpacket, hothers⟩ := forall_mem_cons.mp hrest
    obtain ⟨hdrops, hnext⟩ := hsilent
    rw [length_cons, show n + (rest.length + 1) = n + 1 + rest.length by omega]
    cases hkept : keep n with
    | false =>
      simp only [hkept, Bool.false_eq_true, if_false] at hnext
      simp only [deliver, hkept, Bool.false_eq_true, if_false, Tracker.observeKept]
      exact ih hothers k (n + 1) d (hcurrent.skip hkept) htracks hnext
    | true =>
      simp only [hkept, if_true] at hnext
      obtain ⟨hresult, hseq, htracks'⟩ := h.packet packets media hsent packet hpacket k n d
        (hcurrent.timely hshort hkept) htracks (hdrops hkept)
      have hcurrent' : Current keep (n + 1) (lastSeq (receivePacket d (UInt16.ofNat n, packet)).1) :=
        JustBefore.current ⟨n, rfl, hseq⟩ hkept
      obtain ⟨hreplies, hrun⟩ := ih hothers _ (n + 1) _ hcurrent' htracks' hnext
      simp only [deliver, hkept, if_true, Tracker.observeKept]
      refine ⟨?_, hrun⟩
      exact forall_mem_cons.mpr ⟨hresult, hreplies⟩

variable {π : Type} [Packetizer π] {media : EncodedFrame → MediaFrame} (Valid : π → Prop) (Good : EncodedFrame → Prop)

/-- The run lemma: with clean losses, what is given out was sent. -/
theorem packetizeAll_sound (h : Follows t lastSeq Tracks Sent) (hshort : ShortLosses keep)
    (hpacketize : ∀ p frame, Valid p → Good frame →
      Sent (Packetizer.packetize p frame).2 (media frame) ∧ Valid (Packetizer.packetize p frame).1)
    (frames : List EncodedFrame) (hgood : ∀ frame ∈ frames, Good frame) (p : π) (hp : Valid p) (k : κ)
    (n : Nat) (d : δ) (hcurrent : Current keep n (lastSeq d)) (htracks : Tracks k d)
    (hclean : t.CleanLoss keep k n (packetizeAll p frames)) :
    ∀ reply ∈ (receiveAll d (deliver keep n (packetizeAll p frames).flatten)).2, Sound (frames.map media) reply := by
  induction frames generalizing p k n d with
  | nil => simp [packetizeAll, deliver, receiveAll]
  | cons frame rest ih =>
    obtain ⟨hframe, hrest⟩ := forall_mem_cons.mp hgood
    obtain ⟨hs, hvalid⟩ := hpacketize p frame hp hframe
    intro reply hreply
    have hcons : packetizeAll p (frame :: rest) = _ :: packetizeAll (Packetizer.packetize p frame).1 rest := rfl
    rw [hcons] at hclean hreply
    generalize (Packetizer.packetize p frame).2 = packets at hs hclean hreply
    rw [flatten_cons, deliver_append, receiveAll_append] at hreply
    rcases hclean with ⟨hkept, hfresh, hclean⟩ | ⟨hsilent, hclean⟩
    · have hpos := h.nonempty packets _ hs
      have hlast : keep (n + packets.length - 1) = true := by
        rw [Nat.add_sub_assoc hpos]
        exact hkept _ (by omega)
      obtain ⟨hreplies, hbefore, htracks'⟩ := h.frame packets _ hs k n d keep
        (hcurrent.timely hshort (hkept 0 hpos)) htracks hfresh hkept
      have hcurrent' : Current keep (n + packets.length)
          (lastSeq (receiveAll d (deliver keep n packets)).1) := by
        rw [show n + packets.length = n + packets.length - 1 + 1 by omega] at hbefore ⊢
        exact hbefore.current hlast
      rcases mem_append.mp hreply with hfirst | hlater
      · rw [hreplies] at hfirst
        exact sound_frameReplies mem_cons_self hfirst
      · exact (ih hrest _ hvalid _ _ _ hcurrent' htracks' hclean reply hlater).mono fun _ hf => mem_cons_of_mem _ hf
    · obtain ⟨hreplies, hcurrent', htracks'⟩ := h.receiveAll_silent hshort hs packets (fun _ hp => hp) k n d
        hcurrent htracks hsilent
      rcases mem_append.mp hreply with hfirst | hlater
      · exact fun hcomplete => absurd hcomplete (hreplies reply hfirst)
      · exact (ih hrest _ hvalid _ _ _ hcurrent' htracks' hclean reply hlater).mono fun _ hf => mem_cons_of_mem _ hf

end Follows

end Run

/-! ## VP8 -/

/-- A marker always completes a frame, and a first packet always begins one anew. -/
def vp8Tracker : Tracker Unit where
  observe _ _ := ()
  drops _ _ := false
  fresh _ _ := true
  finish k := k

def Vp8Sent (packets : List RtpPacketOut) (media : MediaFrame) : Prop :=
  ∃ p : Vp8Packetizer, p.mtu = rtpMtu ∧ ∃ frame : EncodedFrame, frame.frameData ≠ [] ∧
    packets = (p.packetize frame).2 ∧
    media = Vp8Depacketizer.mediaFrame frame.timestamp frame.frameData

theorem vp8_follows :
    Follows vp8Tracker Vp8Depacketizer.lastSeq (fun _ d => d.currentSsrc = 0) Vp8Sent where
  nonempty := by
    rintro _ _ ⟨p, hp, frame, hne, rfl, -⟩
    exact (Vp8Depacketizer.receiveAll_packetize hne (Vp8Depacketizer.ready_new 0) p (fun _ => true)
      (by rw [hp]; decide) (fun _ _ => rfl)).1
  packet := by
    rintro _ _ ⟨p, hp, frame, hne, rfl, -⟩ packet hpacket _ n d htimely hssrc hmarker
    obtain ⟨⟨first, last, chunk⟩, hchunk, rfl, -⟩ :=
      p.exists_piece_of_mem (by rw [hp]; decide) frame hne hpacket
    obtain rfl : last = false := Bool.eq_false_iff.mpr fun hlast => Bool.false_ne_true (hmarker hlast)
    have hreceive := Vp8Depacketizer.receivePacket_more htimely frame.timestamp first hchunk
    rw [numbered] at hreceive
    rw [hreceive]
    exact ⟨needMore_result_ne, rfl, hssrc⟩
  frame := by
    rintro _ _ ⟨p, hp, frame, hne, rfl, rfl⟩ _ n d keep htimely hssrc - hkeep
    obtain ⟨-, hreplies, hdone⟩ := Vp8Depacketizer.receiveAll_packetize hne ⟨htimely, hssrc⟩ p keep
      (by rw [hp]; decide) hkeep
    exact ⟨hreplies, hdone.justBefore, hdone.ssrc⟩

/-! ## VP9 -/

def vp9Begins (packet : RtpPacketOut) : Bool :=
  packet.payload.headD 0 &&& 0x04 != 0

/-- Is a frame open?  The end of a frame of which nothing is open is refused. -/
def vp9Tracker : Tracker Bool where
  observe opened packet := opened || vp9Begins packet
  drops opened packet := !opened && !vp9Begins packet
  fresh _ _ := true
  finish _ := false

def Vp9Sent (packets : List RtpPacketOut) (media : MediaFrame) : Prop :=
  ∃ p : Vp9Packetizer, p.mtu = rtpMtu ∧ ∃ frame : EncodedFrame, frame.frameData ≠ [] ∧
    packets = (p.packetize frame).2 ∧
    media = Vp9Depacketizer.mediaFrame frame.keyframe frame.timestamp frame.frameData

/-- No source, and a frame in the buffer only when one is open. -/
structure Vp9Tracks (opened : Bool) (d : Vp9Depacketizer) : Prop where
  ssrc : d.currentSsrc = 0
  started : d.frameStarted = true → opened = true

theorem vp9_follows : Follows vp9Tracker Vp9Depacketizer.lastSeq Vp9Tracks Vp9Sent where
  nonempty := by
    rintro _ _ ⟨p, hp, frame, hne, rfl, -⟩
    exact (Vp9Depacketizer.receiveAll_packetize hne (Vp9Depacketizer.ready_new 0) p (fun _ => true)
      (by rw [hp]; decide) (fun _ _ => rfl)).1
  packet := by
    rintro _ _ ⟨p, hp, frame, hne, rfl, -⟩ packet hpacket opened n d htimely hd hmarker
    obtain ⟨⟨first, last, chunk⟩, hchunk, rfl, -⟩ :=
      p.exists_piece_of_mem (by rw [hp]; decide) frame hne hpacket
    obtain ⟨-, -, hfirst, -⟩ := Vp9Packetizer.descriptorFlags_bits frame.keyframe first last
    have hbegins : vp9Begins (Vp9Packetizer.packet frame.keyframe p.pictureId frame.timestamp ⟨first, last, chunk⟩) =
        first := hfirst
    simp only [vp9Tracker, hbegins] at hmarker ⊢
    cases hstarted : (first || d.frameStarted) with
    | false =>
      obtain ⟨rfl, hstopped⟩ := Bool.or_eq_false_iff.mp hstarted
      have hpush := Vp9Depacketizer.pushPacket_packet htimely frame.keyframe p.pictureId frame.timestamp
        ⟨false, last, chunk⟩
      simp only [Vp9Depacketizer.acceptPacket, hstopped, Bool.false_eq_true, if_false, Bool.not_false, if_true] at hpush
      rw [receivePacket_of_error hpush]
      exact ⟨by simp, rfl, hd.ssrc, by simp⟩
    | true =>
      have hbegun : first = true ∨ d.frameStarted = true := Bool.or_eq_true_iff.mp hstarted
      have hlast : last = false := by
        cases last with
        | false => rfl
        | true =>
          obtain ⟨hopened, hfirst⟩ : opened = false ∧ first = false := by simpa using hmarker rfl
          rcases hbegun with h | h
          · rw [h] at hfirst
            cases hfirst
          · rw [hd.started h] at hopened
            cases hopened
      subst hlast
      have hreceive := Vp9Depacketizer.receivePacket_more htimely frame.keyframe p.pictureId
        frame.timestamp hchunk hbegun
      rw [numbered] at hreceive
      rw [hreceive]
      refine ⟨needMore_result_ne, rfl, hd.ssrc, fun _ => ?_⟩
      rcases hbegun with h | h
      · rw [h, Bool.or_true]
      · rw [hd.started h, Bool.true_or]
  frame := by
    rintro _ _ ⟨p, hp, frame, hne, rfl, rfl⟩ _ n d keep htimely hd - hkeep
    obtain ⟨-, hreplies, hdone⟩ := Vp9Depacketizer.receiveAll_packetize hne ⟨htimely, hd.ssrc⟩ p keep
      (by rw [hp]; decide) hkeep
    exact ⟨hreplies, hdone.justBefore, hdone.ssrc, by simp [hdone.stopped]⟩

/-! ## H.264 -/

/-- Is the packet a fragment that does not begin a unit? -/
def isContinuation (packet : RtpPacketOut) : Bool :=
  H264NaluType.fromByte (packet.payload.headD 0) == .fuA && packet.payload.tail.headD 0 &&& 0x80 == 0

def endsFu (packet : RtpPacketOut) : Bool :=
  packet.payload.tail.headD 0 &&& 0x40 != 0

/-- The timestamp of the open frame, and whether a fragmented unit is open. -/
structure H264Open where
  opened : Option UInt32
  fuOpen : Bool
  deriving DecidableEq, Repr

/-- A packet of the timestamp of the open frame goes on with it.  The end of a fragmented unit of which
nothing is open is dropped. -/
def h264Tracker : Tracker H264Open where
  observe k packet :=
    if isContinuation packet then
      { k with fuOpen := k.fuOpen && !endsFu packet }
    else if H264NaluType.fromByte (packet.payload.headD 0) = .fuA then
      { opened := some packet.timestamp, fuOpen := !endsFu packet }
    else
      { k with opened := some packet.timestamp }
  drops k packet := isContinuation packet && !k.fuOpen
  fresh k packets := packets.all fun packet => k.opened != some packet.timestamp
  finish k := { k with opened := none }

def H264Sent (packets : List RtpPacketOut) (media : MediaFrame) : Prop :=
  ∃ frame : AccessUnit,
    packets = H264Packetizer.packetizeNalus rtpMtu frame.timestamp frame.nalus ∧ media = frame.media

structure H264Tracks (k : H264Open) (d : H264Depacketizer) : Prop where
  started : d.frameStarted = true → k.opened = some d.currentTimestamp
  fuStarted : d.fuStarted = true → k.fuOpen = true

section Fragments

variable (b : UInt8) (tail : Bytes) (isLastNalu : Bool) (timestamp : UInt32)
  (piece : Lib.Fragment UInt8)

theorem isContinuation_fuPacket :
    isContinuation (H264Packetizer.fuPacket (b :: tail) isLastNalu timestamp piece) = !piece.isFirst := by
  have hbits := (fuHeader_bits b piece.isFirst piece.isLast).1
  rw [← hbits]
  simp [isContinuation, H264Packetizer.fuPacket, fuIndicator_fromByte, h264NaluType, bne]

theorem observe_fuPacket (k : H264Open) :
    h264Tracker.observe k (H264Packetizer.fuPacket (b :: tail) isLastNalu timestamp piece) =
      if piece.isFirst then { opened := some timestamp, fuOpen := !piece.isLast }
      else { k with fuOpen := k.fuOpen && !piece.isLast } := by
  have hfu : H264NaluType.fromByte
      ((H264Packetizer.fuPacket (b :: tail) isLastNalu timestamp piece).payload.headD 0) = .fuA :=
    fuIndicator_fromByte b
  have hends : endsFu (H264Packetizer.fuPacket (b :: tail) isLastNalu timestamp piece) = piece.isLast :=
    (fuHeader_bits b piece.isFirst piece.isLast).2.1
  simp only [h264Tracker, isContinuation_fuPacket, hends, hfu, if_true]
  cases piece.isFirst <;> rfl

end Fragments

variable {tail : Bytes} {d : H264Depacketizer} {k : H264Open}

theorem fromByte_single (h : 1 ≤ h264NaluType (b :: tail) ∧ h264NaluType (b :: tail) ≤ 23) :
    H264NaluType.fromByte b = .single (b &&& 0x1f) := by
  exact if_pos h

/-- A single unit that does not end its frame. -/
theorem h264_packet_single (htype : 1 ≤ h264NaluType (b :: tail) ∧ h264NaluType (b :: tail) ≤ 23) (timestamp : UInt32)
    (htimely : Timely n d.lastSeq) (hd : H264Tracks k d) :
    let result := receivePacket d (UInt16.ofNat n, ⟨b :: tail, false, timestamp⟩)
    result.2.result ≠ .frameComplete ∧ result.1.lastSeq = some (UInt16.ofNat n) ∧
      H264Tracks { k with opened := some timestamp } result.1 := by
  intro result
  have hat : AtNalu timestamp (d.openFrame timestamp).frameBuffer k.fuOpen n d :=
    ⟨htimely, rfl, hd.fuStarted⟩
  obtain ⟨hreply, hafter⟩ := receivePacket_single (cons_ne_nil b tail) htype false hat
  obtain ⟨-, htimestamp, -⟩ := hafter.frame
  obtain ⟨m, hm, hseq⟩ := hafter.justBefore
  obtain rfl : n = m := by omega
  refine ⟨?_, hseq, ?_, hafter.fuStarted⟩
  · rw [hreply]
    exact needMore_result_ne
  · intro _
    rw [htimestamp]

/-- A fragment that does not end its frame, or is dropped. -/
theorem h264_packet_fu (b : UInt8) (tail : Bytes) (isLastNalu : Bool) (timestamp : UInt32)
    (piece : Lib.Fragment UInt8) (htimely : Timely n d.lastSeq) (hd : H264Tracks k d)
    (hmarker : (isLastNalu && piece.isLast) = true → piece.isFirst = false ∧ k.fuOpen = false) :
    let packet := H264Packetizer.fuPacket (b :: tail) isLastNalu timestamp piece
    let result := receivePacket d (UInt16.ofNat n, packet)
    result.2.result ≠ .frameComplete ∧ result.1.lastSeq = some (UInt16.ofNat n) ∧
      H264Tracks (h264Tracker.observe k packet) result.1 := by
  intro packet result
  rw [observe_fuPacket]
  obtain ⟨first, last, chunk⟩ := piece
  cases first with
  | true =>
    have hmore : (isLastNalu && last) = false := by
      refine Bool.eq_false_iff.mpr fun hlast => ?_
      cases (hmarker hlast).1
    have hpush := pushPacket_firstFu b tail isLastNalu timestamp htimely last chunk
    have hreceive : result = (_, needMore) := receivePacket_of_completeOn hpush hmore
    rw [hreceive]
    refine ⟨needMore_result_ne, ?_⟩
    cases last with
    | false =>
      refine ⟨rfl, fun _ => ?_, fun _ => rfl⟩
      exact (congrArg some (d.openFrame_currentTimestamp timestamp)).symm
    | true =>
      refine ⟨rfl, fun _ => ?_, fun hfu => hfu⟩
      exact (congrArg some (d.openFrame_currentTimestamp timestamp)).symm
  | false =>
    cases hfu : d.fuStarted with
    | false =>
      -- without its start a fragment is dropped, whatever its marker
      have hpush := pushPacket_fuPacket b tail isLastNalu timestamp htimely ⟨false, last, chunk⟩
      simp only [acceptFuA, (fuHeader_bits b false last).1, hfu, Bool.false_eq_true, if_false] at hpush
      have hreceive : result = (_, needMore) := receivePacket_of_needMore hpush
      rw [hreceive]
      exact ⟨needMore_result_ne, rfl, hd.started, by simp⟩
    | true =>
      have hopen : k.fuOpen = true := hd.fuStarted hfu
      have hmore : (isLastNalu && last) = false := by
        refine Bool.eq_false_iff.mpr fun hlast => ?_
        have hclosed := (hmarker hlast).2
        rw [hopen] at hclosed
        cases hclosed
      have hpush := pushPacket_nextFu b tail isLastNalu timestamp htimely hfu last chunk
      have hreceive : result = (_, needMore) := receivePacket_of_completeOn hpush hmore
      rw [hreceive]
      refine ⟨needMore_result_ne, ?_⟩
      cases last with
      | false => exact ⟨rfl, hd.started, fun _ => by simp [hopen]⟩
      | true => exact ⟨rfl, hd.started, fun hclosed => by cases hclosed⟩

theorem h264Sent_ne_nil : 0 < (H264Packetizer.packetizeNalus rtpMtu frame.timestamp frame.nalus).length := by
  have hready : Ready 0 new := ⟨timely_none 0, rfl⟩
  exact (receiveAll_packetizeNalus (by decide) frame.nalus frame.nalus_single
    frame.nalus_ne_nil (hready.atNalu frame.timestamp) (fun _ => true) rfl (fun _ _ => rfl)).1

theorem h264_fresh (hpackets : packets = H264Packetizer.packetizeNalus rtpMtu frame.timestamp frame.nalus)
    (hfresh : h264Tracker.fresh k packets = true) : k.opened ≠ some frame.timestamp := by
  subst hpackets
  obtain ⟨packet, hpacket⟩ := exists_mem_of_length_pos h264Sent_ne_nil
  have hne := all_eq_true.mp hfresh packet hpacket
  rw [H264Packetizer.timestamp_of_mem frame.nalus_single hpacket] at hne
  simpa using hne

/-- The first packet of a frame of another timestamp than the open one clears the buffer. -/
theorem openFrame_of_fresh (hd : H264Tracks k d) {timestamp : UInt32}
    (h : k.opened ≠ some timestamp) : (d.openFrame timestamp).frameBuffer = [] := by
  have hopens : (!d.frameStarted || timestamp != d.currentTimestamp) = true := by
    cases hstarted : d.frameStarted with
    | false => rfl
    | true =>
      have hne : timestamp ≠ d.currentTimestamp := by
        rintro rfl
        exact h (hd.started hstarted)
      simpa using hne
  rw [openFrame, if_pos hopens]

theorem h264_follows : Follows h264Tracker lastSeq H264Tracks H264Sent where
  nonempty := by
    rintro _ _ ⟨frame, rfl, -⟩
    exact h264Sent_ne_nil
  packet := by
    rintro _ _ ⟨frame, rfl, -⟩ packet hpacket k n d htimely hd hmarker
    obtain ⟨b, tail, isLastNalu, htype, rfl | ⟨piece, rfl⟩⟩ :=
      H264Packetizer.exists_unit_of_mem frame.nalus_single hpacket
    · have hcontinuation : isContinuation ⟨b :: tail, isLastNalu, frame.timestamp⟩ = false := by
        simp [isContinuation, fromByte_single htype]
      obtain rfl : isLastNalu = false := by
        refine Bool.eq_false_iff.mpr fun hlast => ?_
        have hdrops := hmarker hlast
        simp only [h264Tracker, hcontinuation, Bool.false_and, Bool.false_eq_true] at hdrops
      have hobserve : h264Tracker.observe k ⟨b :: tail, false, frame.timestamp⟩ =
          { k with opened := some frame.timestamp } := by
        simp [h264Tracker, hcontinuation, fromByte_single htype]
      rw [hobserve]
      exact h264_packet_single htype frame.timestamp htimely hd
    · refine h264_packet_fu b tail isLastNalu frame.timestamp piece htimely hd fun hlast => ?_
      have hdrops := hmarker hlast
      simpa [h264Tracker, isContinuation_fuPacket] using hdrops
  frame := by
    rintro packets _ ⟨frame, hpackets, rfl⟩ k n d keep htimely hd hfresh hkeep
    have hat : AtNalu frame.timestamp [] k.fuOpen n d :=
      ⟨htimely, openFrame_of_fresh hd (h264_fresh hpackets hfresh), hd.fuStarted⟩
    obtain ⟨-, hreplies, hafter⟩ := receiveAll_packetizeNalus (by decide)
      frame.nalus frame.nalus_single frame.nalus_ne_nil hat keep hpackets hkeep
    have hstopped := hafter.frame
    refine ⟨hreplies, hafter.justBefore, ?_, hafter.fuStarted⟩
    intro hstarted
    rw [hstopped] at hstarted
    cases hstarted

/-! ## No corrupt frame -/

/-- With clean losses every `FrameComplete` gives out a frame that was sent, for each of the codecs. -/
theorem frames_sound_of_cleanLoss (keep : Nat → Bool) (hshort : ShortLosses keep) (n : Nat) :
    (∀ frames : List EncodedFrame, (∀ frame ∈ frames, frame.frameData ≠ []) →
      let packets := packetizeAll Vp8Packetizer.new frames
      vp8Tracker.CleanLoss keep () n packets →
      ∀ reply ∈ (receiveAll Vp8Depacketizer.new (deliver keep n packets.flatten)).2,
        Sound (frames.map fun frame => Vp8Depacketizer.mediaFrame frame.timestamp frame.frameData)
          reply) ∧
    (∀ frames : List EncodedFrame, (∀ frame ∈ frames, frame.frameData ≠ []) →
      let packets := packetizeAll Vp9Packetizer.new frames
      vp9Tracker.CleanLoss keep false n packets →
      ∀ reply ∈ (receiveAll Vp9Depacketizer.new (deliver keep n packets.flatten)).2,
        Sound (frames.map fun frame =>
          Vp9Depacketizer.mediaFrame frame.keyframe frame.timestamp frame.frameData) reply) ∧
    (∀ frames : List AccessUnit,
      let packets := packetizeAll H264Packetizer.new (frames.map AccessUnit.encoded)
      h264Tracker.CleanLoss keep ⟨none, false⟩ n packets →
      ∀ reply ∈ (receiveAll H264Depacketizer.new (deliver keep n packets.flatten)).2,
        Sound (frames.map AccessUnit.media) reply) := by
  refine ⟨?_, ?_, ?_⟩
  · intro frames hne packets hclean
    refine vp8_follows.packetizeAll_sound (fun p : Vp8Packetizer => p.mtu = rtpMtu)
      (fun frame => frame.frameData ≠ []) hshort ?_ frames hne _ rfl () n _ (current_none n) rfl hclean
    intro p frame hp hframe
    refine ⟨⟨p, hp, frame, hframe, rfl, rfl⟩, ?_⟩
    exact (congrArg (·.1.mtu) (p.packetize_eq frame hframe)).trans hp
  · intro frames hne packets hclean
    refine vp9_follows.packetizeAll_sound (fun p : Vp9Packetizer => p.mtu = rtpMtu)
      (fun frame => frame.frameData ≠ []) hshort ?_ frames hne _ rfl false n _ (current_none n)
      ⟨rfl, by simp [Vp9Depacketizer.new]⟩ hclean
    intro p frame hp hframe
    exact ⟨⟨p, hp, frame, hframe, rfl, rfl⟩, (p.packetize_mtu frame).trans hp⟩
  · intro frames packets hclean
    rw [← map_h264Media]
    refine h264_follows.packetizeAll_sound (fun p : H264Packetizer => p.mtu = rtpMtu)
      (fun frame => ∃ unit : AccessUnit, frame = unit.encoded) hshort ?_ _ ?_ _ rfl ⟨none, false⟩ n _
      (current_none n) ⟨by simp [new], by simp [new]⟩ hclean
    · rintro p _ hp ⟨unit, rfl⟩
      have hpackets : Packetizer.packetize p unit.encoded =
          (p, H264Packetizer.packetizeNalus p.mtu unit.timestamp unit.nalus) := unit.packetize_encoded p
      rw [hpackets, h264Media_encoded]
      exact ⟨⟨unit, by rw [hp], rfl⟩, hp⟩
    · exact forall_mem_map.mpr fun unit _ => ⟨unit, rfl⟩

theorem shortLosses_all_but (lost : Nat) : ShortLosses fun i => i != lost := by
  intro m n hlt hm hn hgap
  by_contra hfar
  have hfirst := hgap (m + 1) (by omega) (by omega)
  have hsecond := hgap (m + 2) (by omega) (by omega)
  simp only [bne_eq_false_iff_eq] at hfirst hsecond
  omega

def idrFrame (timestamp : UInt32) : AccessUnit where
  units := [(true, ⟨[0x65, 0x88, 0x84], by decide, by decide, by decide⟩)]
  ne_nil := by decide
  single := by simp [h264NaluType]; decide
  timestamp := timestamp
  keyframe := true

/-- The first packet of a run is lost.  It was the first half of a VP9 frame, whose second half is
refused; the frames behind it come out. -/
theorem frames_sound_of_first_lost :
    let keep : Nat → Bool := fun i => i != 0
    let frames : List EncodedFrame := [⟨List.replicate 1197 7, 3000, true⟩, ⟨[1, 2], 6000, false⟩]
    let units : List AccessUnit := [idrFrame 3000, idrFrame 6000]
    let packets := packetizeAll Vp9Packetizer.new frames
    let unitPackets := packetizeAll H264Packetizer.new (units.map AccessUnit.encoded)
    (ShortLosses keep ∧ vp9Tracker.CleanLoss keep false 0 packets ∧
      ∀ reply ∈ (receiveAll Vp9Depacketizer.new (deliver keep 0 packets.flatten)).2,
        Sound (frames.map fun frame =>
          Vp9Depacketizer.mediaFrame frame.keyframe frame.timestamp frame.frameData) reply) ∧
    (h264Tracker.CleanLoss keep ⟨none, false⟩ 0 unitPackets ∧
      ∀ reply ∈ (receiveAll H264Depacketizer.new (deliver keep 0 unitPackets.flatten)).2,
        Sound (units.map AccessUnit.media) reply) := by
  intro keep frames units packets unitPackets
  have hshort : ShortLosses keep := shortLosses_all_but 0
  have hclean : vp9Tracker.CleanLoss keep false 0 packets := by decide +kernel
  have hunits : h264Tracker.CleanLoss keep ⟨none, false⟩ 0 unitPackets := by decide +kernel
  obtain ⟨-, hvp9, hh264⟩ := frames_sound_of_cleanLoss keep hshort 0
  exact ⟨⟨hshort, hclean, hvp9 frames (by decide +kernel) hclean⟩, hunits, hh264 units hunits⟩

/-- Of three packets of a frame the middle one is lost: what comes out was never sent.  Of two packets
the first one is lost: the frame is announced and cannot be taken. -/
theorem lost_packet_unsound :
    let long : List EncodedFrame := [⟨List.replicate 2399 0, 3000, true⟩]
    let short : List EncodedFrame := [⟨List.replicate 1200 0, 3000, true⟩]
    let media := fun frame : EncodedFrame => Vp8Depacketizer.mediaFrame frame.timestamp frame.frameData
    (ShortLosses fun i => i != 1) ∧
    (¬ ∀ reply ∈ (receiveAll Vp8Depacketizer.new
        (deliver (fun i => i != 1) 0 (packetizeAll Vp8Packetizer.new long).flatten)).2,
      Sound (long.map media) reply) ∧
    (ShortLosses fun i => i != 0) ∧
    (receiveAll Vp8Depacketizer.new
        (deliver (fun i => i != 0) 0 (packetizeAll Vp8Packetizer.new short).flatten)).2 =
      [⟨.frameComplete, none⟩] := by
  refine ⟨shortLosses_all_but 1, ?_, shortLosses_all_but 0, ?_⟩
  · decide +kernel
  · decide +kernel

end LingVoice.LmDepacketizer

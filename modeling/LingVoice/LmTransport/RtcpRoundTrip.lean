import LingVoice.LmTransport.Rtcp

/-!
# RtcpRoundTrip — parsing what was encoded

Every packet that fits the format is read back from its encoding, with whatever follows left alone, so a
compound packet is read back packet by packet (`parseCompound_encode`).
-/

namespace LingVoice.LmTransport

open Lib List RtcpPacket Nat

/-! ## The common header -/

@[simp] theorem length_packetHeader (count pt : UInt8) (length : Nat) : (packetHeader count pt length).length = 4 := by
  simp [packetHeader]

@[simp] theorem length_finishPacket (count pt : UInt8) (body : Bytes) :
    (finishPacket count pt body).length = 4 + body.length := by
  simp [finishPacket]

theorem firstByte_fields {count : UInt8} (h : count.toNat < 32) :
    (firstByte count >>> 6) &&& 0x03 = 2 ∧ firstByte count &&& 0x1F = count := by
  have htable : ∀ n < 32, (firstByte (UInt8.ofNat n) >>> 6) &&& 0x03 = 2 ∧
      firstByte (UInt8.ofNat n) &&& 0x1F = UInt8.ofNat n := by decide +kernel
  have hcount := htable count.toNat h
  rwa [UInt8.ofNat_toNat] at hcount

structure Fitting (body : Bytes) : Prop where
  aligned : body.length % 4 = 0
  short : 4 + body.length ≤ 4 * 65536

section Header

variable (count pt : UInt8) {body : Bytes} (rest : Bytes)

theorem declaredBytes_finishPacket (h : Fitting body) :
    declaredBytes (finishPacket count pt body ++ rest) = 4 + body.length := by
  have haligned := h.aligned
  have hshort := h.short
  have hfield : StandsAt (finishPacket count pt body ++ rest) 2 (toBe 2 ((4 + body.length) / 4 - 1)) := by
    refine ⟨body ++ rest, ?_⟩
    rfl
  rw [declaredBytes, hfield.beAt]
  omega

end Header

theorem bind_ok {α β : Type} (a : α) (f : α → Except RtcpError β) : (Except.ok a >>= f) = f a :=
  rfl

theorem checkLength_ok {needed : Nat} {data : Bytes} (h : needed ≤ data.length) :
    checkLength needed data = .ok () :=
  if_neg (by omega)

section Checks

variable {count pt : UInt8} {body : Bytes}

theorem checkPt_finishPacket : checkPt pt (finishPacket count pt body) = .ok () := by
  have hpt : byteAt (finishPacket count pt body) 1 = pt := rfl
  rw [checkPt, hpt, if_neg (not_not_intro rfl)]

theorem checkFmt_finishPacket (h : count.toNat < 32) : checkFmt count (finishPacket count pt body) = .ok () := by
  have hfmt : byteAt (finishPacket count pt body) 0 &&& 0x1F = count := (firstByte_fields h).2
  rw [checkFmt, hfmt, if_neg (not_not_intro rfl)]

theorem countField_finishPacket (h : count.toNat < 32) : countField (finishPacket count pt body) = count.toNat := by
  have hcount : byteAt (finishPacket count pt body) 0 &&& 0x1F = count := (firstByte_fields h).2
  rw [countField, hcount]

theorem declaredBytes_self (h : Fitting body) : declaredBytes (finishPacket count pt body) = 4 + body.length := by
  have hdeclared := declaredBytes_finishPacket count pt [] h
  rwa [append_nil] at hdeclared

theorem checkDeclared_finishPacket (h : Fitting body) : checkDeclared (finishPacket count pt body) = .ok () := by
  rw [checkDeclared, declaredBytes_self h, length_finishPacket, if_neg (lt_irrefl _)]

/-- A packet in front of others: its own parser gets exactly its bytes. -/
theorem RtcpPacket.parse_finishPacket (hcount : count.toNat < 32) (h : Fitting body) (rest : Bytes) :
    parse (finishPacket count pt body ++ rest) =
      (parseBody (finishPacket count pt body)).map fun p =>
        (p, (finishPacket count pt body).length) := by
  have hversion : (byteAt (finishPacket count pt body ++ rest) 0 >>> 6) &&& 0x03 = 2 :=
    (firstByte_fields hcount).1
  have hdeclared := declaredBytes_finishPacket count pt rest h
  have htake : (finishPacket count pt body ++ rest).take (4 + body.length) = finishPacket count pt body :=
    take_left' (length_finishPacket count pt body)
  rw [parse, checkLength_ok (by simp; omega), bind_ok]
  simp only [hversion, checkDeclared, hdeclared, htake, length_finishPacket]
  have hlong : ¬ (finishPacket count pt body ++ rest).length < 4 + body.length := by simp
  rw [if_neg (by simp), if_neg hlong]
  cases parseBody (finishPacket count pt body) <;> rfl

end Checks

theorem standsAt_finishPacket (count pt : UInt8) (body : Bytes) : StandsAt (finishPacket count pt body) 4 body :=
  ⟨[], append_nil body⟩

/-! ## Report blocks -/

@[simp] theorem ReportBlock.length_encode (b : ReportBlock) : b.encode.length = 24 := by
  simp [encode]

theorem ReportBlock.parse_encode {b : ReportBlock} (h : b.cumulativeLost.toNat < 2 ^ 24) {data : Bytes}
    (hdata : StandsAt data 0 b.encode) : parse data = .ok (b, 24) := by
  have hlong := hdata.offset_add_length_le (ne_nil_of_length_pos (by simp))
  have hlost : UInt32.ofNat (b.cumulativeLost.toNat % 256 ^ 3) = b.cumulativeLost := by
    rw [mod_eq_of_lt (by omega), UInt32.ofNat_toNat]
  simp only [encode, standsAt_append, length_append, length_be32, length_toBe, length_singleton, reduceAdd,
    and_assoc] at hdata
  obtain ⟨hssrc, hfraction, hcumulative, hhighest, hjitter, hlsr, hdlsr⟩ := hdata
  rw [length_encode] at hlong
  rw [parse, checkLength_ok (by omega), bind_ok, hssrc.u32At, hfraction.byteAt, hcumulative.beAt, hlost,
    hhighest.u32At, hjitter.u32At, hlsr.u32At, hdlsr.u32At]
  rfl

/-- The loop reads back as many blocks as were written. -/
theorem ReportBlock.parseMany_encode (blocks : List ReportBlock)
    (h : ∀ b ∈ blocks, b.cumulativeLost.toNat < 2 ^ 24) {data : Bytes} {offset : Nat}
    (hdata : StandsAt data offset (blocks.flatMap encode)) : parseMany data blocks.length offset = .ok blocks := by
  induction blocks generalizing offset with
  | nil => rfl
  | cons b rest ih =>
    obtain ⟨hb, hrest⟩ := forall_mem_cons.1 h
    rw [flatMap_cons, standsAt_append, length_encode] at hdata
    rw [length_cons, parseMany, parse_encode hb hdata.1, bind_ok]
    simp only [ih hrest hdata.2, bind_ok]
    rfl

theorem toNat_count {n : Nat} (h : n ≤ 31) : (UInt8.ofNat (min n 31)).toNat = n := by
  rw [min_eq_left h, UInt8.toNat_ofNat', mod_eq_of_lt (by omega)]

theorem count_lt {n : Nat} (h : n ≤ 31) : (UInt8.ofNat (min n 31)).toNat < 32 := by
  rw [toNat_count h]
  omega

/-! ## Reports -/

theorem report_fields (front : Bytes) (pt : UInt8) (haligned : front.length % 4 = 0) (hfront : front.length ≤ 24)
    {blocks : List ReportBlock} (hcount : blocks.length ≤ 31) (hlost : ∀ b ∈ blocks, b.cumulativeLost.toNat < 2 ^ 24) :
    let data := finishPacket (UInt8.ofNat (min blocks.length 31)) pt (front ++ blocks.flatMap ReportBlock.encode)
    4 + front.length ≤ data.length ∧ checkDeclared data = .ok () ∧ countField data = blocks.length ∧
      StandsAt data 4 front ∧ ReportBlock.parseMany data blocks.length (4 + front.length) = .ok blocks := by
  intro data
  have hlength : (front ++ blocks.flatMap ReportBlock.encode).length = front.length + 24 * blocks.length := by
    rw [length_append, length_flatMap_const ReportBlock.length_encode]
  have hbody : StandsAt data 4 (front ++ blocks.flatMap ReportBlock.encode) := standsAt_finishPacket ..
  rw [standsAt_append] at hbody
  refine ⟨?_, checkDeclared_finishPacket ⟨by omega, by omega⟩, ?_, hbody.1,
    ReportBlock.parseMany_encode blocks hlost hbody.2⟩
  · rw [length_finishPacket, hlength]
    omega
  · rw [countField_finishPacket (count_lt hcount), toNat_count hcount]

theorem SenderReport.parse_encode {p : SenderReport} (hcount : p.reportBlocks.length ≤ 31)
    (hlost : ∀ b ∈ p.reportBlocks, b.cumulativeLost.toNat < 2 ^ 24) : parse p.encode = .ok p := by
  obtain ⟨hlength, hdeclared, hn, hfields, hblocks⟩ := report_fields (be32 p.ssrc ++ be64 p.ntpTimestamp ++
    be32 p.rtpTimestamp ++ be32 p.senderPacketCount ++ be32 p.senderOctetCount) ptSr (by simp) (by simp) hcount hlost
  simp only [standsAt_append, length_append, length_be32, length_be64, reduceAdd, and_assoc] at hlength hfields hblocks
  obtain ⟨hssrc, hntp, hrtp, hpackets, hoctets⟩ := hfields
  rw [encode, parse, checkLength_ok hlength, checkPt_finishPacket, hdeclared, hn]
  simp only [bind_ok, hblocks, hssrc.u32At, hntp.u64At, hrtp.u32At, hpackets.u32At, hoctets.u32At]
  rfl

theorem ReceiverReport.parse_encode {p : ReceiverReport} (hcount : p.reportBlocks.length ≤ 31)
    (hlost : ∀ b ∈ p.reportBlocks, b.cumulativeLost.toNat < 2 ^ 24) : parse p.encode = .ok p := by
  obtain ⟨hlength, hdeclared, hn, hssrc, hblocks⟩ :=
    report_fields (be32 p.ssrc) ptRr (by simp) (by simp) hcount hlost
  simp only [length_be32, reduceAdd] at hlength hblocks
  rw [encode, parse, checkLength_ok hlength, checkPt_finishPacket, hdeclared, hn]
  simp only [bind_ok, hblocks, hssrc.u32At]
  rfl

/-! ## Texts -/

theorem length_padBody (body : Bytes) :
    (padBody body).length % 4 = 0 ∧ body.length ≤ (padBody body).length ∧ (padBody body).length ≤ body.length + 3 := by
  rw [padBody, length_append, length_replicate]
  omega

theorem padded_fields (count pt : UInt8) (items : Bytes) (hshort : items.length ≤ 2 ^ 17 + 16) :
    let data := finishPacket count pt (padBody items)
    4 + items.length ≤ data.length ∧ declaredBytes data = data.length ∧ checkDeclared data = .ok () ∧
      StandsAt data 4 items := by
  intro data
  obtain ⟨haligned, hlow, hhigh⟩ := length_padBody items
  have hfit : Fitting (padBody items) := ⟨haligned, by omega⟩
  refine ⟨?_, ?_, checkDeclared_finishPacket hfit, ?_⟩
  · rw [length_finishPacket]
    omega
  · rw [declaredBytes_self hfit, length_finishPacket]
  · exact (standsAt_append.1 (standsAt_finishPacket count pt (padBody items))).1

theorem toNat_textLength {text : String} (h : (utf8Bytes text).length ≤ 255) :
    (UInt8.ofNat (utf8Bytes text).length).toNat = (utf8Bytes text).length := by
  rw [UInt8.toNat_ofNat', mod_eq_of_lt (by omega)]

theorem SdesPacket.parse_encode {p : SdesPacket} (h : (utf8Bytes p.cname).length ≤ 255) : parse p.encode = .ok p := by
  have hlen : min (utf8Bytes p.cname).length 255 = (utf8Bytes p.cname).length := min_eq_left h
  simp only [encode, hlen, take_length]
  obtain ⟨hlong, -, hdeclared, hfields⟩ := padded_fields 1 ptSdes
    (be32 p.ssrc ++ [1, UInt8.ofNat (utf8Bytes p.cname).length] ++ utf8Bytes p.cname ++ [0]) (by simp; omega)
  simp only [standsAt_append, length_append, length_be32, length_cons, length_nil, reduceAdd] at hlong hfields
  obtain ⟨⟨⟨hssrc, hitem⟩, htext⟩, -⟩ := hfields
  obtain ⟨htype, hitemLen⟩ := standsAt_cons.1 hitem
  rw [parse, checkLength_ok (by omega), checkPt_finishPacket, hdeclared]
  simp only [bind_ok, htype.byteAt, hitemLen.byteAt, toNat_textLength h, htext.take, hssrc.u32At,
    fromUtf8Lossy_utf8Bytes, ne_eq, not_true_eq_false, if_false]
  rw [checkLength_ok (by omega)]
  rfl

/-! ## Goodbyes -/

theorem ByePacket.parseSsrcs_encode (ssrcs : List UInt32) {data : Bytes} {offset : Nat}
    (hdata : StandsAt data offset (ssrcs.flatMap be32)) : parseSsrcs data ssrcs.length offset = .ok ssrcs := by
  induction ssrcs generalizing offset with
  | nil => rfl
  | cons ssrc rest ih =>
    rw [flatMap_cons, standsAt_append, length_be32] at hdata
    have hlength := hdata.1.offset_add_length_le (ne_nil_of_length_pos (by simp))
    rw [length_be32] at hlength
    rw [length_cons, parseSsrcs, checkLength_ok hlength]
    simp only [bind_ok, ih hdata.2, hdata.1.u32At]
    rfl

/-- A text behind `offset`, with its length in front. -/
theorem ByePacket.parseReason_encode {reason : String} (h : (utf8Bytes reason).length ≤ 255)
    {data : Bytes} {offset : Nat} (hdeclared : declaredBytes data = data.length)
    (hdata : StandsAt data offset (UInt8.ofNat (utf8Bytes reason).length :: utf8Bytes reason)) :
    parseReason data offset = reason := by
  have hlength := hdata.offset_add_length_le (cons_ne_nil _ _)
  rw [length_cons] at hlength
  rw [standsAt_cons] at hdata
  rw [parseReason, if_pos ⟨by omega, by omega⟩, hdata.1.byteAt, toNat_textLength h]
  rw [if_pos (by omega), hdata.2.take, fromUtf8Lossy_utf8Bytes]

theorem ByePacket.parse_encode {p : ByePacket} (hcount : p.ssrcs.length ≤ 31)
    (h : (utf8Bytes p.reason).length ≤ 255) : parse p.encode = .ok p := by
  have hlen : min (utf8Bytes p.reason).length 255 = (utf8Bytes p.reason).length := min_eq_left h
  -- an empty reason is written as a zero length, like any other one
  have hfield : (if 0 < (utf8Bytes p.reason).length then
      UInt8.ofNat (utf8Bytes p.reason).length :: utf8Bytes p.reason else [0]) =
      UInt8.ofNat (utf8Bytes p.reason).length :: utf8Bytes p.reason := by
    cases hbytes : utf8Bytes p.reason with
    | nil => rfl
    | cons b tail => rw [if_pos (by simp)]
  simp only [encode, hlen, take_length, hfield]
  obtain ⟨hlong, hall, hdeclared, hfields⟩ := padded_fields (UInt8.ofNat (min p.ssrcs.length 31)) ptBye
    (p.ssrcs.flatMap be32 ++ UInt8.ofNat (utf8Bytes p.reason).length :: utf8Bytes p.reason)
    (by rw [length_append, length_flatMap_const length_be32, length_cons]; omega)
  rw [standsAt_append, length_flatMap_const length_be32] at hfields
  rw [parse, checkLength_ok ?_, checkPt_finishPacket, hdeclared, countField_finishPacket (count_lt hcount),
    toNat_count hcount]
  · simp only [bind_ok, parseSsrcs_encode p.ssrcs hfields.1, parseReason_encode h hall hfields.2]
    rfl
  · -- no goodbye is shorter than two words
    have := length_padBody (p.ssrcs.flatMap be32 ++ UInt8.ofNat (utf8Bytes p.reason).length :: utf8Bytes p.reason)
    rw [length_append, length_cons] at this
    rw [length_finishPacket]
    omega

/-! ## Feedback -/

theorem PliPacket.encode_eq (p : PliPacket) :
    p.encode = finishPacket fmtPli ptPsfb (be32 p.senderSsrc ++ be32 p.mediaSsrc) := by
  simp only [encode, finishPacket, length_append, length_be32]

theorem PliPacket.parse_encode (p : PliPacket) : parse p.encode = .ok p := by
  rw [encode_eq, parse, checkLength_ok (by simp), checkPt_finishPacket, checkFmt_finishPacket (by decide)]
  have hfields := standsAt_finishPacket fmtPli ptPsfb (be32 p.senderSsrc ++ be32 p.mediaSsrc)
  rw [standsAt_append, length_be32] at hfields
  simp only [bind_ok, hfields.1.u32At, hfields.2.u32At]
  rfl

/-- The loop over entries that fill the packet to its end reads back as many as were written. -/
theorem parseEntries_encode {ε : Type} {size : Nat} {entry : Bytes → Nat → ε}
    {encode : ε → Bytes} (hsize : ∀ e, (encode e).length = size) {data : Bytes}
    (hdeclared : declaredBytes data = data.length)
    (hentry : ∀ e offset, StandsAt data offset (encode e) → entry data offset = e)
    (hpos : 0 < size) (entries : List ε) (fuel : Nat) (hfuel : entries.length < fuel) (offset : Nat)
    (hdata : StandsAt data offset (entries.flatMap encode)) (hend : data.length = offset + size * entries.length) :
    parseEntries size entry data fuel offset = entries := by
  induction entries generalizing fuel offset with
  | nil =>
    obtain ⟨fuel, rfl⟩ : ∃ m, fuel = m + 1 := ⟨fuel - 1, by omega⟩
    rw [length_nil, mul_zero] at hend
    rw [parseEntries, if_neg (by omega)]
  | cons e rest ih =>
    obtain ⟨fuel, rfl⟩ : ∃ m, fuel = m + 1 := ⟨fuel - 1, by omega⟩
    rw [flatMap_cons, standsAt_append, hsize] at hdata
    rw [length_cons, mul_succ] at hend
    rw [parseEntries, if_pos ⟨by omega, by omega⟩, hentry e offset hdata.1,
      ih fuel (by simpa using hfuel) _ hdata.2 (by omega)]

theorem length_feedback {ε : Type} {size : Nat} {encode : ε → Bytes} (hsize : ∀ e, (encode e).length = size)
    (count pt : UInt8) (sender media : UInt32) (entries : List ε) :
    (finishPacket count pt (be32 sender ++ be32 media ++ entries.flatMap encode)).length =
      12 + size * entries.length := by
  rw [length_finishPacket, length_append, length_append, length_be32, length_be32, length_flatMap_const hsize]
  omega

/-- The fields of a feedback packet: two sources, and entries to its end. -/
theorem feedback_fields {ε : Type} {size : Nat} (hwords : size % 4 = 0) (hpos : 0 < size)
    {encode : ε → Bytes} (hsize : ∀ e, (encode e).length = size) {entry : Bytes → Nat → ε}
    (hentry : ∀ data e offset, StandsAt data offset (encode e) → entry data offset = e)
    (count pt : UInt8) (sender media : UInt32) (entries : List ε) (hne : entries ≠ [])
    (hshort : 12 + size * entries.length ≤ 4 * 65536) :
    let body := be32 sender ++ be32 media ++ entries.flatMap encode
    let data := finishPacket count pt body
    12 + size ≤ data.length ∧ u32At data 4 = sender ∧ u32At data 8 = media ∧
      parseEntries size entry data data.length 12 = entries := by
  intro body data
  have hcount : 0 < entries.length := length_pos_of_ne_nil hne
  have hlength : data.length = 12 + size * entries.length := length_feedback hsize count pt sender media entries
  have hbody : data.length = 4 + body.length := length_finishPacket count pt body
  have hmany : entries.length ≤ size * entries.length := Nat.le_mul_of_pos_left _ hpos
  have hone : size ≤ size * entries.length := Nat.le_mul_of_pos_right _ hcount
  have haligned : (size * entries.length) % 4 = 0 := by
    rw [mul_mod, hwords, zero_mul, zero_mod]
  have hfit : Fitting body := ⟨by omega, by omega⟩
  have hfields := standsAt_finishPacket count pt body
  rw [standsAt_append, standsAt_append, length_append, length_be32, length_be32] at hfields
  obtain ⟨⟨hsender, hmedia⟩, hentries⟩ := hfields
  have hdeclared : declaredBytes data = data.length := by
    rw [declaredBytes_self hfit, length_finishPacket]
  refine ⟨by omega, hsender.u32At, hmedia.u32At, ?_⟩
  exact parseEntries_encode hsize hdeclared (hentry data) hpos entries _ (by omega) 12 hentries hlength

theorem FirPacket.entry_encode (data : Bytes) (e : FirEntry) (offset : Nat)
    (h : StandsAt data offset (be32 e.ssrc ++ [e.seq, 0, 0, 0])) :
    (⟨u32At data offset, byteAt data (offset + 4)⟩ : FirEntry) = e := by
  rw [standsAt_append, standsAt_cons, length_be32] at h
  rw [h.1.u32At, h.2.1.byteAt]

theorem NackPacket.item_encode (data : Bytes) (item : NackItem) (offset : Nat)
    (h : StandsAt data offset (be16 item.pid ++ be16 item.blp)) :
    (⟨u16At data offset, u16At data (offset + 2)⟩ : NackItem) = item := by
  rw [standsAt_append, length_be16] at h
  rw [h.1.u16At, h.2.u16At]

theorem FirPacket.length_encode (p : FirPacket) : p.encode.length = 12 + 8 * p.entries.length :=
  length_feedback (fun e => by simp) ..

theorem NackPacket.length_encode (p : NackPacket) : p.encode.length = 12 + 4 * p.items.length :=
  length_feedback (fun item => by simp) ..

theorem FirPacket.parse_encode {p : FirPacket} (hne : p.entries ≠ [])
    (hshort : p.encode.length ≤ 4 * 65536) : parse p.encode = .ok p := by
  rw [length_encode] at hshort
  obtain ⟨hlength, hsender, hmedia, hentries⟩ := feedback_fields (by decide) (by decide)
    (fun e : FirEntry => by simp) entry_encode fmtFir ptPsfb p.senderSsrc p.mediaSsrc p.entries hne hshort
  rw [encode, parse, checkLength_ok (by omega), checkPt_finishPacket, checkFmt_finishPacket (by decide)]
  simp only [bind_ok, hsender, hmedia, hentries]
  rfl

theorem NackPacket.parse_encode {p : NackPacket} (hne : p.items ≠ [])
    (hshort : p.encode.length ≤ 4 * 65536) : parse p.encode = .ok p := by
  rw [length_encode] at hshort
  obtain ⟨hlength, hsender, hmedia, hitems⟩ := feedback_fields (by decide) (by decide)
    (fun item : NackItem => by simp) item_encode fmtNack ptRtpfb p.senderSsrc p.mediaSsrc p.items hne hshort
  rw [encode, parse, checkLength_ok (by omega), checkPt_finishPacket, checkFmt_finishPacket (by decide)]
  simp only [bind_ok, hsender, hmedia, hitems]
  rfl

/-! ## Packets of any type -/

namespace RtcpPacket

/-- The counts and texts have room in their fields, and the packet in its length field. -/
def Fits (packet : RtcpPacket) : Prop :=
  packet.encode.length ≤ 4 * 65536 ∧
  match packet with
  | senderReport p =>
    p.reportBlocks.length ≤ 31 ∧ ∀ b ∈ p.reportBlocks, b.cumulativeLost.toNat < 2 ^ 24
  | receiverReport p =>
    p.reportBlocks.length ≤ 31 ∧ ∀ b ∈ p.reportBlocks, b.cumulativeLost.toNat < 2 ^ 24
  | sdes p => (utf8Bytes p.cname).length ≤ 255
  | bye p => p.ssrcs.length ≤ 31 ∧ (utf8Bytes p.reason).length ≤ 255
  | pli _ => True
  | fir p => p.entries ≠ []
  | nack p => p.items ≠ []

instance (packet : RtcpPacket) : Decidable packet.Fits :=
  match packet with
  | senderReport _ => inferInstanceAs (Decidable (_ ∧ _ ∧ _))
  | receiverReport _ => inferInstanceAs (Decidable (_ ∧ _ ∧ _))
  | sdes _ => inferInstanceAs (Decidable (_ ∧ _))
  | bye _ => inferInstanceAs (Decidable (_ ∧ _ ∧ _))
  | pli _ => inferInstanceAs (Decidable (_ ∧ True))
  | fir p => inferInstanceAs (Decidable (_ ∧ p.entries ≠ []))
  | nack p => inferInstanceAs (Decidable (_ ∧ p.items ≠ []))

theorem parseBody_encode {packet : RtcpPacket} (h : packet.Fits) : parseBody packet.encode = .ok packet := by
  obtain ⟨hshort, hfits⟩ := h
  -- type and format are constants of each encoder, so the choice of the parser is by computation
  cases packet with
  | senderReport p => exact congrArg (senderReport <$> ·) (SenderReport.parse_encode hfits.1 hfits.2)
  | receiverReport p => exact congrArg (receiverReport <$> ·) (ReceiverReport.parse_encode hfits.1 hfits.2)
  | sdes p => exact congrArg (sdes <$> ·) (SdesPacket.parse_encode hfits)
  | bye p => exact congrArg (bye <$> ·) (ByePacket.parse_encode hfits.1 hfits.2)
  | pli p =>
    have hfmt : byteAt p.encode 0 &&& 0x1F = fmtPli := (firstByte_fields (by decide)).2
    rw [encode, parseBody, hfmt]
    exact congrArg (pli <$> ·) (PliPacket.parse_encode p)
  | fir p =>
    have hfmt : byteAt p.encode 0 &&& 0x1F = fmtFir := (firstByte_fields (by decide)).2
    rw [encode, parseBody, hfmt]
    exact congrArg (fir <$> ·) (FirPacket.parse_encode hfits hshort)
  | nack p =>
    have hfmt : byteAt p.encode 0 &&& 0x1F = fmtNack := (firstByte_fields (by decide)).2
    rw [encode, parseBody, hfmt]
    exact congrArg (nack <$> ·) (NackPacket.parse_encode hfits hshort)

/-- Every encoding is a header and a body of whole words. -/
theorem exists_finishPacket {packet : RtcpPacket} (h : packet.Fits) :
    ∃ count pt body, packet.encode = finishPacket count pt body ∧ count.toNat < 32 ∧ body.length % 4 = 0 := by
  obtain ⟨-, hfits⟩ := h
  cases packet with
  | senderReport p =>
    refine ⟨_, _, _, rfl, count_lt hfits.1, ?_⟩
    simp only [length_append, length_be32, length_be64, length_flatMap_const ReportBlock.length_encode]
    omega
  | receiverReport p =>
    refine ⟨_, _, _, rfl, count_lt hfits.1, ?_⟩
    simp only [length_append, length_be32, length_flatMap_const ReportBlock.length_encode]
    omega
  | sdes p => exact ⟨_, _, _, rfl, by decide, (length_padBody _).1⟩
  | bye p =>
    refine ⟨_, _, _, rfl, count_lt hfits.1, (length_padBody _).1⟩
  | pli p => exact ⟨_, _, _, p.encode_eq, by decide, by simp⟩
  | fir p =>
    refine ⟨_, _, _, rfl, by decide, ?_⟩
    have hlength := p.length_encode
    rw [FirPacket.encode, length_finishPacket] at hlength
    omega
  | nack p =>
    refine ⟨_, _, _, rfl, by decide, ?_⟩
    have hlength := p.length_encode
    rw [NackPacket.encode, length_finishPacket] at hlength
    omega

/-- A packet is read back from the front of the data, and what follows is left alone. -/
theorem parse_encode_append {packet : RtcpPacket} (h : packet.Fits) (rest : Bytes) :
    parse (packet.encode ++ rest) = .ok (packet, packet.encode.length) := by
  obtain ⟨count, pt, body, hencode, hcount, haligned⟩ := exists_finishPacket h
  have hshort := h.1
  have hbody := parseBody_encode h
  rw [hencode] at hshort hbody ⊢
  rw [length_finishPacket] at hshort
  rw [parse_finishPacket hcount ⟨haligned, hshort⟩, hbody]
  rfl

end RtcpPacket

/-! ## Compound packets -/

theorem parsePackets_encode (packets : List RtcpPacket) (hfits : ∀ p ∈ packets, p.Fits) (fuel : Nat)
    (hfuel : packets.length ≤ fuel) : parsePackets fuel (packets.flatMap encode) = .ok packets := by
  induction packets generalizing fuel with
  | nil => cases fuel <;> rfl
  | cons packet rest ih =>
    obtain ⟨hfirst, hrest⟩ := forall_mem_cons.1 hfits
    obtain ⟨fuel, rfl⟩ : ∃ m, fuel = m + 1 := ⟨fuel - 1, by simp at hfuel; omega⟩
    have hparse := parse_encode_append hfirst (rest.flatMap encode)
    have hdrop : (packet.encode ++ rest.flatMap encode).drop packet.encode.length =
        rest.flatMap encode := drop_left
    obtain ⟨count, pt, body, hencode, -⟩ := exists_finishPacket hfirst
    obtain ⟨b, tail, hcons⟩ : ∃ b tail, packet.encode ++ rest.flatMap encode = b :: tail := by
      rw [hencode]
      exact ⟨_, _, rfl⟩
    rw [flatMap_cons, hcons, parsePackets]
    rw [hcons] at hparse hdrop
    rw [hparse, bind_ok]
    simp only [hdrop, ih hrest fuel (by simpa using hfuel), bind_ok]
    rfl

theorem RtcpPacket.encode_ne_nil {packet : RtcpPacket} (h : packet.Fits) : packet.encode ≠ [] := by
  obtain ⟨count, pt, body, hencode, -⟩ := exists_finishPacket h
  rw [hencode]
  exact cons_ne_nil _ _

/-- What was encoded is parsed: any non-empty list of packets that fit, in one compound packet. -/
theorem parseCompound_encode (packets : List RtcpPacket) (hne : packets ≠ [])
    (hfits : ∀ p ∈ packets, p.Fits) :
    parseCompound (packets.flatMap RtcpPacket.encode) = .ok packets := by
  have hlength : packets.length ≤ (packets.flatMap encode).length :=
    length_le_flatMap fun p hp => encode_ne_nil (hfits p hp)
  have hpos : 0 < packets.length := length_pos_of_ne_nil hne
  have hnonempty : (packets.flatMap encode).isEmpty = false := by
    rw [isEmpty_eq_false_iff, ← length_pos_iff]
    omega
  rw [parseCompound, hnonempty]
  exact parsePackets_encode packets hfits _ hlength

/-- A report with a source description and a goodbye. -/
theorem parseCompound_encode_report : let packets : List RtcpPacket :=
      [.receiverReport ⟨7, [⟨1, 2, 3, 4, 5, 6, 8⟩]⟩, .sdes ⟨7, "ab"⟩, .bye ⟨[], "é"⟩, .nack ⟨1, 2, [⟨65535, 3⟩]⟩]
    (packets ≠ [] ∧ ∀ p ∈ packets, p.Fits) ∧
      parseCompound (packets.flatMap RtcpPacket.encode) = .ok packets := by
  intro packets
  have hne : packets ≠ [] := by decide
  have hfits : ∀ p ∈ packets, p.Fits := by decide +kernel
  exact ⟨⟨hne, hfits⟩, parseCompound_encode packets hne hfits⟩

end LingVoice.LmTransport

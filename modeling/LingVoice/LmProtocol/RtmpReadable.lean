import LingVoice.LmProtocol.RtmpRemuxer
import LingVoice.Rtmp.ChunkRoundTrip
import LingVoice.Rtmp.ChunkUntimed

/-!
# RtmpReadable — `ChunkReader` on the output of `RtmpRemuxer`

A message in one chunk with a timestamp below the mark is written as the Go `ChunkWriter` writes it
(`encodes_chunksOf`), so a run of such messages is read back by the round trip of the chunk stream.

Two things go wrong in other runs.  A timestamp of `0xFFFFFF` and above is cut to its low 24 bits; if these
are the mark, the reader takes the first bytes of the payload for the timestamp.  And a continuation is taken
for a new message on chunk stream 7, whose header is made of the payload.  What the reader then returns may even be
right, so the question is asked for all frames with the same headers and as many data.
-/

namespace LingVoice.LmProtocol.RtmpRemuxer

open Lib List Rtmp.ChunkReader Rtmp.ChunkWriter Rtmp.ChunkState Nat Rtmp ChunkReader
open LmCore
open Rtmp (Message ChunkReader ChunkState newChunkReader chunkBytes messageHeader buildBasicHeader extTimestamp
  timestampField)

/-! ## The messages of a run -/

def metadataMessage (frame : MediaFrame) : Message :=
  { type := RtmpMessageType.dataAmf0.code
    streamID := 1
    csid := 4
    timestamp := 0
    payload := generateMetadata frame.codec frame.codec }

def mediaMessage (frame : MediaFrame) : Message :=
  { type := messageType frame.kind
    streamID := 1
    csid := csId frame.kind
    timestamp := timestampMs frame
    payload := payload frame }

/-- What a reader should return: the metadata before the first frame, then one message per frame. -/
def messages : List MediaFrame → List Message
  | [] => []
  | frame :: frames => metadataMessage frame :: (frame :: frames).map mediaMessage

def readOutput (size : UInt32) (frames : List MediaFrame) : List Message :=
  ((newChunkReader ((new.setChunkSize size).output frames)).setChunkSize size.toNat).readAll.1

def chunksOf (r : RtmpRemuxer) (msg : Message) : Bytes :=
  r.createChunk .type0 msg.csid msg.timestamp msg.type msg.streamID msg.payload

theorem output_eq (size : UInt32) (frames : List MediaFrame) :
    (new.setChunkSize size).output frames = (messages frames).flatMap (chunksOf (new.setChunkSize size)) := by
  cases frames with
  | nil => rfl
  | cons frame frames =>
    rcases pushFrame_eq (r := new.setChunkSize size) rfl frame with ⟨hsize, hbuffer, hsent, hout⟩
    have hrest := output_of_metadataSent hbuffer hsent frames
    rw [mediaChunk_congr hsize, output] at hrest
    rw [output, Lib.Mealy.run_cons, flatten_cons, hout, hrest]
    simp only [messages, flatMap_cons, flatMap_map, append_assoc]
    rfl

/-! ## The bytes of a message -/

/-- One of the messages of the remuxer: three chunk streams, and a length that fits its field. -/
structure Sent (msg : Message) : Prop where
  csid : msg.csid = 4 ∨ msg.csid = 6 ∨ msg.csid = 7
  nonempty : msg.payload ≠ []
  length_lt : msg.payload.length < 2 ^ 24

def continuation (r : RtmpRemuxer) (msg : Message) : Bytes :=
  if r.chunkSize.toNat < msg.payload.length then
    continueChunks r.chunkSize msg.csid msg.payload msg.payload.length r.chunkSize.toNat
  else
    []

def headerBytes (msg : Message) : Bytes :=
  buildBasicHeader 0 msg.csid ++
    (toBe 3 msg.timestamp.toNat ++ toBe 3 msg.payload.length ++ [msg.type] ++ toLe 4 msg.streamID.toNat)

variable {msg : Message} {r : RtmpRemuxer} {frame : MediaFrame} {frames : List MediaFrame}

theorem Sent.forall_csid (h : Sent msg) {p : UInt32 → Prop} (hp : p 4 ∧ p 6 ∧ p 7) : p msg.csid := by
  rcases h.csid with hcsid | hcsid | hcsid
  · exact hcsid ▸ hp.1
  · exact hcsid ▸ hp.2.1
  · exact hcsid ▸ hp.2.2

theorem Sent.basicHeader (h : Sent msg) :
    buildBasicHeader 0 msg.csid = [(ChunkType.type0.code <<< 6) ||| (msg.csid.toUInt8 &&& 0x3f)] :=
  h.forall_csid (p := fun c => buildBasicHeader 0 c = [_ ||| (c.toUInt8 &&& 0x3f)]) (by decide)

theorem Sent.wellFormed (h : Sent msg) (ts : UInt32) : ({ msg with timestamp := ts } : Message).WellFormed :=
  ⟨h.nonempty, h.length_lt, h.forall_csid (p := fun c => 2 ≤ c ∧ c ≤ 65599) (by decide)⟩

theorem chunksOf_eq (r : RtmpRemuxer) (h : Sent msg) :
    r.chunksOf msg = headerBytes msg ++ (msg.payload.take r.chunkSize.toNat ++ r.continuation msg) := by
  have hlength : (UInt32.ofNat msg.payload.length).toNat = msg.payload.length := by
    have hlt := h.length_lt
    rw [UInt32.toNat_ofNat', mod_eq_of_lt (by omega)]
  have htake : msg.payload.take (min msg.payload.length r.chunkSize.toNat) = msg.payload.take r.chunkSize.toNat := by
    rw [min_comm, ← take_take, take_length]
  have hrest : (if r.chunkSize.toNat < msg.payload.length then
      continueChunks r.chunkSize msg.csid msg.payload msg.payload.length
        (min msg.payload.length r.chunkSize.toNat) else []) = r.continuation msg := by
    unfold continuation
    split
    · rw [min_eq_right (by omega)]
    · rfl
  have hts := bytes_uint24 msg.timestamp
  have hlen := bytes_uint24 (UInt32.ofNat msg.payload.length)
  rw [hlength] at hlen
  rw [chunksOf, createChunk, headerBytes, h.basicHeader, ← hts, ← hlen]
  simp only [if_true, htake, hrest, append_assoc, cons_append, nil_append]

/-! ## Messages that fit into one chunk -/

/-- The message is one chunk, and its timestamp fits the field. -/
def OneChunk (size : Nat) (msg : Message) : Prop :=
  msg.payload.length ≤ size ∧ msg.timestamp < 0xFFFFFF

instance (size : Nat) (msg : Message) : Decidable (OneChunk size msg) :=
  inferInstanceAs (Decidable (_ ∧ _))

/-- Such a message is written as the `ChunkWriter` of the reader's side writes it. -/
theorem encodes_chunksOf (cw : ChunkWriter) (hsize : cw.chunkSize = r.chunkSize.toNat) (h : Sent msg)
    (hone : OneChunk cw.chunkSize msg) : cw.Encodes r.chunksOf msg := by
  rcases hone with ⟨hfit, hts⟩
  have hne : ¬ msg.payload.length = 0 := fun hzero => h.nonempty (length_eq_zero_iff.1 hzero)
  have hcsid : msg.csid ≠ 0 := h.forall_csid (p := (· ≠ 0)) (by decide)
  have hext : extTimestamp msg.timestamp = [] := if_neg (UInt32.not_le.2 hts)
  have hfield : timestampField msg.timestamp = toBe 3 msg.timestamp.toNat := by
    rw [timestampField, if_neg (UInt32.not_le.2 hts)]
  have hrest (n : Nat) : cw.writeRest msg.csid msg.timestamp msg.payload n msg.payload.length = [] := by
    cases n with
    | zero => rfl
    | succ n => rw [writeRest, if_neg (lt_irrefl _)]
  have hcontinuation : r.continuation msg = [] := by
    rw [continuation, if_neg]
    omega
  have htake : msg.payload.take r.chunkSize.toNat = msg.payload := by
    rw [← hsize, take_of_length_le hfit]
  refine ⟨h.wellFormed msg.timestamp, hts, ?_⟩
  rw [chunksOf_eq r h, hcontinuation, htake, writeMessage, if_neg hne, if_neg hcsid]
  simp only [min_eq_left hfit, hrest, hext, hfield, headerBytes, take_length, append_nil,
    flatten_cons, flatten_nil, append_assoc]

variable {msgs : List Message} {size : Nat}

/-! ## A message that does not -/

/-- The reader takes `ts` for the timestamp: the field says so, or it says that four bytes follow. -/
theorem readChunk_header (h : Sent msg) {ts : UInt32}
    (hfield : toBe 3 msg.timestamp.toNat = timestampField ts) (st0 : ChunkState) :
    ∃ st, Reassembles { msg with timestamp := ts } 0 st ∧
      ∀ (cr : ChunkReader) (rest : Bytes), cr.states msg.csid = st0 →
        cr.input = headerBytes msg ++ (extTimestamp ts ++ rest) →
        cr.readChunk = cr.readData msg.csid st rest := by
  rcases readMessageHeader_fmt0 (h.wellFormed ts) st0 with ⟨st, hst, hheader⟩
  refine ⟨st, hst, ?_⟩
  intro cr rest hstate hinput
  have hbytes : cr.input = chunkBytes .fmt0 ts { msg with timestamp := ts } rest ++ [] := by
    rw [hinput, headerBytes, hfield, chunkBytes, messageHeader]
    simp only [append_assoc, append_nil]
    rfl
  have hread : cr.readChunk = cr.readData msg.csid st (rest ++ []) := by
    refine readChunk_chunkBytes (h.wellFormed ts) hbytes ?_
    rw [hstate]
    exact hheader (rest ++ [])
  rw [append_nil] at hread
  exact hread

/-- The messages of frames: an FLV header comes first, and a count of milliseconds has 27 bits at most. -/
structure Media (msg : Message) : Prop extends Sent msg where
  timestamp_lt : msg.timestamp.toNat < 2 ^ 28
  firstByte : ∃ b rest, msg.payload = b :: rest ∧ 16 ≤ b.toNat

section Timestamp

variable {msg : Message} {cr : ChunkReader}

theorem exists_timestamp {n : Nat} (h : n < 2 ^ 32) : ∃ ts : UInt32, ts.toNat = n ∧ (0xFFFFFF ≤ ts ↔ 0xFFFFFF ≤ n) := by
  obtain ⟨ts, rfl⟩ : ∃ ts : UInt32, ts.toNat = n := ⟨.ofNat n, UInt32.toNat_ofNat_of_lt' h⟩
  exact ⟨ts, rfl, UInt32.le_iff_toNat_le⟩

theorem timestampField_of_ne (hmark : msg.timestamp.toNat % 2 ^ 24 ≠ 0xFFFFFF) :
    ∃ ts : UInt32, ts.toNat = msg.timestamp.toNat % 2 ^ 24 ∧
      toBe 3 msg.timestamp.toNat = timestampField ts ∧ extTimestamp ts = [] := by
  obtain ⟨ts, hts, hiff⟩ := exists_timestamp (n := msg.timestamp.toNat % 2 ^ 24) (by omega)
  have hsmall : ¬ 0xFFFFFF ≤ ts := mt hiff.1 (by omega)
  refine ⟨ts, hts, ?_, if_neg hsmall⟩
  rw [timestampField, if_neg hsmall, hts, toBe_eq_iff]
  exact (mod_mod _ _).symm

/-- A field with the mark: the reader takes four bytes of the payload for the timestamp. -/
theorem timestampField_of_mark (hmark : msg.timestamp.toNat % 2 ^ 24 = 0xFFFFFF) {b c d e : UInt8} (hb : 16 ≤ b.toNat) :
    ∃ ts : UInt32, 2 ^ 28 ≤ ts.toNat ∧ toBe 3 msg.timestamp.toNat = timestampField ts ∧
      extTimestamp ts = [b, c, d, e] := by
  have hval : ofBe [b, c, d, e] = ((b.toNat * 256 + c.toNat) * 256 + d.toNat) * 256 + e.toNat := by simp [ofBe]
  have hge : 2 ^ 28 ≤ ofBe [b, c, d, e] := by omega
  have hlt : ofBe [b, c, d, e] < 256 ^ 4 := ofBe_lt _
  obtain ⟨ts, hts, hiff⟩ := exists_timestamp (by omega : ofBe [b, c, d, e] < 2 ^ 32)
  have hbig : 0xFFFFFF ≤ ts := hiff.2 (by omega)
  refine ⟨ts, by omega, ?_, ?_⟩
  · rw [timestampField, if_pos hbig, toBe_eq_iff]
    exact hmark
  · rw [extTimestamp, if_pos hbig, hts]
    exact toBe_ofBe [b, c, d, e]

variable {rest : Bytes}

/-- With fewer than four bytes behind the header the reader gives up. -/
theorem readChunk_short (h : Sent msg) (hmark : msg.timestamp.toNat % 2 ^ 24 = 0xFFFFFF)
    (hrest : rest.length < 4) (hinput : cr.input = headerBytes msg ++ rest) : ∃ e, cr.readChunk = .error e := by
  obtain ⟨hdr, hhdr⟩ : ∃ hdr, toBe 3 msg.timestamp.toNat ++ toBe 3 msg.payload.length ++ [msg.type] ++
      toLe 4 msg.streamID.toNat = hdr := ⟨_, rfl⟩
  have hlen : hdr.length = 11 := by simp [← hhdr]
  have hfield : uint24 hdr 0 = 0xFFFFFF := by
    have htake : (hdr.drop 0).take 3 = toBe 3 0xFFFFFF := by
      rw [(header_fields (length_toBe 3 _) (length_toBe 3 _) hhdr).1, toBe_eq_iff]
      exact hmark
    exact uint24_eq htake (by decide)
  obtain ⟨e, hread⟩ : ∃ e, readFull 4 rest = .error e := by
    rw [readFull, if_neg (by omega)]
    split
    · exact ⟨_, rfl⟩
    · exact ⟨_, rfl⟩
  have hbasic : readBasicHeader cr.input = .ok ((0, msg.csid), hdr ++ rest) := by
    have hwell := h.wellFormed 0
    have hfmt : 0 < 4 := by decide
    rw [hinput, headerBytes, hhdr, append_assoc]
    exact readBasicHeader_buildBasicHeader hfmt hwell.2.2.1 hwell.2.2.2 _
  refine ⟨.readExtTimestamp 0 e, ?_⟩
  simp only [readChunk, hbasic, Except.mapError, bind, Except.bind, readMessageHeader, if_true,
    readFields, readFull_append hlen, readTimestamp, hfield, hread]

/-- Where the data of a message fit into a chunk, the message is the next one that is returned. -/
theorem readData_whole {st : ChunkState} (hst : Reassembles msg 0 st) (hne : msg.payload ≠ [])
    (hfit : msg.payload.length ≤ cr.chunkSize) (csid : UInt32) (input : Bytes) :
    (∃ e, cr.readData csid st input = .error e) ∨
      ∃ cr' out, cr.readData csid st input = .ok (cr', some out) ∧ out.timestamp = msg.timestamp := by
  have hpos : 0 < msg.payload.length := length_pos_iff.2 hne
  have hopen : ¬ st.msgLength.toNat ≤ st.bytesRead := by
    rw [hst.msgLength, hst.bytesRead]
    omega
  rw [readData_eq, if_neg hopen]
  cases hread : readFull (min (st.msgLength.toNat - st.bytesRead) cr.chunkSize) input with
  | error e => exact .inl ⟨_, rfl⟩
  | ok r =>
    rcases r with ⟨data, rest⟩
    have hlen := (readFull_ok hread).1
    have hall : st.msgLength.toNat ≤ st.bytesRead + data.length := by
      rw [hlen, hst.msgLength, hst.bytesRead]
      omega
    simp only [message_received csid hall]
    exact .inr ⟨_, _, rfl, hst.timestamp⟩

/-- Where the reader takes another timestamp, it does not return the message. -/
theorem readAll_timestamp (h : Sent msg) (hfit : msg.payload.length ≤ cr.chunkSize) {ts : UInt32}
    (hne : ts ≠ msg.timestamp) (hfield : toBe 3 msg.timestamp.toNat = timestampField ts)
    (hinput : cr.input = headerBytes msg ++ (extTimestamp ts ++ rest)) : cr.readAll.1.head? ≠ some msg := by
  rcases readChunk_header h hfield (cr.states msg.csid) with ⟨st, hst, hread⟩
  have hchunk := hread cr rest rfl hinput
  rcases readData_whole hst h.nonempty hfit msg.csid rest with ⟨e, hdata⟩ | ⟨cr', out, hdata, hout⟩
  · rw [readAll_eq, hchunk, hdata]
    simp
  · rw [hdata] at hchunk
    rw [readAll_of_readChunk hchunk]
    intro heq
    have hmsg : out = msg := Option.some.inj heq
    rw [hmsg] at hout
    exact hne hout.symm

/-- A late message in one chunk is not returned: it has another timestamp, or the stream ends before it. -/
theorem readAll_late (h : Media msg) (hfit : msg.payload.length ≤ cr.chunkSize) (hlate : 0xFFFFFF ≤ msg.timestamp.toNat)
    (hinput : cr.input = headerBytes msg ++ (msg.payload ++ rest)) : cr.readAll.1.head? ≠ some msg := by
  by_cases hmark : msg.timestamp.toNat % 2 ^ 24 = 0xFFFFFF
  · rcases h.firstByte with ⟨b, tail, hpayload, hb⟩
    rw [hpayload, cons_append] at hinput
    -- the bytes behind the header are taken for the timestamp
    match hrest : tail ++ rest with
    | c :: d :: e :: rest' =>
      rcases timestampField_of_mark hmark hb (c := c) (d := d) (e := e) with ⟨ts, hts, hfield, hext⟩
      have hne : ts ≠ msg.timestamp := by
        intro heq
        have hlt := h.timestamp_lt
        rw [heq] at hts
        omega
      have hbytes : cr.input = headerBytes msg ++ (extTimestamp ts ++ rest') := by
        rw [hext, hinput, hrest]
        rfl
      exact readAll_timestamp h.toSent hfit hne hfield hbytes
    | [] | [_] | [_, _] =>
      rw [hrest] at hinput
      rcases readChunk_short h.toSent hmark (by simp) hinput with ⟨e, hread⟩
      rw [readAll_eq, hread]
      simp
  · rcases timestampField_of_ne hmark with ⟨ts, hts, hfield, hext⟩
    have hne : ts ≠ msg.timestamp := by
      intro heq
      rw [heq] at hts
      omega
    have hbytes : cr.input = headerBytes msg ++ (extTimestamp ts ++ (msg.payload ++ rest)) := by
      rw [hext]
      exact hinput
    exact readAll_timestamp h.toSent hfit hne hfield hbytes

end Timestamp

theorem rel_of_head? {M : Message → Message → Prop} {xs ys : List Message} {x y : Message}
    (h : Forall₂ M xs ys) (hx : xs.head? = some x) (hy : ys.head? = some y) : M x y := by
  cases h with
  | nil => cases hx
  | cons hxy _ =>
    cases hx
    cases hy
    exact hxy

def withByte (msg : Message) (front back : Bytes) (x : UInt8) : Message :=
  { msg with payload := front ++ x :: back }

/-- The loop sees nothing of what is before its offset. -/
theorem continueChunks_congr (size csId : UInt32) {payload payload' : Bytes}
    (hlen : payload'.length = payload.length) (fuel : Nat) {offset : Nat}
    (hdrop : payload'.drop offset = payload.drop offset) :
    continueChunks size csId payload' fuel offset = continueChunks size csId payload fuel offset := by
  induction fuel generalizing offset with
  | zero => rfl
  | succ fuel ih =>
    have hnext (k : Nat) : payload'.drop (offset + k) = payload.drop (offset + k) := by
      rw [← drop_drop, hdrop, drop_drop]
    simp only [continueChunks, hlen, hdrop, ih (hnext _)]

section Varied

variable {r : RtmpRemuxer} {msg : Message} {front back : Bytes}

theorem headerBytes_withByte (msg : Message) (front back : Bytes) (x y : UInt8) :
    headerBytes (withByte msg front back x) = headerBytes (withByte msg front back y) := by
  simp only [headerBytes, withByte, length_append, length_cons]

theorem withByte_injective {x y : UInt8} (h : (withByte msg front back x).payload = (withByte msg front back y).payload) :
    x = y :=
  (cons.inj (append_cancel_left h)).1

theorem continuation_withByte (hcsid : Sent (withByte msg front back 0)) (hfront : front.length = r.chunkSize.toNat)
    (hpos : 0 < r.chunkSize.toNat) : ∃ tail, ∀ x, r.continuation (withByte msg front back x) = 7 :: x :: tail := by
  obtain ⟨k, hk⟩ : ∃ k, min (back.length + 1) r.chunkSize.toNat = k + 1 := ⟨min (back.length + 1) r.chunkSize.toNat - 1, by omega⟩
  refine ⟨back.take k ++ continueChunks r.chunkSize msg.csid (front ++ 0 :: back) (front.length + back.length)
    (r.chunkSize.toNat + (k + 1)), fun x => ?_⟩
  have hlen (y : UInt8) : (front ++ y :: back).length = front.length + back.length + 1 := by
    simp only [length_append, length_cons]
    omega
  have hlong : r.chunkSize.toNat < front.length + back.length + 1 := by omega
  have hremaining : front.length + back.length + 1 - r.chunkSize.toNat = back.length + 1 := by omega
  have hdrop (y : UInt8) : (front ++ y :: back).drop r.chunkSize.toNat = y :: back := by
    rw [← hfront, drop_left]
  have hnext (y : UInt8) : (front ++ y :: back).drop (r.chunkSize.toNat + (k + 1)) = back.drop k := by
    rw [← drop_drop, hdrop y, drop_succ_cons]
  -- the basic header of a continuation starts a message on chunk stream 7
  have hcode : ChunkType.type3.code ||| (msg.csid.toUInt8 &&& 0x3f) = 7 :=
    hcsid.forall_csid (p := fun c => _ ||| (c.toUInt8 &&& 0x3f) = 7) (by decide)
  simp only [continuation, withByte, hlen, if_pos hlong, continueChunks, hremaining, hk, hdrop, hcode,
    take_succ_cons, cons_append,
    continueChunks_congr r.chunkSize msg.csid ((hlen x).trans (hlen 0).symm) _ ((hnext x).trans (hnext 0).symm)]

theorem take_withByte (hlast : front.length + 1 = r.chunkSize.toNat) (x : UInt8) :
    (withByte msg front back x).payload.take r.chunkSize.toNat = front ++ [x] := by
  have hlen : (front ++ [x]).length = r.chunkSize.toNat := by
    rw [length_append]
    exact hlast
  have hcut : (withByte msg front back x).payload = (front ++ [x]) ++ back := by simp [withByte]
  rw [hcut, ← hlen, take_left]

theorem continuation_withByte_last (hlast : front.length + 1 = r.chunkSize.toNat) (x y : UInt8) :
    r.continuation (withByte msg front back x) = r.continuation (withByte msg front back y) := by
  have hlen (z : UInt8) : (front ++ z :: back).length = front.length + (back.length + 1) := by
    simp only [length_append, length_cons]
  have hdrop (z : UInt8) : (front ++ z :: back).drop r.chunkSize.toNat = back := by
    rw [← hlast, ← drop_drop, drop_left, drop_succ_cons, drop_zero]
  simp only [continuation, withByte, hlen,
    continueChunks_congr r.chunkSize msg.csid ((hlen x).trans (hlen y).symm) _ ((hdrop x).trans (hdrop y).symm)]

/-- The first chunk is the same for all of them, and the byte stands behind the next basic header. -/
theorem exists_readAll_continued (h : ∀ x, Sent (withByte msg front back x))
    (hfront : front.length = r.chunkSize.toNat) (hpos : 0 < r.chunkSize.toNat)
    (hmark : msg.timestamp.toNat % 2 ^ 24 ≠ 0xFFFFFF) (st0 : ChunkState) (rest : Bytes) :
    ∃ st tail, ∀ (x : UInt8) (cr : ChunkReader), cr.chunkSize = r.chunkSize.toNat → cr.states msg.csid = st0 →
      cr.input = r.chunksOf (withByte msg front back x) ++ rest →
      ∃ c : ChunkReader, c.input = 7 :: x :: tail ∧ c.chunkSize = cr.chunkSize ∧
        c.states = Function.update cr.states msg.csid st ∧ cr.readAll.1 = c.readAll.1 := by
  rcases continuation_withByte (h 0) hfront hpos with ⟨tail, hcontinuation⟩
  obtain ⟨ts, _, hfield, hext⟩ := timestampField_of_ne hmark
  rcases readChunk_header (h 0) hfield st0 with ⟨st, hst, hheader⟩
  refine ⟨st.received front, tail ++ rest, ?_⟩
  intro x cr hsize hstate hinput
  have hlength : st.msgLength.toNat = front.length + (back.length + 1) := by
    rw [hst.msgLength]
    simp only [withByte, length_append, length_cons]
  have hbytesRead : st.bytesRead = 0 := hst.bytesRead
  have htake : (withByte msg front back x).payload.take r.chunkSize.toNat = front := by
    rw [← hfront]
    exact take_left
  have hbytes : cr.input = headerBytes (withByte msg front back 0) ++
      (extTimestamp ts ++ (front ++ 7 :: x :: (tail ++ rest))) := by
    rw [hinput, chunksOf_eq r (h x), htake, hcontinuation x, headerBytes_withByte msg front back x 0, hext]
    simp only [append_assoc, cons_append, nil_append]
  have hchunk := hheader cr _ hstate hbytes
  rw [cr.readData_append _ (by omega) (by omega), message_received_none _ (by omega)] at hchunk
  rw [readAll_of_readChunk hchunk]
  exact ⟨{ cr with input := _, states := _ }, rfl, rfl, rfl, rfl⟩

/-- The reader has the chunks of the message before it, and returns the message. -/
structure Returns (r : RtmpRemuxer) (rest : Bytes) (cr : ChunkReader) (msg : Message) : Prop where
  chunkSize : cr.chunkSize = r.chunkSize.toNat
  input : cr.input = r.chunksOf msg ++ rest
  head : cr.readAll.1.head? = some msg

variable {cr cr' : ChunkReader} {rest : Bytes}

/-- Of two messages that differ in the first byte of their continuation only, one at least is not returned. -/
theorem not_both_continued (h : ∀ x, Sent (withByte msg front back x)) (hfront : front.length = r.chunkSize.toNat)
    (hpos : 0 < r.chunkSize.toNat) (hmark : msg.timestamp.toNat % 2 ^ 24 ≠ 0xFFFFFF)
    (hstates : cr'.states = cr.states) (hread : Returns r rest cr (withByte msg front back 0)) :
    ¬ Returns r rest cr' (withByte msg front back 1) := by
  intro hread'
  rcases exists_readAll_continued h hfront hpos hmark (cr.states msg.csid) rest with ⟨st, tail, hreads⟩
  obtain ⟨c, hcInput, hcSize, hcStates, hc⟩ := hreads 0 cr hread.chunkSize rfl hread.input
  obtain ⟨c', hcInput', hcSize', hcStates', hc'⟩ := hreads 1 cr' hread'.chunkSize (by rw [hstates]) hread'.input
  -- the reader takes the byte for the first of a timestamp
  have hbasic (input : Bytes) : readBasicHeader (7 :: input) = .ok ((0, 7), input) :=
    readBasicHeader_one (b := 7) (by decide) (by decide) (by decide) input
  have hsize : c'.chunkSize = c.chunkSize := by
    rw [hcSize, hcSize', hread.chunkSize, hread'.chunkSize]
  have hsame : c'.states = c.states := by
    rw [hcStates, hcStates', hstates]
  have hturn : TurnRel Untimed Message.Untimed c.readChunk c'.readChunk := by
    refine readChunk_rel (hcInput ▸ hbasic _) (hcInput' ▸ hbasic _) ?_
      fun _ _ rest hst => readData_untimed hst hsize (fun _ => ?_) rest
    · rw [hsame]
      exact readMessageHeader_firstByte (by decide) (by decide) _ tail
    · rw [hsame]
      exact .refl _
  -- from such a turn on, the messages agree in all but their timestamps
  have huntimed := rel_of_head? (readAll_rel (fun _ _ h => readChunk_untimed h) hturn) (hc ▸ hread.head)
    (hc' ▸ hread'.head)
  have hpayload := congrArg Message.payload huntimed
  exact absurd (withByte_injective hpayload) (by decide)

/-- With the mark in the timestamp field the data are four bytes off. -/
theorem readChunk_shifted {st : ChunkState} {csid : UInt32} {data : Bytes}
    (hbytesRead : st.bytesRead = 0) (hdata : data.length + 6 = cr.chunkSize)
    (hlong : cr.chunkSize < st.msgLength.toNat) (hsize : cr'.chunkSize = cr.chunkSize)
    (hstates : cr'.states = cr.states) :
    AlikeTurn 0 0 (cr.readData csid st (0 :: data ++ 0 :: rest))
      (cr'.readData csid st (0 :: data ++ 1 :: rest)) := by
  have hopen : ¬ st.msgLength.toNat ≤ st.bytesRead := by omega
  have hmin : min (st.msgLength.toNat - st.bytesRead) cr.chunkSize = data.length + 6 := by omega
  rw [readData_eq, readData_eq, if_neg hopen, if_neg hopen]
  by_cases hrest : 4 ≤ rest.length
  · have hfull (x : UInt8) : readFull (data.length + 6) (0 :: data ++ x :: rest) =
        .ok (0 :: data ++ x :: rest.take 4, rest.drop 4) := by
      have hcut : 0 :: data ++ x :: rest = (0 :: data ++ x :: rest.take 4) ++ rest.drop 4 := by simp
      rw [hcut]
      refine readFull_append ?_ _
      simp
      omega
    have hreceived : (st.received (0 :: data ++ 0 :: rest.take 4)).Alike 0 0
        (st.received (0 :: data ++ 1 :: rest.take 4)) := by
      refine ⟨?_, .inr ⟨?_, ?_, ?_⟩⟩
      · simp [received]
      · simp [received]
      · rw [received, hbytesRead]
        exact getElem?_overwrite_self (zero_le _)
      · rw [received, hbytesRead]
        exact getElem?_overwrite_self (zero_le _)
    simp only [hsize, hmin, hfull]
    refine ⟨⟨rfl, rfl, ?_⟩, hreceived.message csid⟩
    refine update_rel (fun c _ => ?_) hreceived
    rw [hstates]
    exact .refl _ _ _
  · have hshort (x : UInt8) : readFull (data.length + 6) (0 :: data ++ x :: rest) = .error .unexpectedEof := by
      have hlt : ¬ data.length + 6 ≤ (0 :: data ++ x :: rest).length := by
        simp
        omega
      rw [readFull, if_neg hlt]
      rfl
    simp only [hsize, hmin, hshort]
    rfl

/-- Of two messages that differ in the last byte of their first chunk only, one at least is not returned when the
field has the mark. -/
theorem not_both_shifted (h : ∀ x, Sent (withByte msg front back x)) {b c d e : UInt8} {data : Bytes}
    (hfront : front = b :: c :: d :: e :: 0 :: data) (hb : 16 ≤ b.toNat)
    (hdata : data.length + 6 = r.chunkSize.toNat) (hback : back ≠ []) (hmark : msg.timestamp.toNat % 2 ^ 24 = 0xFFFFFF)
    (hstates : cr'.states = cr.states) (hread : Returns r rest cr (withByte msg front back 0)) :
    ¬ Returns r rest cr' (withByte msg front back 1) := by
  intro hread'
  have hsize := hread.chunkSize
  have hsize' := hread'.chunkSize
  obtain ⟨ts, _, hfield, hext⟩ := timestampField_of_mark hmark hb (c := c) (d := d) (e := e)
  rcases readChunk_header (h 0) hfield (cr.states msg.csid) with ⟨st, hst, hheader⟩
  have hpos : 0 < back.length := length_pos_iff.2 hback
  have hlength : st.msgLength.toNat = data.length + 5 + (back.length + 1) := by
    rw [hst.msgLength]
    simp only [withByte, hfront, length_append, length_cons]
  obtain ⟨k, hk⟩ : ∃ k, k = r.continuation (withByte msg front back 0) := ⟨_, rfl⟩
  have hbytes (x : UInt8) : r.chunksOf (withByte msg front back x) ++ rest =
      headerBytes (withByte msg front back 0) ++ (extTimestamp ts ++ (0 :: data ++ x :: (k ++ rest))) := by
    have hlast : front.length + 1 = r.chunkSize.toNat := by
      rw [hfront, ← hdata]
      rfl
    rw [chunksOf_eq r (h x), take_withByte hlast, continuation_withByte_last hlast x 0, ← hk,
      headerBytes_withByte msg front back x 0, hext, hfront]
    simp only [append_assoc, cons_append, nil_append]
  have hturn : AlikeTurn 0 0 cr.readChunk cr'.readChunk := by
    rw [hheader cr _ rfl (hread.input.trans (hbytes 0)),
      hheader cr' _ (congrFun hstates msg.csid) (hread'.input.trans (hbytes 1))]
    refine readChunk_shifted hst.bytesRead ?_ ?_ ?_ hstates
    · omega
    · omega
    · omega
  have halike := rel_of_head? (readAll_alike hturn) hread.head hread'.head
  rcases halike.payload with heq | ⟨hbyte, _⟩
  · have hpayload := congrArg Message.payload heq
    exact absurd (withByte_injective hpayload) (by decide)
  · have hzero : b = 0 := by
      rw [hfront] at hbyte
      exact Option.some.inj hbyte
    rw [hzero] at hb
    exact absurd hb (by decide)

end Varied

/-! ## Frames -/

/-- The frames differ in their data at most, and have as many. -/
def SameShape (frame frame' : MediaFrame) : Prop :=
  ∃ data, data.length = frame.data.length ∧ frame' = { frame with data := data }

theorem SameShape.refl (frame : MediaFrame) : SameShape frame frame :=
  ⟨frame.data, rfl, rfl⟩

/-- An FLV header has a first byte that is not small, and one or four bytes behind it at most. -/
theorem flvHeader_eq (frame : MediaFrame) :
    ∃ b tail, flvHeader frame = b :: tail ∧ 16 ≤ b.toNat ∧ (tail = [] ∨ tail = [1] ∨ tail = [1, 0, 0, 0]) := by
  unfold flvHeader
  cases frame.kind with
  | video =>
    refine ⟨_, _, rfl, ?_, ?_⟩
    · split
      · decide
      · decide
    · split
      · exact .inr (.inr rfl)
      · exact .inl rfl
  | audio =>
    refine ⟨_, _, rfl, ?_, ?_⟩
    · cases frame.codec with
      | _ => decide
    · split
      · exact .inr (.inl rfl)
      · exact .inl rfl

theorem timestampMs_lt (frame : MediaFrame) : (timestampMs frame).toNat < 2 ^ 28 := by
  have hlt := frame.timestamp.toNat_lt
  have hdiv {k : UInt32} (hk : 16 ≤ k.toNat) : (frame.timestamp / k).toNat < 2 ^ 28 := by
    rw [UInt32.toNat_div]
    exact Nat.div_lt_of_lt_mul (by omega)
  unfold timestampMs
  cases frame.kind with
  | video | audio => exact hdiv (by decide)

theorem media_mediaMessage (h : frame.data.length < 2 ^ 24 - 16) : Media (mediaMessage frame) := by
  rcases flvHeader_eq frame with ⟨b, tail, hheader, hb, htail⟩
  have hpayload : (mediaMessage frame).payload = b :: (tail ++ frame.data) := by
    rw [mediaMessage, payload, hheader, cons_append]
  have htailLen : tail.length ≤ 4 := by
    rcases htail with rfl | rfl | rfl
    · decide
    · decide
    · decide
  refine ⟨⟨?_, ?_, ?_⟩, timestampMs_lt frame, ⟨b, _, hpayload, hb⟩⟩
  · unfold mediaMessage csId
    cases frame.kind with
    | video => exact .inr (.inl rfl)
    | audio => exact .inr (.inr rfl)
  · rw [hpayload]
    exact cons_ne_nil _ _
  · rw [hpayload, length_cons, length_append]
    omega

theorem sent_metadataMessage (frame : MediaFrame) : Sent (metadataMessage frame) := by
  have hlen : (metadataMessage frame).payload.length = 170 := by
    change (generateMetadata .h264 .aac).length = 170
    decide +kernel
  refine ⟨.inl rfl, ?_, ?_⟩
  · intro hnil
    rw [hnil] at hlen
    exact absurd hlen (by decide)
  · rw [hlen]
    decide

def probe (frame : MediaFrame) (i : Nat) (x : UInt8) : MediaFrame :=
  { frame with data := List.replicate i 0 ++ x :: List.replicate (frame.data.length - i - 1) 0 }

theorem sameShape_probe {i : Nat} (h : i < frame.data.length) (x : UInt8) : SameShape frame (probe frame i x) := by
  refine ⟨_, ?_, rfl⟩
  simp only [length_append, length_cons, length_replicate]
  omega

theorem mediaMessage_probe (frame : MediaFrame) (i : Nat) (x : UInt8) :
    mediaMessage (probe frame i x) =
      withByte (mediaMessage frame) (flvHeader frame ++ replicate i 0)
        (replicate (frame.data.length - i - 1) 0) x := by
  have hpayload : payload (probe frame i x) =
      (flvHeader frame ++ replicate i 0) ++ x :: replicate (frame.data.length - i - 1) 0 := by
    rw [append_assoc]
    rfl
  simp only [mediaMessage, withByte, hpayload]
  rfl

section Frames

variable {r : RtmpRemuxer} {frame : MediaFrame}

theorem sent_probe (hdata : frame.data.length < 2 ^ 24 - 16) {i : Nat} (hi : i < frame.data.length) (x : UInt8) :
    Sent (mediaMessage (probe frame i x)) := by
  refine (media_mediaMessage ?_).toSent
  rcases sameShape_probe hi x with ⟨data, hlen, hprobe⟩
  rw [hprobe, hlen]
  exact hdata

/-- A frame that takes more than one chunk: two frames of its shape of which one at least is not returned. -/
theorem not_both_probes (hsize : 170 ≤ r.chunkSize.toNat) (hdata : frame.data.length < 2 ^ 24 - 16)
    (hlong : r.chunkSize.toNat < (payload frame).length) (rest : Bytes) :
    ∃ i < frame.data.length, ∀ cr cr' : ChunkReader, cr'.states = cr.states →
      Returns r rest cr (mediaMessage (probe frame i 0)) → ¬ Returns r rest cr' (mediaMessage (probe frame i 1)) := by
  rcases flvHeader_eq frame with ⟨b, tail, hheader, hb, htail⟩
  have htailLen : tail.length ≤ 4 := by
    rcases htail with rfl | rfl | rfl
    · decide
    · decide
    · decide
  have hlength : (payload frame).length = tail.length + 1 + frame.data.length := by
    rw [payload, hheader, length_append, length_cons]
  by_cases hmark : (timestampMs frame).toNat % 2 ^ 24 = 0xFFFFFF
  · -- the last byte of the first chunk
    obtain ⟨i, hi⟩ : ∃ i, i + 2 + tail.length = r.chunkSize.toNat :=
      ⟨r.chunkSize.toNat - (tail.length + 2), by omega⟩
    refine ⟨i, by omega, ?_⟩
    intro cr cr' hstates hread
    have hsent := sent_probe (i := i) hdata (by omega)
    simp only [mediaMessage_probe] at hsent hread ⊢
    obtain ⟨c, data, hfront⟩ : ∃ c data, flvHeader frame ++ replicate i 0 = b :: c :: 0 :: 0 :: 0 :: data := by
      obtain ⟨j, rfl⟩ : ∃ j, i = j + 4 := ⟨i - 4, by omega⟩
      rw [hheader]
      rcases htail with rfl | rfl | rfl
      · exact ⟨0, replicate j 0, rfl⟩
      · exact ⟨1, replicate (j + 1) 0, rfl⟩
      · exact ⟨1, replicate (j + 4) 0, rfl⟩
    have hlen : data.length + 6 = r.chunkSize.toNat := by
      have hcount := congrArg length hfront
      simp [hheader] at hcount
      omega
    have hback : replicate (frame.data.length - i - 1) (0 : UInt8) ≠ [] := by
      rw [ne_eq, replicate_eq_nil_iff]
      omega
    exact not_both_shifted hsent hfront hb hlen hback hmark hstates hread
  · -- the first byte of the second chunk
    refine ⟨r.chunkSize.toNat - (tail.length + 1), by omega, ?_⟩
    intro cr cr' hstates hread
    have hsent := sent_probe (i := r.chunkSize.toNat - (tail.length + 1)) hdata (by omega)
    simp only [mediaMessage_probe] at hsent hread ⊢
    refine not_both_continued hsent ?_ ?_ hmark hstates hread
    · rw [hheader, length_append, length_cons, length_replicate]
      omega
    · omega

/-- The step lemma of the other direction: where the next frame does not fit, or is late, some frame of its shape is
not returned. -/
theorem exists_not_read (hsize : 170 ≤ r.chunkSize.toNat) (hdata : frame.data.length < 2 ^ 24 - 16)
    (hbad : ¬ OneChunk r.chunkSize.toNat (mediaMessage frame)) (states : UInt32 → ChunkState) (rest : Bytes) :
    ∃ frame', SameShape frame frame' ∧
      ∀ cr : ChunkReader, cr.states = states → ¬ Returns r rest cr (mediaMessage frame') := by
  by_cases hfit : (payload frame).length ≤ r.chunkSize.toNat
  · -- one chunk with a late timestamp
    have hmedia := media_mediaMessage hdata
    refine ⟨frame, .refl frame, fun cr _ hread => ?_⟩
    have hlate : 0xFFFFFF ≤ (mediaMessage frame).timestamp.toNat := by
      by_contra hlt
      exact hbad ⟨hfit, UInt32.lt_iff_toNat_lt.2 (Nat.lt_of_not_le hlt)⟩
    have hcontinuation : r.continuation (mediaMessage frame) = [] := if_neg (not_lt.2 hfit)
    have htake : (mediaMessage frame).payload.take r.chunkSize.toNat = (mediaMessage frame).payload :=
      take_of_length_le hfit
    have hinput := hread.input
    rw [chunksOf_eq r hmedia.toSent, hcontinuation, htake, append_nil, append_assoc] at hinput
    exact readAll_late hmedia (hread.chunkSize ▸ hfit) hlate hinput hread.head
  · rcases not_both_probes hsize hdata (Nat.lt_of_not_le hfit) rest with ⟨i, hi, hpair⟩
    by_cases hfirst : ∃ cr : ChunkReader, cr.states = states ∧ Returns r rest cr (mediaMessage (probe frame i 0))
    · rcases hfirst with ⟨cr, hcrStates, hread⟩
      refine ⟨probe frame i 1, sameShape_probe hi 1, ?_⟩
      intro cr' hcrStates'
      exact hpair cr cr' (hcrStates'.trans hcrStates.symm) hread
    · refine ⟨probe frame i 0, sameShape_probe hi 0, ?_⟩
      intro cr hcrStates hread
      exact hfirst ⟨cr, hcrStates, hread⟩

end Frames

/-! ## Whole runs -/

/-- The metadata and every frame take one chunk, and no timestamp reaches the mark. -/
def Readable (size : UInt32) (frames : List MediaFrame) : Prop :=
  frames = [] ∨ 170 ≤ size ∧
    ∀ frame ∈ frames, (payload frame).length ≤ size.toNat ∧ timestampMs frame < 0xFFFFFF

instance (size : UInt32) (frames : List MediaFrame) : Decidable (Readable size frames) :=
  inferInstanceAs (Decidable (_ ∨ _))

theorem SameShape.oneChunk_iff {frame' : MediaFrame} (h : SameShape frame frame') (size : Nat) :
    OneChunk size (mediaMessage frame') ↔ OneChunk size (mediaMessage frame) := by
  rcases h with ⟨data, hlen, rfl⟩
  have hpayload : (payload { frame with data := data }).length = (payload frame).length := by
    simp only [payload, length_append, hlen]
    rfl
  unfold OneChunk
  rw [show (mediaMessage { frame with data := data }).payload.length = (mediaMessage frame).payload.length from
    hpayload]
  rfl

theorem oneChunk_metadataMessage (hsize : 170 ≤ size) (frame : MediaFrame) : OneChunk size (metadataMessage frame) := by
  refine ⟨hsize, ?_⟩
  change (0 : UInt32) < 0xFFFFFF
  decide

theorem oneChunk_messages (hsize : 170 ≤ size) (hdata : ∀ frame ∈ frames, frame.data.length < 2 ^ 24 - 16)
    (hone : ∀ frame ∈ frames, OneChunk size (mediaMessage frame)) :
    ∀ msg ∈ messages frames, Sent msg ∧ OneChunk size msg := by
  cases frames with
  | nil =>
    intro msg hmem
    cases hmem
  | cons frame frames =>
    rw [messages, forall_mem_cons]
    refine ⟨⟨sent_metadataMessage frame, oneChunk_metadataMessage hsize frame⟩, ?_⟩
    rw [forall_mem_map]
    intro f hmem
    exact ⟨(media_mediaMessage (hdata f hmem)).toSent, hone f hmem⟩

/-- A run of frames in one chunk each is read as its messages. -/
theorem readOutput_of_oneChunk {size : UInt32} (hsize : 170 ≤ size.toNat)
    (hdata : ∀ frame ∈ frames, frame.data.length < 2 ^ 24 - 16)
    (hone : ∀ frame ∈ frames, OneChunk size.toNat (mediaMessage frame)) : readOutput size frames = messages frames := by
  have hpos : 0 < (new.setChunkSize size).chunkSize.toNat := lt_of_lt_of_le (by decide) hsize
  have hmsgs := oneChunk_messages hsize hdata hone
  rcases readAll_encodes ⟨_, hpos⟩ fun msg hmem =>
    encodes_chunksOf _ rfl (hmsgs msg hmem).1 (hmsgs msg hmem).2 with ⟨_, hreads⟩
  rcases hreads [] with ⟨cr, _, _, hinput, hread⟩
  rw [readAll_nil hinput, append_nil, append_nil, ← output_eq] at hread
  exact congrArg Prod.fst hread

/-- The run lemma of the other direction. -/
theorem exists_readOutput_ne {size : UInt32} (hsize : 170 ≤ size.toNat)
    (hdata : ∀ frame ∈ frames, frame.data.length < 2 ^ 24 - 16)
    (h : ¬ ∀ frame ∈ frames, OneChunk size.toNat (mediaMessage frame)) :
    ∃ frames', Forall₂ SameShape frames frames' ∧ readOutput size frames' ≠ messages frames' := by
  -- the first frame that is not in one chunk, or late
  rcases exists_first_not h with ⟨before, frame, after, rfl, hbefore, hbad⟩
  rw [forall_mem_append, forall_mem_cons] at hdata
  rcases hdata with ⟨hdataBefore, hdataFrame, _⟩
  have hpos : 0 < (new.setChunkSize size).chunkSize.toNat := lt_of_lt_of_le (by decide) hsize
  have hdone : ∀ msg ∈ metadataMessage frame :: before.map mediaMessage,
      ChunkWriter.Encodes ⟨_, hpos⟩ (new.setChunkSize size).chunksOf msg := by
    rw [forall_mem_cons, forall_mem_map]
    refine ⟨encodes_chunksOf _ rfl (sent_metadataMessage frame) (oneChunk_metadataMessage hsize frame), ?_⟩
    intro f hmem
    exact encodes_chunksOf _ rfl (media_mediaMessage (hdataBefore f hmem)).toSent (hbefore f hmem)
  -- up to the frame all is read as sent
  have hmessages (f : MediaFrame) : messages (before ++ f :: after) =
      (metadataMessage frame :: before.map mediaMessage) ++ mediaMessage f :: after.map mediaMessage := by
    -- the metadata are the same for all frames
    cases before with
    | nil => rfl
    | cons first before =>
      simp only [cons_append, messages, map_append, map_cons]
      rfl
  generalize metadataMessage frame :: before.map mediaMessage = done at hdone hmessages
  rcases readAll_encodes _ hdone with ⟨states, hreads⟩
  rcases exists_not_read (r := new.setChunkSize size) hsize hdataFrame hbad states
    ((after.map mediaMessage).flatMap (new.setChunkSize size).chunksOf) with ⟨frame', hshape, hnot⟩
  refine ⟨before ++ frame' :: after, ?_, ?_⟩
  · have hrefl (fs : List MediaFrame) : Forall₂ SameShape fs fs :=
      forall₂_same.2 fun f _ => .refl f
    exact rel_append (hrefl before) (.cons hshape (hrefl after))
  · intro hread
    rcases hreads _ with ⟨cr, hcrSize, hcrStates, hcrInput, hcrRead⟩
    refine hnot cr hcrStates ⟨hcrSize, hcrInput, ?_⟩
    rw [readOutput, output_eq, hmessages frame', flatMap_append, flatMap_cons] at hread
    have hmsgs : done ++ mediaMessage frame' :: after.map mediaMessage = done ++ cr.readAll.1 :=
      hread.symm.trans (congrArg Prod.fst hcrRead)
    rw [← append_cancel_left hmsgs]
    rfl

/-- Whatever the data of the frames hold, the Go reader returns the metadata and the message of every frame if each
of them takes one chunk and no timestamp needs more than its field.  With chunks that hold the metadata it
does so only then. -/
theorem readOutput_iff (size : UInt32) (frames : List MediaFrame)
    (hdata : ∀ frame ∈ frames, frame.data.length < 2 ^ 24 - 16) :
    (Readable size frames → ∀ frames', List.Forall₂ SameShape frames frames' →
        readOutput size frames' = messages frames') ∧
      (170 ≤ size → (∀ frames', List.Forall₂ SameShape frames frames' →
        readOutput size frames' = messages frames') → Readable size frames) := by
  constructor
  · intro hreadable frames' hshape
    rcases hreadable with rfl | ⟨hsize, hframes⟩
    · rw [forall₂_nil_left_iff.1 hshape, readOutput, ChunkReader.readAll_nil]
      · rfl
      · unfold ChunkReader.setChunkSize
        split
        · rfl
        · rfl
    · have hone : ∀ frame ∈ frames', OneChunk size.toNat (mediaMessage frame) :=
        forall_mem_of_forall₂ (fun _ _ h => (h.oneChunk_iff _).2) hshape hframes
      have hdata' : ∀ frame ∈ frames', frame.data.length < 2 ^ 24 - 16 := by
        refine forall_mem_of_forall₂ ?_ hshape hdata
        rintro frame _ ⟨data, hlen, rfl⟩ hlt
        rw [hlen]
        exact hlt
      exact readOutput_of_oneChunk (UInt32.le_iff_toNat_le.1 hsize) hdata' hone
  · intro hsize hread
    refine .inr ⟨hsize, ?_⟩
    by_contra hbad
    rcases exists_readOutput_ne (UInt32.le_iff_toNat_le.1 hsize) hdata hbad with ⟨frames', hshape, hne⟩
    exact hne (hread frames' hshape)

/-- A key frame and audio, in chunks of the default size. -/
theorem readOutput_small :
    readOutput 4096 [.video .h264 9000 [0x65, 0x88] 1 true, .audio .aac 4800 [0x21, 0x10] 2] =
      messages [.video .h264 9000 [0x65, 0x88] 1 true, .audio .aac 4800 [0x21, 0x10] 2] := by
  exact (readOutput_iff 4096 _ (by decide)).1 (by decide) _ (forall₂_same.2 fun f _ => .refl f)

/-- A payload of two chunks.  The second is taken for a message without data, and the reader gives up. -/
theorem readOutput_two_chunks :
    readOutput 256 [.video .h264 9000 (List.replicate 300 0) 1 true] ≠
      messages [.video .h264 9000 (List.replicate 300 0) 1 true] := by
  decide +kernel

end LingVoice.LmProtocol.RtmpRemuxer

import LingVoice.Rtmp.ChunkSpec

/-!
# ChunkStream — legal RTMP chunk streams and what the reader makes of them

`Sender` is the sending side as the protocol allows it, not as `ChunkWriter` does it: each message may
start with any header format that the previous message on its chunk stream permits, and chunks of
different chunk streams are interleaved in any order.  `Sender.run` gives the bytes of such a
schedule and the messages in order of completion.

`Tracks` relates what was sent on a chunk stream to the state the reader keeps for it.
-/

namespace LingVoice.Rtmp

open Lib List Function ChunkState ChunkReader

/-! ## The sender -/

/-- Header formats: which fields of the previous message's header are repeated. -/
inductive Fmt
  | fmt0
  | fmt1
  | fmt2
  | fmt3
  deriving DecidableEq, Repr

def Fmt.code : Fmt → Nat
  | .fmt0 => 0
  | .fmt1 => 1
  | .fmt2 => 2
  | .fmt3 => 3

def Message.WellFormed (msg : Message) : Prop :=
  msg.payload ≠ [] ∧ msg.payload.length < 2 ^ 24 ∧ 2 ≤ msg.csid ∧ msg.csid ≤ 65599

instance (msg : Message) : Decidable msg.WellFormed :=
  inferInstanceAs (Decidable (_ ∧ _))

/-- What was sent on one chunk stream: the message that was started last, how much of its payload
is out, and the last timestamp or delta that a header carried.  A fmt 3 chunk that starts a message
repeats that value as its delta. -/
structure Stream where
  last : Option Message := none
  sent : Nat := 0
  field : UInt32 := 0
  deriving DecidableEq, Repr

namespace Stream

def idle (s : Stream) : Bool :=
  match s.last with
  | none => true
  | some prev => s.sent == prev.payload.length

def sameStream (prev msg : Message) : Bool :=
  prev.streamID == msg.streamID && decide (prev.timestamp ≤ msg.timestamp)

def sameShape (prev msg : Message) : Bool :=
  prev.type == msg.type && prev.payload.length == msg.payload.length

/-- May a message start with this format, given the previous one on the chunk stream? -/
def allows (s : Stream) (fmt : Fmt) (msg : Message) : Bool :=
  match fmt, s.last with
  | .fmt0, _ => true
  | .fmt1, some prev => sameStream prev msg
  | .fmt2, some prev => sameStream prev msg && sameShape prev msg
  | .fmt3, some prev =>
    sameStream prev msg && sameShape prev msg &&
      msg.timestamp.toNat == prev.timestamp.toNat + s.field.toNat
  | _, none => false

def fieldOf (s : Stream) (fmt : Fmt) (msg : Message) : UInt32 :=
  match fmt, s.last with
  | .fmt0, _ => msg.timestamp
  | .fmt3, _ => s.field
  | _, some prev => msg.timestamp - prev.timestamp
  | _, none => 0

end Stream

def messageHeader (fmt : Fmt) (field : UInt32) (msg : Message) : Bytes :=
  match fmt with
  | .fmt0 =>
    timestampField field ++ toBe 3 msg.payload.length ++ [msg.type] ++ toLe 4 msg.streamID.toNat
  | .fmt1 => timestampField field ++ toBe 3 msg.payload.length ++ [msg.type]
  | .fmt2 => timestampField field
  | .fmt3 => []

def chunkBytes (fmt : Fmt) (field : UInt32) (msg : Message) (data : Bytes) : Bytes :=
  buildBasicHeader (UInt32.ofNat fmt.code) msg.csid ++
    (messageHeader fmt field msg ++ (extTimestamp field ++ data))

inductive ChunkEvent
  | start (fmt : Fmt) (msg : Message)
  | next (csid : UInt32)
  deriving DecidableEq, Repr

abbrev Sender : Type := UInt32 → Stream

namespace Sender

def init : Sender := fun _ => {}

/-- The bytes of `msg` up to `sent` are out, and one more chunk: its data, the streams after it, and
the message if that was its last chunk. -/
def advance (size : Nat) (snd : Sender) (msg : Message) (sent : Nat) (field : UInt32) :
    Sender × Option Message :=
  let sent' := sent + min (msg.payload.length - sent) size
  (Function.update snd msg.csid { last := some msg, sent := sent', field := field },
    if sent' = msg.payload.length then some msg else none)

def send (size : Nat) (snd : Sender) :
    ChunkEvent → Option (Bytes × (Sender × Option Message))
  | .start fmt msg =>
    let s := snd msg.csid
    if msg.WellFormed ∧ s.idle = true ∧ s.allows fmt msg = true then
      some (chunkBytes fmt (s.fieldOf fmt msg) msg (msg.payload.take size),
        snd.advance size msg 0 (s.fieldOf fmt msg))
    else
      none
  | .next csid =>
    match (snd csid).last with
    | none => none
    | some msg =>
      if (snd csid).sent < msg.payload.length then
        some (chunkBytes .fmt3 (snd csid).field msg
            ((msg.payload.drop (snd csid).sent).take size),
          snd.advance size msg (snd csid).sent (snd csid).field)
      else
        none

/-- The bytes of a schedule, the streams after it, and its messages in order of completion; `none`
if a chunk in it is not legal. -/
def run (size : Nat) : Sender → List ChunkEvent → Option (Bytes × (Sender × List Message))
  | snd, [] => some ([], (snd, []))
  | snd, e :: es =>
    match snd.send size e with
    | none => none
    | some (bytes, (snd', out)) =>
      match run size snd' es with
      | none => none
      | some (rest, (snd'', msgs)) => some (bytes ++ rest, (snd'', out.toList ++ msgs))

end Sender

/-! ## What the reader keeps -/

/-- The reader has `sent` bytes of `msg`, and the header fields of the message. -/
structure Reassembles (msg : Message) (sent : Nat) (st : ChunkState) : Prop where
  timestamp : st.timestamp = msg.timestamp
  timestampDelta : st.timestampDelta = 0
  msgType : st.msgType = msg.type
  msgLength : st.msgLength.toNat = msg.payload.length
  streamID : st.streamID = msg.streamID
  bytesRead : st.bytesRead = sent
  length_payload : st.payload.length = msg.payload.length
  payload : st.payload.take sent = msg.payload.take sent
  newMessage : st.newMessage = decide (sent < msg.payload.length)

namespace Reassembles

variable {msg : Message} {sent : Nat} {st : ChunkState}

/-- A complete message is what the reader returns. -/
theorem payload_eq (h : Reassembles msg msg.payload.length st) : st.payload = msg.payload := by
  have hpayload := h.payload
  rw [← h.length_payload, take_length, h.length_payload, take_length] at hpayload
  exact hpayload

theorem of_start {st : ChunkState} {length : UInt32} (hpos : msg.payload ≠ [])
    (hts : st.timestamp = msg.timestamp) (hdelta : st.timestampDelta = 0)
    (htype : st.msgType = msg.type) (hstream : st.streamID = msg.streamID)
    (hlen : length.toNat = msg.payload.length) : Reassembles msg 0 (st.start length) := by
  have hlt : 0 < msg.payload.length := length_pos_iff.2 hpos
  refine ⟨hts, hdelta, htype, hlen, hstream, rfl, ?_, rfl, ?_⟩
  · simp [start, hlen]
  · simp [start, hlt]

variable {data : Bytes}

theorem message (h : Reassembles msg sent st) (hle : sent ≤ msg.payload.length) :
    st.message msg.csid = if sent = msg.payload.length then some msg else none := by
  by_cases hend : sent = msg.payload.length
  · subst hend
    have hall : st.msgLength.toNat ≤ st.bytesRead := by
      rw [h.msgLength, h.bytesRead]
    rw [message, if_pos hall, if_pos rfl, h.msgType, h.streamID, h.timestamp, h.payload_eq]
  · have hmore : ¬ st.msgLength.toNat ≤ st.bytesRead := by
      rw [h.msgLength, h.bytesRead]
      omega
    rw [ChunkState.message, if_neg hmore, if_neg hend]

/-- The data of one chunk moves the reader on by that chunk. -/
theorem received (h : Reassembles msg sent st) (hfit : sent + data.length ≤ msg.payload.length)
    (hopen : sent < msg.payload.length) (hdata : data = (msg.payload.drop sent).take data.length) :
    Reassembles msg (sent + data.length) (st.received data) := by
  -- what was there, then the chunk's data: one more stretch of the payload
  have hpayload : (overwrite st.payload st.bytesRead data).take (sent + data.length) =
      msg.payload.take (sent + data.length) := by
    have hoff : st.bytesRead ≤ st.payload.length := by
      rw [h.bytesRead, h.length_payload]
      omega
    have htake := @take_overwrite st.payload data st.bytesRead hoff
    rw [h.bytesRead] at htake
    rw [h.bytesRead, htake, h.payload, take_add, ← hdata]
  have hlength : (overwrite st.payload st.bytesRead data).length = msg.payload.length := by
    rw [length_overwrite (by rw [h.bytesRead, h.length_payload]; omega), h.length_payload]
  refine ⟨h.timestamp, h.timestampDelta, h.msgType, h.msgLength, h.streamID, ?_, hlength, hpayload, ?_⟩
  · simp only [ChunkState.received, h.bytesRead]
  · simp only [ChunkState.received, h.msgLength, h.bytesRead, h.newMessage]
    by_cases hend : msg.payload.length ≤ sent + data.length
    · simp [hend]
    · have hmore : sent + data.length < msg.payload.length := Nat.lt_of_not_le hend
      simp [hend, hopen, hmore]

theorem length_chunk (msg : Message) (sent size : Nat) :
    ((msg.payload.drop sent).take size).length = min (msg.payload.length - sent) size := by
  rw [length_take, length_drop, Nat.min_comm]

theorem received_chunk (h : Reassembles msg sent st) (hlt : sent < msg.payload.length) (size : Nat) :
    Reassembles msg (sent + min (msg.payload.length - sent) size)
      (st.received ((msg.payload.drop sent).take size)) := by
  rw [← length_chunk]
  refine h.received ?_ hlt ?_
  · rw [length_chunk]
    omega
  · rw [length_chunk, ← length_drop, Nat.min_comm, ← take_take, take_length]

end Reassembles

variable {st : ChunkState} {msg : Message} {cr : ChunkReader} {size : Nat} {snd : Sender} {e : ChunkEvent}
  {bytes : Bytes} {out : Option Message} {msgs : List Message}

variable {sent : Nat} {fmt : Fmt} {field : UInt32} {snd' : Sender} {states : UInt32 → ChunkState}
  {es events : List ChunkEvent}

theorem ChunkReader.readData_reassembles
    (cr : ChunkReader) (h : Reassembles msg sent st) (hlt : sent < msg.payload.length) (rest : Bytes) :
    cr.readData msg.csid st ((msg.payload.drop sent).take cr.chunkSize ++ rest) =
      .ok ({ cr with
          input := rest
          states := update cr.states msg.csid
            (st.received ((msg.payload.drop sent).take cr.chunkSize)) },
        if sent + min (msg.payload.length - sent) cr.chunkSize = msg.payload.length then some msg
        else none) := by
  have hopen : st.bytesRead < st.msgLength.toNat := by
    rw [h.bytesRead, h.msgLength]
    exact hlt
  have hlen : ((msg.payload.drop sent).take cr.chunkSize).length =
      min (st.msgLength.toNat - st.bytesRead) cr.chunkSize := by
    rw [h.bytesRead, h.msgLength, Reassembles.length_chunk]
  rw [cr.readData_append msg.csid hopen hlen, (h.received_chunk hlt _).message (by omega)]

/-! ## Message headers -/

section Headers

variable {msg prev : Message} {st : ChunkState} {delta : UInt32}

theorem length_timestampField (ts : UInt32) : (timestampField ts).length = 3 :=
  length_toBe 3 _

theorem toNat_ofNat_length (h : msg.WellFormed) : (UInt32.ofNat msg.payload.length).toNat = msg.payload.length := by
  have hlen := h.2.1
  rw [UInt32.toNat_ofNat', Nat.mod_eq_of_lt (by omega)]

/-- Where the fields of a header with timestamp, length and type are. -/
theorem header_fields {ts len tail hdr : Bytes} {type : UInt8} (hts : ts.length = 3) (hlen : len.length = 3)
    (hhdr : ts ++ len ++ [type] ++ tail = hdr) :
    (hdr.drop 0).take 3 = ts ∧ (hdr.drop 3).take 3 = len ∧ hdr.getD 6 0 = type ∧ hdr.drop 7 = tail := by
  subst hhdr
  match ts, hts, len, hlen with
  | [_, _, _], _, [_, _, _], _ => exact ⟨rfl, rfl, rfl, rfl⟩

/-- A fmt 0 header starts a message whatever the state was. -/
theorem readMessageHeader_fmt0 (h : msg.WellFormed) (st : ChunkState) :
    ∃ st', Reassembles msg 0 st' ∧ ∀ rest,
      readMessageHeader 0 st (messageHeader .fmt0 msg.timestamp msg ++
        (extTimestamp msg.timestamp ++ rest)) = .ok (st', rest) := by
  obtain ⟨hdr, hhdr⟩ : ∃ hdr, messageHeader .fmt0 msg.timestamp msg = hdr := ⟨_, rfl⟩
  have hlen : hdr.length = 11 := by simp [← hhdr, messageHeader, length_timestampField]
  obtain ⟨hts, hlength, htype, hstream⟩ := header_fields (length_timestampField _) (length_toBe 3 _) hhdr
  have hstream' : UInt32.ofNat (ofLe ((hdr.drop 7).take 4)) = msg.streamID := by
    have hwidth : (toLe 4 msg.streamID.toNat).length = 4 := length_toLe 4 _
    rw [hstream, take_of_length_le (Nat.le_of_eq hwidth), ofLe_toLe_of_lt msg.streamID.toNat_lt, UInt32.ofNat_toNat]
  rw [hhdr]
  refine ⟨start { st with
    timestamp := msg.timestamp
    timestampDelta := 0
    hasDelta := false
    msgType := hdr.getD 6 0
    streamID := UInt32.ofNat (ofLe ((hdr.drop 7).take 4)) } (uint24 hdr 3), ?_, ?_⟩
  · refine Reassembles.of_start h.1 rfl rfl htype hstream' ?_
    rw [uint24_eq hlength h.2.1, toNat_ofNat_length h]
  · intro rest
    simp only [readMessageHeader, if_true, readFields_append 0 hlen hts, bind, Except.bind, pure, Except.pure]

/-- The reader adds up deltas once the previous message is complete. -/
theorem addDelta_timestamp (hprev : Reassembles prev prev.payload.length st)
    (hdelta : msg.timestamp - prev.timestamp = delta) :
    (st.addDelta delta).timestamp = msg.timestamp ∧ (st.addDelta delta).timestampDelta = 0 := by
  have hdone : st.newMessage = false := by simp [hprev.newMessage]
  refine ⟨?_, ?_⟩
  · simp only [addDelta, hdone, Bool.false_eq_true, if_false, hprev.timestamp, ← hdelta]
    rw [UInt32.add_comm, UInt32.sub_add_cancel]
  · simp [addDelta, hdone, hprev.timestampDelta]

theorem addDelta_keeps (st : ChunkState) (delta : UInt32) : (st.addDelta delta).msgLength = st.msgLength ∧
    (st.addDelta delta).msgType = st.msgType ∧ (st.addDelta delta).streamID = st.streamID := by
  unfold addDelta
  split
  · exact ⟨rfl, rfl, rfl⟩
  · exact ⟨rfl, rfl, rfl⟩

/-- A fmt 1 header takes the stream id from the previous message. -/
theorem readMessageHeader_fmt1 (h : msg.WellFormed)
    (hprev : Reassembles prev prev.payload.length st) (hdelta : msg.timestamp - prev.timestamp = delta)
    (hstream : prev.streamID = msg.streamID) :
    ∃ st', Reassembles msg 0 st' ∧ ∀ rest,
      readMessageHeader 1 st (messageHeader .fmt1 delta msg ++ (extTimestamp delta ++ rest)) = .ok (st', rest) := by
  obtain ⟨hts, hzero⟩ := addDelta_timestamp hprev hdelta
  obtain ⟨hdr, hhdr⟩ : ∃ hdr, messageHeader .fmt1 delta msg = hdr := ⟨_, rfl⟩
  have hlen : hdr.length = 7 := by simp [← hhdr, messageHeader, length_timestampField]
  obtain ⟨hfield, hlength, htype, -⟩ :=
    header_fields (length_timestampField delta) (length_toBe 3 _) ((append_nil _).trans hhdr)
  rw [hhdr]
  refine ⟨start { st.addDelta delta with msgType := hdr.getD 6 0 } (uint24 hdr 3), ?_, ?_⟩
  · refine Reassembles.of_start h.1 hts hzero htype ?_ ?_
    · rw [← hstream, ← hprev.streamID]
      exact (addDelta_keeps st delta).2.2
    · rw [uint24_eq hlength h.2.1, toNat_ofNat_length h]
  · intro rest
    have hne : (1 : UInt8) ≠ 0 := by decide
    simp only [readMessageHeader, if_neg hne, if_true, readFields_append 1 hlen hfield, bind,
      Except.bind, pure, Except.pure]

/-- A fmt 2 header takes length, type and stream id from the previous message. -/
theorem readMessageHeader_fmt2 (h : msg.WellFormed)
    (hprev : Reassembles prev prev.payload.length st) (hdelta : msg.timestamp - prev.timestamp = delta)
    (hstream : prev.streamID = msg.streamID) (htype : prev.type = msg.type)
    (hlength : prev.payload.length = msg.payload.length) :
    ∃ st', Reassembles msg 0 st' ∧ ∀ rest,
      readMessageHeader 2 st (messageHeader .fmt2 delta msg ++ (extTimestamp delta ++ rest)) = .ok (st', rest) := by
  obtain ⟨hts, hzero⟩ := addDelta_timestamp hprev hdelta
  have hkept := addDelta_keeps st delta
  have hlen : (st.addDelta delta).msgLength.toNat = msg.payload.length := by
    rw [hkept.1, hprev.msgLength, hlength]
  have hpos : (st.addDelta delta).msgLength ≠ 0 := by
    intro hz
    rw [hz] at hlen
    exact h.1 (length_eq_zero_iff.1 hlen.symm)
  have hfield : ((messageHeader .fmt2 delta msg).drop 0).take 3 = timestampField delta :=
    take_of_length_le (Nat.le_of_eq (length_timestampField delta))
  refine ⟨(st.addDelta delta).start (st.addDelta delta).msgLength, ?_, ?_⟩
  · refine Reassembles.of_start h.1 hts hzero ?_ ?_ hlen
    · rw [hkept.2.1, hprev.msgType, htype]
    · rw [hkept.2.2, hprev.streamID, hstream]
  · intro rest
    have hne0 : (2 : UInt8) ≠ 0 := by decide
    have hne1 : (2 : UInt8) ≠ 1 := by decide
    have hread : readFields 2 3 (messageHeader .fmt2 delta msg ++ (extTimestamp delta ++ rest)) =
        .ok ((messageHeader .fmt2 delta msg, delta), rest) :=
      readFields_append 2 (length_timestampField delta) hfield rest
    simp only [readMessageHeader, if_neg hne0, if_neg hne1, if_true, hread, bind, Except.bind, pure,
      Except.pure, if_neg hpos]

/-- A fmt 3 header takes nothing off the stream: the delta the reader would compare with the
extended-timestamp mark is never set. -/
theorem readMessageHeader_fmt3 {sent : Nat} (h : Reassembles msg sent st) (hpos : msg.payload ≠ [])
    (rest : Bytes) : readMessageHeader 3 st rest = .ok (st, rest) := by
  have hne0 : (3 : UInt8) ≠ 0 := by decide
  have hne1 : (3 : UInt8) ≠ 1 := by decide
  have hne2 : (3 : UInt8) ≠ 2 := by decide
  -- fmt 0 sets the delta to 0 and `addDelta` writes it only while a message is open
  have hskip : (st.hasDelta && st.timestampDelta == 0xFFFFFF) = false := by
    rw [h.timestampDelta]
    cases st.hasDelta with
    | true | false => rfl
  have hlen : st.msgLength ≠ 0 := by
    intro hz
    have hmsg := h.msgLength
    rw [hz] at hmsg
    exact hpos (length_eq_zero_iff.1 hmsg.symm)
  simp only [readMessageHeader, if_neg hne0, if_neg hne1, if_neg hne2, if_true, skipExtTimestamp,
    hskip, Bool.false_eq_true, if_false, bind, Except.bind, pure, Except.pure, if_neg hlen]

end Headers

/-! ## One chunk -/

/-- How the reader's state of a chunk stream matches what was sent on it. -/
def Tracks (csid : UInt32) (s : Stream) (st : ChunkState) : Prop :=
  match s.last with
  | none => True
  | some msg => msg.WellFormed ∧ msg.csid = csid ∧ Reassembles msg s.sent st

def Sender.TrackedBy (snd : Sender) (states : UInt32 → ChunkState) : Prop :=
  ∀ csid, Tracks csid (snd csid) (states csid)

/-- What `ReadMessage` can follow: a message starts with a header of its own, and no chunk behind its
first one has an extended timestamp. -/
def Sender.Supports (snd : Sender) : ChunkEvent → Prop
  | .start fmt _ => fmt ≠ .fmt3
  | .next csid => (snd csid).field < 0xFFFFFF

instance (snd : Sender) (e : ChunkEvent) : Decidable (snd.Supports e) :=
  match e with
  | .start fmt _ => inferInstanceAs (Decidable (fmt ≠ .fmt3))
  | .next csid => inferInstanceAs (Decidable ((snd csid).field < 0xFFFFFF))

def ChunkEvent.csid : ChunkEvent → UInt32
  | .start _ msg => msg.csid
  | .next csid => csid

theorem ChunkReader.readChunk_chunkBytes {data rest : Bytes} (hmsg : msg.WellFormed)
    (hinput : cr.input = chunkBytes fmt field msg data ++ rest)
    (hheader : readMessageHeader (UInt8.ofNat fmt.code) (cr.states msg.csid)
      (messageHeader fmt field msg ++ (extTimestamp field ++ (data ++ rest))) =
        .ok (st, data ++ rest)) : cr.readChunk = cr.readData msg.csid st (data ++ rest) := by
  have hcode : fmt.code < 4 := by
    cases fmt with
    | fmt0 | fmt1 | fmt2 | fmt3 => decide
  have hbasic : readBasicHeader cr.input = .ok ((UInt8.ofNat fmt.code, msg.csid),
      messageHeader fmt field msg ++ (extTimestamp field ++ (data ++ rest))) := by
    rw [hinput, chunkBytes]
    simp only [append_assoc]
    exact readBasicHeader_buildBasicHeader hcode hmsg.2.2.1 hmsg.2.2.2 _
  simp only [readChunk, hbasic, Except.mapError, bind, Except.bind, hheader]

/-- The header of a supported start is read as the sender meant it. -/
theorem readMessageHeader_start {s : Stream}
    (htrack : Tracks msg.csid s st) (hmsg : msg.WellFormed) (hidle : s.idle = true)
    (hallows : s.allows fmt msg = true) (hfmt : fmt ≠ .fmt3) :
    ∃ st', Reassembles msg 0 st' ∧ ∀ rest,
      readMessageHeader (UInt8.ofNat fmt.code) st
        (messageHeader fmt (s.fieldOf fmt msg) msg ++ (extTimestamp (s.fieldOf fmt msg) ++ rest)) =
          .ok (st', rest) := by
  unfold Tracks at htrack
  unfold Stream.idle at hidle
  unfold Stream.allows at hallows
  unfold Stream.fieldOf
  -- without a previous message only fmt 0 is legal
  cases hlast : s.last with
  | none =>
    cases fmt with
    | fmt0 => exact readMessageHeader_fmt0 hmsg _
    | fmt1 | fmt2 => simp [hlast] at hallows
    | fmt3 => exact absurd rfl hfmt
  | some prev =>
    simp only [hlast, beq_iff_eq] at hidle htrack hallows
    rcases htrack with ⟨_, _, hprev⟩
    rw [hidle] at hprev
    cases fmt with
    | fmt0 => exact readMessageHeader_fmt0 hmsg _
    | fmt1 =>
      simp only [Stream.sameStream, Bool.and_eq_true, beq_iff_eq] at hallows
      exact readMessageHeader_fmt1 hmsg hprev rfl hallows.1
    | fmt2 =>
      simp only [Stream.sameStream, Stream.sameShape, Bool.and_eq_true, beq_iff_eq] at hallows
      exact readMessageHeader_fmt2 hmsg hprev rfl hallows.1.1 hallows.2.1 hallows.2.2
    | fmt3 => exact absurd rfl hfmt

namespace Sender

variable {size : Nat} {snd snd' : Sender} {e : ChunkEvent} {bytes : Bytes} {out : Option Message}

/-- The two kinds of chunks a legal sender sends. -/
theorem send_start {fmt : Fmt} {msg : Message} (h : snd.send size (.start fmt msg) = some (bytes, (snd', out))) :
    (msg.WellFormed ∧ (snd msg.csid).idle = true ∧ (snd msg.csid).allows fmt msg = true) ∧
      bytes = chunkBytes fmt ((snd msg.csid).fieldOf fmt msg) msg (msg.payload.take size) ∧
      (snd', out) = snd.advance size msg 0 ((snd msg.csid).fieldOf fmt msg) := by
  simp only [send] at h
  split at h
  · rename_i hlegal
    simp only [Option.some.injEq, Prod.mk.injEq] at h
    exact ⟨hlegal, h.1.symm, h.2.symm⟩
  · cases h

theorem send_next {csid : UInt32} (h : snd.send size (.next csid) = some (bytes, (snd', out))) :
    ∃ msg, (snd csid).last = some msg ∧ (snd csid).sent < msg.payload.length ∧
      bytes = chunkBytes .fmt3 (snd csid).field msg ((msg.payload.drop (snd csid).sent).take size) ∧
      (snd', out) = snd.advance size msg (snd csid).sent (snd csid).field := by
  simp only [send] at h
  cases hlast : (snd csid).last with
  | none => simp [hlast] at h
  | some msg =>
    simp only [hlast] at h
    split at h
    · rename_i hlt
      simp only [Option.some.injEq, Prod.mk.injEq] at h
      exact ⟨msg, rfl, hlt, h.1.symm, h.2.symm⟩
    · cases h

end Sender

theorem tracks_advance (hmsg : msg.WellFormed) (hst : Reassembles msg sent st) (hlt : sent < msg.payload.length) :
    Tracks msg.csid ((snd.advance size msg sent field).1 msg.csid)
      (st.received ((msg.payload.drop sent).take size)) := by
  simp only [Sender.advance, update_self, Tracks]
  exact ⟨hmsg, trivial, hst.received_chunk hlt size⟩

/-- The step lemma: a reader that tracks the chunk stream of a supported chunk reads it in one turn of
the loop, whatever the other chunk streams and the bytes behind the chunk are. -/
theorem readChunk_send (htrack : Tracks e.csid (snd e.csid) st)
    (hsend : snd.send size e = some (bytes, (snd', out))) (hsup : snd.Supports e) :
    (∀ csid, csid ≠ e.csid → snd' csid = snd csid) ∧
      ∃ st', Tracks e.csid (snd' e.csid) st' ∧ ∀ (cr : ChunkReader) (rest : Bytes),
        cr.chunkSize = size → cr.states e.csid = st → cr.input = bytes ++ rest →
        cr.readChunk =
          .ok ({ cr with input := rest, states := update cr.states e.csid st' }, out) := by
  cases e with
  | start fmt msg =>
    rcases Sender.send_start hsend with ⟨⟨hmsg, hidle, hallows⟩, rfl, hadv⟩
    rcases readMessageHeader_start htrack hmsg hidle hallows hsup with ⟨st0, hst0, hheader⟩
    have hpos : 0 < msg.payload.length := length_pos_iff.2 hmsg.1
    cases hadv
    refine ⟨fun csid hne => update_of_ne hne _ _,
      st0.received (msg.payload.take size), tracks_advance hmsg hst0 hpos, ?_⟩
    rintro cr rest rfl rfl hinput
    rw [readChunk_chunkBytes hmsg hinput (hheader _)]
    exact cr.readData_reassembles hst0 hpos rest
  | next csid =>
    rcases Sender.send_next hsend with ⟨msg, hlast, hlt, rfl, hadv⟩
    simp only [ChunkEvent.csid, Tracks, hlast] at htrack
    rcases htrack with ⟨hmsg, rfl, hst⟩
    cases hadv
    refine ⟨fun csid hne => update_of_ne hne _ _, st.received ((msg.payload.drop (snd msg.csid).sent).take size),
      tracks_advance hmsg hst hlt, ?_⟩
    rintro cr rest rfl rfl hinput
    -- the sender repeats no extended timestamp the reader would take for data
    have hnoExt : extTimestamp (snd msg.csid).field = [] := by
      rw [extTimestamp, if_neg]
      exact UInt32.not_le.2 hsup
    have hheader : readMessageHeader (UInt8.ofNat Fmt.fmt3.code) (cr.states msg.csid)
        (messageHeader .fmt3 (snd msg.csid).field msg ++ (extTimestamp (snd msg.csid).field ++
          ((msg.payload.drop (snd msg.csid).sent).take cr.chunkSize ++ rest))) =
        .ok (cr.states msg.csid, (msg.payload.drop (snd msg.csid).sent).take cr.chunkSize ++ rest) := by
      rw [hnoExt]
      exact readMessageHeader_fmt3 hst hmsg.1 _
    rw [readChunk_chunkBytes hmsg hinput hheader]
    exact cr.readData_reassembles hst hlt rest

/-! ## Whole schedules -/

/-- Every chunk of the schedule is one the reader can follow. -/
def Sender.SupportsRun (size : Nat) : Sender → List ChunkEvent → Prop
  | _, [] => True
  | snd, e :: es =>
    snd.Supports e ∧
      match snd.send size e with
      | none => True
      | some (_, (snd', _)) => snd'.SupportsRun size es

instance Sender.decidableSupportsRun (size : Nat) :
    (snd : Sender) → (events : List ChunkEvent) → Decidable (snd.SupportsRun size events)
  | _, [] => .isTrue trivial
  | snd, e :: es =>
    match h : snd.send size e with
    | none => decidable_of_iff (snd.Supports e) (by simp [SupportsRun, h])
    | some (_, (snd', _)) =>
      have := decidableSupportsRun size snd' es
      decidable_of_iff (snd.Supports e ∧ snd'.SupportsRun size es) (by simp [SupportsRun, h])

theorem Sender.init_trackedBy (states : UInt32 → ChunkState) : Sender.init.TrackedBy states := by
  intro csid
  simp [Sender.init, Tracks]

theorem Sender.TrackedBy.update {csid : UInt32} (h : snd.TrackedBy states) (hothers : ∀ c, c ≠ csid → snd' c = snd c)
    (hst : Tracks csid (snd' csid) st) : snd'.TrackedBy (update states csid st) := by
  intro c
  by_cases hc : c = csid
  · rw [hc, update_self]
    exact hst
  · rw [update_of_ne hc, hothers c hc]
    exact h c

theorem Sender.run_cons {snd'' : Sender} (h : snd.run size (e :: es) = some (bytes, (snd'', msgs))) :
    ∃ bytes1 snd1 out bytes2 msgs2, snd.send size e = some (bytes1, (snd1, out)) ∧
      snd1.run size es = some (bytes2, (snd'', msgs2)) ∧ bytes = bytes1 ++ bytes2 ∧ msgs = out.toList ++ msgs2 := by
  simp only [run] at h
  split at h
  · cases h
  · rename_i bytes1 snd1 out hsend
    split at h
    · cases h
    · rename_i bytes2 snd2 msgs2 htail
      cases h
      exact ⟨bytes1, snd1, out, bytes2, msgs2, hsend, htail, rfl, rfl⟩

theorem Sender.supportsRun_cons {snd1 : Sender} (hsend : snd.send size e = some (bytes, (snd1, out))) :
    snd.SupportsRun size (e :: es) ↔ snd.Supports e ∧ snd1.SupportsRun size es := by
  rw [SupportsRun, hsend]

theorem ChunkReader.readAll_of_readChunk {cr' : ChunkReader} (h : cr.readChunk = .ok (cr', out)) :
    cr.readAll = (out.toList ++ cr'.readAll.1, cr'.readAll.2) := by
  rw [readAll_eq, h]
  cases out with
  | none | some msg => rfl

/-- The run lemma: the reader returns what the schedule completes and goes on behind it, whatever the bytes there are and
whatever is on other chunk streams. -/
theorem readAll_run (htrack : snd.TrackedBy states)
    (hrun : snd.run size events = some (bytes, (snd', msgs))) (hsup : snd.SupportsRun size events) :
    ∃ states', snd'.TrackedBy states' ∧
      ∀ (cr : ChunkReader) (rest : Bytes), cr.chunkSize = size →
        (∀ e ∈ events, cr.states e.csid = states e.csid) → cr.input = bytes ++ rest →
        ∃ cr' : ChunkReader, cr'.chunkSize = size ∧ cr'.input = rest ∧
          (∀ csid, cr.states csid = states csid → cr'.states csid = states' csid) ∧
          (∀ csid, (∀ e ∈ events, e.csid ≠ csid) → cr'.states csid = cr.states csid) ∧
          cr.readAll = (msgs ++ cr'.readAll.1, cr'.readAll.2) := by
  induction events generalizing snd states bytes msgs with
  | nil =>
    cases hrun
    refine ⟨states, htrack, ?_⟩
    intro cr rest hsize _ hinput
    exact ⟨cr, hsize, hinput, fun _ hsame => hsame, fun _ _ => rfl, rfl⟩
  | cons e es ih =>
    rcases Sender.run_cons hrun with ⟨bytes1, snd1, out, bytes2, msgs2, hsend, htail, rfl, rfl⟩
    rw [Sender.supportsRun_cons hsend] at hsup
    rcases readChunk_send (htrack e.csid) hsend hsup.1 with ⟨hothers, st', hst', hread⟩
    rcases ih (htrack.update hothers hst') htail hsup.2 with ⟨states', htrack', hreads⟩
    refine ⟨states', htrack', ?_⟩
    intro cr rest hsize hstates hinput
    rw [forall_mem_cons] at hstates
    rw [append_assoc] at hinput
    have hchunk := hread cr _ hsize hstates.1 hinput
    obtain ⟨cr1, hcr1⟩ : ∃ cr1 : ChunkReader, cr1 = { cr with
        input := bytes2 ++ rest
        states := update cr.states e.csid st' } := ⟨_, rfl⟩
    have hstates1 : ∀ csid, cr.states csid = states csid →
        cr1.states csid = update states e.csid st' csid := by
      intro csid hsame
      rw [hcr1]
      by_cases hcsid : csid = e.csid
      · simp only [hcsid, update_self]
      · simp only [update_of_ne hcsid, hsame]
    rcases hreads cr1 rest (by rw [hcr1]; exact hsize)
        (fun e' he' => hstates1 e'.csid (hstates.2 e' he')) (by rw [hcr1]) with
      ⟨cr', hsize', hinput', hsame', hleft, hreadAll⟩
    refine ⟨cr', hsize', hinput', fun csid hsame => hsame' csid (hstates1 csid hsame), ?_, ?_⟩
    · intro csid hapart
      rw [forall_mem_cons] at hapart
      rw [hleft csid hapart.2, hcr1]
      exact update_of_ne (Ne.symm hapart.1) _ _
    · rw [readAll_of_readChunk hchunk, ← hcr1, hreadAll, append_assoc]

theorem ChunkReader.readAll_nil (h : cr.input = []) : cr.readAll = ([], .readBasicHeader .eof) := by
  rw [readAll, h]
  rfl

theorem chunkSize_setChunkSize (bytes : Bytes) (hsize : 0 < size) :
    ((newChunkReader bytes).setChunkSize size).chunkSize = size ∧
      ((newChunkReader bytes).setChunkSize size).input = bytes := by
  simp [setChunkSize, hsize, newChunkReader]

theorem states_setChunkSize (cr : ChunkReader) (size : Nat) : (cr.setChunkSize size).states = cr.states := by
  unfold setChunkSize
  split
  · rfl
  · rfl

/-- A supported schedule on a new connection is read as it was sent. -/
theorem readAll_of_supportsRun (hsize : 0 < size) (hrun : Sender.init.run size events = some (bytes, (snd, msgs)))
    (hsup : Sender.init.SupportsRun size events) :
    ((newChunkReader bytes).setChunkSize size).readAll = (msgs, .readBasicHeader .eof) := by
  obtain ⟨cr, hcr⟩ : ∃ cr, (newChunkReader bytes).setChunkSize size = cr := ⟨_, rfl⟩
  obtain ⟨hcrSize, hcrInput⟩ : cr.chunkSize = size ∧ cr.input = bytes := by
    rw [← hcr]
    exact chunkSize_setChunkSize bytes hsize
  rcases readAll_run (Sender.init_trackedBy cr.states) hrun hsup with ⟨states', _, hreads⟩
  rcases hreads cr [] hcrSize (fun _ _ => rfl) (by rw [hcrInput, append_nil]) with
    ⟨cr', _, hnil, _, _, hreadAll⟩
  rw [hcr, hreadAll, readAll_nil hnil, append_nil]

end LingVoice.Rtmp

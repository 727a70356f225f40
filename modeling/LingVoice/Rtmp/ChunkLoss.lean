import LingVoice.Rtmp.ChunkSchedule
import Mathlib.Data.List.Forall2

/-!
# ChunkLoss — what becomes of chunks the reader cannot follow

A schedule that is not supported is not always read wrongly: what the reader takes for data can happen
to be the data.  So the question is asked for all schedules with the same headers, whose payloads may
hold anything.  They are all read as sent exactly when the schedule is supported
(`readAll_legal_stream_iff`).
A message that starts with fmt 3 ends the connection; from an extended timestamp on a continuation chunk
on, the reader is out of step.
-/

namespace LingVoice.Rtmp

open Lib List Sender ChunkReader Function ChunkState Message

/-! ## Readers that are out of step alike -/

/-- States that differ in their payload buffers at most, and then both hold `b` at `k`, where no later
chunk of the message is written. -/
structure ChunkState.Alike (k : Nat) (b : UInt8) (st st' : ChunkState) : Prop where
  fields : st' = { st with payload := st'.payload }
  payload : st'.payload = st.payload ∨
    k < st.bytesRead ∧ st.payload[k]? = some b ∧ st'.payload[k]? = some b

structure Message.Alike (k : Nat) (b : UInt8) (msg msg' : Message) : Prop where
  csid : msg'.csid = msg.csid
  payload : msg' = msg ∨ msg.payload[k]? = some b ∧ msg'.payload[k]? = some b

namespace ChunkState

variable {k : Nat} {b : UInt8} {st st' : ChunkState}

theorem Alike.refl (k : Nat) (b : UInt8) (st : ChunkState) : st.Alike k b st :=
  ⟨rfl, .inl rfl⟩

theorem Alike.received (h : st.Alike k b st') (data : Bytes) :
    (st.received data).Alike k b (st'.received data) := by
  rcases h with ⟨hfields, hpayload⟩
  generalize st'.payload = p at hfields hpayload
  subst hfields
  refine ⟨rfl, ?_⟩
  rcases hpayload with rfl | ⟨hk, hst, hp⟩
  · exact .inl rfl
  · refine .inr ⟨?_, getElem?_overwrite_of_lt hk hst, getElem?_overwrite_of_lt hk hp⟩
    simp only [received]
    omega

theorem Alike.message (h : st.Alike k b st') (csid : UInt32) :
    Option.Rel (Message.Alike k b) (st.message csid) (st'.message csid) := by
  rcases h with ⟨hfields, hpayload⟩
  generalize st'.payload = p at hfields hpayload
  subst hfields
  unfold message
  split
  · refine .some ⟨rfl, ?_⟩
    rcases hpayload with rfl | ⟨_, hst, hp⟩
    · exact .inl rfl
    · exact .inr ⟨hst, hp⟩
  · exact .none

theorem addDelta_payload (st : ChunkState) (p : Bytes) (delta : UInt32) :
    addDelta { st with payload := p } delta = { st.addDelta delta with payload := p } := by
  unfold addDelta
  split
  · rfl
  · rfl

end ChunkState

theorem readMessageHeader_alike {k : Nat} {b : UInt8} {st st' : ChunkState} (h : st.Alike k b st')
    (fmt : UInt8) (input : Bytes) :
    HeaderRel (ChunkState.Alike k b) (readMessageHeader fmt st input) (readMessageHeader fmt st' input) := by
  by_cases hfmt : fmt = 3
  · subst hfmt
    have hskip : skipExtTimestamp st' input = skipExtTimestamp st input := by
      rw [h.fields]
      rfl
    have hlength : st'.msgLength = st.msgLength := by
      rw [h.fields]
    have hne0 : (3 : UInt8) ≠ 0 := by decide
    have hne1 : (3 : UInt8) ≠ 1 := by decide
    have hne2 : (3 : UInt8) ≠ 2 := by decide
    simp only [readMessageHeader, if_neg hne0, if_neg hne1, if_neg hne2, if_true, hskip, hlength]
    cases skipExtTimestamp st input with
    | error e => rfl
    | ok rest =>
      simp only [bind, Except.bind]
      split
      · rfl
      · exact ⟨rfl, h⟩
  · have hsame : readMessageHeader fmt st' input = readMessageHeader fmt st input := by
      -- every format but fmt 3 makes a new buffer
      rw [h.fields]
      unfold readMessageHeader
      simp only [if_neg hfmt, addDelta_payload]
      rfl
    rw [hsame]
    cases readMessageHeader fmt st input with
    | error e => rfl
    | ok r => exact ⟨rfl, .refl k b r.1⟩

namespace ChunkReader

variable {k : Nat} {b : UInt8} {cr cr' : ChunkReader}

structure Alike (k : Nat) (b : UInt8) (cr cr' : ChunkReader) : Prop where
  input : cr'.input = cr.input
  chunkSize : cr'.chunkSize = cr.chunkSize
  states : ∀ csid, (cr.states csid).Alike k b (cr'.states csid)

/-- Two turns of the loop that end in the same way. -/
def AlikeTurn (k : Nat) (b : UInt8) :
    Except ChunkError (ChunkReader × Option Message) →
      Except ChunkError (ChunkReader × Option Message) → Prop
  | .error e, .error e' => e' = e
  | .ok (cr, out), .ok (cr', out') => cr.Alike k b cr' ∧ Option.Rel (Message.Alike k b) out out'
  | _, _ => False

theorem readData_alike {csid : UInt32} {st st' : ChunkState} {input : Bytes} (hsize : cr'.chunkSize = cr.chunkSize)
    (hothers : ∀ c, c ≠ csid → (cr.states c).Alike k b (cr'.states c))
    (hfields : st' = { st with payload := st'.payload })
    (hreceived : ∀ data rest,
      readFull (min (st.msgLength.toNat - st.bytesRead) cr.chunkSize) input = .ok (data, rest) →
        (st.received data).Alike k b (st'.received data)) :
    AlikeTurn k b (cr.readData csid st input) (cr'.readData csid st' input) := by
  have hlength : st'.msgLength = st.msgLength := by
    rw [hfields]
  have hbytesRead : st'.bytesRead = st.bytesRead := by
    rw [hfields]
  refine readData_rel (R := Alike k b) hsize hlength hbytesRead ?_
  intro data rest hread
  have hst := hreceived data rest hread
  exact ⟨⟨rfl, hsize, update_rel hothers hst⟩, hst.message csid⟩

/-- The step lemma: one turn of the loop keeps readers alike. -/
theorem readChunk_alike (h : cr.Alike k b cr') : AlikeTurn k b cr.readChunk cr'.readChunk := by
  cases hbasic : readBasicHeader cr.input with
  | error e =>
    simp only [readChunk, h.input, hbasic]
    rfl
  | ok r =>
    refine readChunk_rel hbasic (h.input ▸ hbasic) (readMessageHeader_alike (h.states _) _ _) ?_
    exact fun _ _ _ hst => readData_alike h.chunkSize (fun c _ => h.states c) hst.fields fun data _ _ => hst.received data

/-- The run lemma: from one such turn on, the messages are alike to the end of the stream. -/
theorem readAll_alike (h : AlikeTurn k b cr.readChunk cr'.readChunk) :
    Forall₂ (Message.Alike k b) cr.readAll.1 cr'.readAll.1 := by
  refine readAll_rel (R := Alike k b) ?_ h
  intro _ _ halike
  exact readChunk_alike halike

end ChunkReader

theorem Message.Alike.find {k : Nat} {b : UInt8} {csid : UInt32} {xs ys : List Message}
    {msg msg' : Message} (h : Forall₂ (Alike k b) xs ys)
    (hx : xs.find? (fun m => m.csid == csid) = some msg)
    (hy : ys.find? (fun m => m.csid == csid) = some msg') : msg.Alike k b msg' := by
  induction h with
  | nil => cases hx
  | cons hmsg _ ih =>
    rw [find?_cons] at hx hy
    rw [hmsg.csid] at hy
    split at hx
    · rename_i heq
      simp only [heq] at hy
      cases hx
      cases hy
      exact hmsg
    · rename_i heq
      simp only [heq] at hy
      exact ih hx hy

/-! ## The two chunks the reader cannot follow -/

theorem ChunkReader.readChunk_fmt3 {cr : ChunkReader} {field : UInt32} {msg prev : Message} {sent : Nat}
    {data rest : Bytes} (hmsg : msg.WellFormed) (hprev : prev.WellFormed)
    (hst : Reassembles prev sent (cr.states msg.csid)) (hinput : cr.input = chunkBytes .fmt3 field msg data ++ rest) :
    cr.readChunk = cr.readData msg.csid (cr.states msg.csid) (extTimestamp field ++ data ++ rest) := by
  -- what follows the basic header is taken for data
  change cr.input = chunkBytes .fmt3 0 msg (extTimestamp field ++ data) ++ rest at hinput
  exact readChunk_chunkBytes hmsg hinput (readMessageHeader_fmt3 hst hprev.1 _)

/-- A fmt 3 chunk that starts a message is taken for one more chunk of the finished message. -/
theorem readChunk_fmt3_start {size : Nat} {snd snd' : Sender} {cr : ChunkReader} {msg : Message}
    {bytes rest : Bytes} {out : Option Message} (htrack : Tracks msg.csid (snd msg.csid) (cr.states msg.csid))
    (hsend : snd.send size (.start .fmt3 msg) = some (bytes, (snd', out)))
    (hinput : cr.input = bytes ++ rest) : ∃ remaining, cr.readChunk = .error (.invalidRemaining remaining) := by
  rcases send_start hsend with ⟨⟨hmsg, hidle, hallows⟩, rfl, _⟩
  unfold Tracks at htrack
  cases hlast : (snd msg.csid).last with
  | none => simp [Stream.allows, hlast] at hallows
  | some prev =>
    simp only [hlast] at htrack
    simp only [Stream.idle, hlast, beq_iff_eq] at hidle
    rcases htrack with ⟨hprev, _, hst⟩
    -- the state still counts all bytes of the finished message as read
    have hdone : (cr.states msg.csid).msgLength.toNat ≤ (cr.states msg.csid).bytesRead := by
      rw [hst.msgLength, hst.bytesRead, hidle]
    rw [readChunk_fmt3 hmsg hprev hst hinput, readData_eq, if_pos hdone]
    exact ⟨_, rfl⟩

/-- A continuation chunk with an extended timestamp, whose first byte is `b`: that byte is put where the
next byte of the message belongs, whatever the message has so far. -/
theorem readChunk_misread {cr cr' : ChunkReader} {field : UInt32} {msg msg' : Message} {sent : Nat}
    {data rest ext : Bytes} {b : UInt8} (hmsg : msg.WellFormed) (hsame : msg.SameHeader msg')
    (hopen : sent < msg.payload.length) (hext : extTimestamp field = b :: ext)
    (hst : Reassembles msg sent (cr.states msg.csid)) (hst' : Reassembles msg' sent (cr'.states msg.csid))
    (hfields : cr'.states msg.csid =
      { cr.states msg.csid with payload := (cr'.states msg.csid).payload })
    (hothers : ∀ csid, csid ≠ msg.csid → cr'.states csid = cr.states csid)
    (hsize : cr'.chunkSize = cr.chunkSize)
    (hinput : cr.input = chunkBytes .fmt3 field msg data ++ rest) (hinput' : cr'.input = cr.input) :
    ChunkReader.AlikeTurn sent b cr.readChunk cr'.readChunk := by
  rw [readChunk_fmt3 hmsg hmsg hst hinput, readChunk_fmt3 hmsg (hsame.wellFormed hmsg) hst' (hinput'.trans hinput)]
  refine readData_alike hsize ?_ hfields ?_
  · intro csid hne
    rw [hothers csid hne]
    exact .refl sent b _
  · intro front rest' hread
    rcases readFull_ok hread with ⟨hlen, happend⟩
    have hpos := cr.chunkSize_pos
    -- at least one byte is read, and the first there is belongs to the timestamp
    obtain ⟨tail, rfl⟩ : ∃ tail, front = b :: tail := by
      cases front with
      | nil =>
        rw [hst.msgLength, hst.bytesRead, length_nil] at hlen
        omega
      | cons c cs =>
        rw [hext, cons_append, cons_append, cons_append, cons.injEq] at happend
        exact ⟨cs, by rw [happend.1]⟩
    have hbuf : (cr.states msg.csid).bytesRead ≤ (cr.states msg.csid).payload.length := by
      rw [hst.bytesRead, hst.length_payload]
      omega
    have hbuf' : (cr'.states msg.csid).bytesRead ≤ (cr'.states msg.csid).payload.length := by
      rw [hst'.bytesRead, hst'.length_payload, hsame.length]
      omega
    have hfirst := @getElem?_overwrite_self _ _ tail b hbuf
    have hfirst' := @getElem?_overwrite_self _ _ tail b hbuf'
    rw [hst.bytesRead] at hfirst
    rw [hst'.bytesRead] at hfirst'
    refine ⟨?_, .inr ⟨?_, ?_, ?_⟩⟩
    · rw [hfields]
      rfl
    · simp only [received, hst.bytesRead, length_cons]
      omega
    · simp only [received, hst.bytesRead]
      exact hfirst
    · simp only [received, hst'.bytesRead]
      exact hfirst'

/-! ## Two payloads under the same headers -/

namespace Message.SameHeader

variable {msg msg' : Message}

theorem messageHeader (h : msg.SameHeader msg') (fmt : Fmt) (field : UInt32) :
    Rtmp.messageHeader fmt field msg' = Rtmp.messageHeader fmt field msg := by
  unfold Rtmp.messageHeader
  rw [h.length, h.type, h.streamID]

/-- Before the first byte of the payload the reader knows the header only. -/
theorem reassembles (h : msg.SameHeader msg') {st : ChunkState} (hst : Reassembles msg 0 st) :
    Reassembles msg' 0 st where
  timestamp := hst.timestamp.trans h.timestamp.symm
  timestampDelta := hst.timestampDelta
  msgType := hst.msgType.trans h.type.symm
  msgLength := hst.msgLength.trans h.length.symm
  streamID := hst.streamID.trans h.streamID.symm
  bytesRead := hst.bytesRead
  length_payload := hst.length_payload.trans h.length.symm
  payload := rfl
  newMessage := by
    rw [h.length]
    exact hst.newMessage

end Message.SameHeader

/-- A schedule the reader can follow, in which the first chunk of `msg` is out and no other. -/
structure Opening (size : Nat) where
  pre : List ChunkEvent
  fmt : Fmt
  msg : Message
  mid : List ChunkEvent
  bytes0 : Bytes
  snd0 : Sender
  msgs0 : List Message
  bytes2 : Bytes
  snd2 : Sender
  msgs2 : List Message
  run_pre : Sender.init.run size pre = some (bytes0, (snd0, msgs0))
  supports_pre : Sender.init.SupportsRun size pre
  legal : msg.WellFormed ∧ (snd0 msg.csid).idle = true ∧ (snd0 msg.csid).allows fmt msg = true
  fmt_ne : fmt ≠ .fmt3
  long : size < msg.payload.length
  run_mid : (snd0.advance size msg 0 ((snd0 msg.csid).fieldOf fmt msg)).1.run size mid =
    some (bytes2, (snd2, msgs2))
  supports_mid : (snd0.advance size msg 0 ((snd0 msg.csid).fieldOf fmt msg)).1.SupportsRun size mid
  apart : ∀ e ∈ mid, e.csid ≠ msg.csid

namespace Opening

variable {size : Nat}

def field (o : Opening size) : UInt32 :=
  (o.snd0 o.msg.csid).fieldOf o.fmt o.msg

def snd1 (o : Opening size) : Sender :=
  (o.snd0.advance size o.msg 0 o.field).1

def events (o : Opening size) : List ChunkEvent :=
  o.pre ++ .start o.fmt o.msg :: o.mid

def bytes (o : Opening size) : Bytes :=
  o.bytes0 ++ (chunkBytes o.fmt o.field o.msg (o.msg.payload.take size) ++ o.bytes2)

def msgs (o : Opening size) : List Message :=
  o.msgs0 ++ o.msgs2

def stream (o : Opening size) : Stream :=
  { last := some o.msg, sent := size, field := o.field }

variable (o : Opening size)

theorem advance_eq : o.snd0.advance size o.msg 0 o.field = (update o.snd0 o.msg.csid o.stream, none) := by
  have hlong := o.long
  have hsent : 0 + min (o.msg.payload.length - 0) size = size := by omega
  have hopen : size ≠ o.msg.payload.length := by omega
  simp only [advance, hsent, if_neg hopen, stream]

theorem snd1_eq : o.snd1 = update o.snd0 o.msg.csid o.stream := by
  rw [snd1, advance_eq]

theorem send_start :
    o.snd0.send size (.start o.fmt o.msg) =
      some (chunkBytes o.fmt o.field o.msg (o.msg.payload.take size), (o.snd1, none)) := by
  rw [send, if_pos o.legal, snd1_eq, ← advance_eq]
  rfl

theorem labelled_snd1 : o.snd1.Labelled :=
  (send_local (run_labelled init_labelled o.run_pre) o.send_start).1

theorem run_events : init.run size o.events = some (o.bytes, (o.snd2, o.msgs)) := by
  refine run_append o.run_pre ?_
  have hmid : o.snd1.run size o.mid = some (o.bytes2, (o.snd2, o.msgs2)) := o.run_mid
  simp only [run, o.send_start, hmid]
  rfl

/-- The stream of the message is left alone by the chunks of others. -/
theorem snd2_apply : o.snd2 o.msg.csid = o.stream := by
  rw [run_apart o.labelled_snd1 o.apart o.run_mid, snd1_eq, update_self]

theorem snd2_eq : o.snd2 = update o.snd2 o.msg.csid o.stream := by
  rw [← snd2_apply, update_eq_self]

section Exchange

variable {msg' : Message}

theorem fieldOf_exchange (o : Opening size) (h : o.msg.SameHeader msg') :
    (o.snd0 msg'.csid).fieldOf o.fmt msg' = o.field := by
  rw [h.csid]
  exact ((Stream.SameHeader.refl _).start h o.fmt).2

theorem advance_exchange (o : Opening size) (h : o.msg.SameHeader msg') :
    (o.snd0.advance size msg' 0 o.field).1 =
      update o.snd1 o.msg.csid { o.stream with last := some msg' } := by
  have hlong := o.long
  have hsent : 0 + min (o.msg.payload.length - 0) size = size := by omega
  rw [snd1_eq, update_idem]
  simp only [advance, h.csid, h.length, hsent]
  rfl

theorem supports_exchange (o : Opening size) (h : o.msg.SameHeader msg') :
    (o.snd0.advance size msg' 0 o.field).1.SupportsRun size o.mid := by
  have hsame : ∀ csid, (o.snd1 csid).SameHeader ((o.snd0.advance size msg' 0 o.field).1 csid) :=
    advance_sameHeader (fun csid => .refl _) h 0 o.field
  rcases run_sameHeader hsame (forall₂_same.2 fun e _ => .refl e) o.run_mid with
    ⟨_, _, _, _, _, hsup, _⟩
  exact hsup o.supports_mid

/-- Another payload of the same length makes another opening, with the same chunks around the one that
holds it. -/
def exchange (o : Opening size) (msg' : Message) (h : o.msg.SameHeader msg') : Opening size where
  pre := o.pre
  fmt := o.fmt
  msg := msg'
  mid := o.mid
  bytes0 := o.bytes0
  snd0 := o.snd0
  msgs0 := o.msgs0
  bytes2 := o.bytes2
  snd2 := Function.update o.snd2 o.msg.csid { o.stream with last := some msg' }
  msgs2 := o.msgs2
  run_pre := o.run_pre
  supports_pre := o.supports_pre
  legal := by
    rw [h.csid, ((Stream.SameHeader.refl _).start h o.fmt).1]
    exact ⟨h.wellFormed o.legal.1, o.legal.2⟩
  fmt_ne := o.fmt_ne
  long := by
    rw [h.length]
    exact o.long
  run_mid := by
    rw [o.fieldOf_exchange h, o.advance_exchange h]
    exact Sender.run_update o.labelled_snd1 o.apart _ o.run_mid
  supports_mid := by
    rw [o.fieldOf_exchange h]
    exact o.supports_exchange h
  apart := by
    rw [h.csid]
    exact o.apart

end Exchange

/-- The reader at the first chunk of the message.  It makes the same of the header whatever the payload
is. -/
theorem exists_readChunk {st : ChunkState} (htrack : Tracks o.msg.csid (o.snd0 o.msg.csid) st) :
    ∃ st0, Reassembles o.msg 0 st0 ∧
      ∀ (msg' : Message) (cr : ChunkReader) (rest : Bytes), o.msg.SameHeader msg' →
        cr.chunkSize = size → cr.states o.msg.csid = st →
        cr.input = chunkBytes o.fmt o.field msg' (msg'.payload.take size) ++ rest →
        cr.readChunk = .ok ({ cr with
            input := rest
            states := update cr.states o.msg.csid (st0.received (msg'.payload.take size)) },
          none) := by
  rcases readMessageHeader_start htrack o.legal.1 o.legal.2.1 o.legal.2.2 o.fmt_ne with
    ⟨st0, hst0, hheader⟩
  refine ⟨st0, hst0, ?_⟩
  rintro msg' cr rest h rfl rfl hinput
  have hlong : cr.chunkSize < msg'.payload.length := by
    rw [h.length]
    exact o.long
  have hopen : 0 + min (msg'.payload.length - 0) cr.chunkSize ≠ msg'.payload.length := by omega
  have hheader' : readMessageHeader (UInt8.ofNat o.fmt.code) (cr.states msg'.csid)
      (messageHeader o.fmt o.field msg' ++ (extTimestamp o.field ++ (msg'.payload.take cr.chunkSize ++ rest))) =
        .ok (st0, msg'.payload.take cr.chunkSize ++ rest) := by
    rw [h.csid, h.messageHeader]
    exact hheader _
  rw [readChunk_chunkBytes (h.wellFormed o.legal.1) hinput hheader', ← h.csid]
  have hdata := cr.readData_reassembles (h.reassembles hst0) (by omega) rest
  rw [if_neg hopen] at hdata
  exact hdata

/-- The reader at the end of an opening: it has the first chunk of the message, and nothing else in it
depends on the payload. -/
theorem exists_readAll (hsize : 0 < size) :
    ∃ st0 states, Reassembles o.msg 0 st0 ∧
      ∀ (msg' : Message) (h : o.msg.SameHeader msg') (rest : Bytes), ∃ cr : ChunkReader,
        cr.chunkSize = size ∧ cr.input = rest ∧
        cr.states = update states o.msg.csid (st0.received (msg'.payload.take size)) ∧
        ((newChunkReader ((o.exchange msg' h).bytes ++ rest)).setChunkSize size).readAll =
          (o.msgs ++ cr.readAll.1, cr.readAll.2) := by
  rcases readAll_run (init_trackedBy (fun _ => {})) o.run_pre o.supports_pre with
    ⟨states0, htrack0, hreads0⟩
  rcases o.exists_readChunk (htrack0 o.msg.csid) with ⟨st0, hst0, hchunk⟩
  have hpos : 0 < o.msg.payload.length := length_pos_iff.2 o.legal.1.1
  have htrack1 : o.snd1.TrackedBy
      (update states0 o.msg.csid (st0.received (o.msg.payload.take size))) :=
    htrack0.update (fun c hc => update_of_ne hc _ _) (tracks_advance o.legal.1 hst0 hpos)
  rcases readAll_run htrack1 o.run_mid o.supports_mid with ⟨states2, _, hreads2⟩
  refine ⟨st0, states2, hst0, ?_⟩
  intro msg' h rest
  have hbytes : (o.exchange msg' h).bytes ++ rest = o.bytes0 ++
      (chunkBytes o.fmt o.field msg' (msg'.payload.take size) ++ (o.bytes2 ++ rest)) := by
    have hfield : (o.exchange msg' h).field = o.field := o.fieldOf_exchange h
    rw [bytes, hfield, append_assoc, append_assoc]
    rfl
  obtain ⟨hcrSize, hcrInput⟩ := chunkSize_setChunkSize ((o.exchange msg' h).bytes ++ rest) hsize
  have hnew : ∀ csid, ((newChunkReader ((o.exchange msg' h).bytes ++ rest)).setChunkSize size).states
      csid = {} := by
    intro csid
    rw [states_setChunkSize]
    rfl
  rcases hreads0 _ _ hcrSize (fun e _ => hnew e.csid) (hcrInput.trans hbytes) with
    ⟨cr0, hsize0, hinput0, hstates0, _, hread0⟩
  have hchunk0 := hchunk msg' cr0 _ h hsize0 (hstates0 _ (hnew _)) hinput0
  obtain ⟨cr1, hcr1⟩ : ∃ cr1 : ChunkReader, cr1 = { cr0 with
      input := o.bytes2 ++ rest
      states := update cr0.states o.msg.csid (st0.received (msg'.payload.take size)) } :=
    ⟨_, rfl⟩
  rw [← hcr1] at hchunk0
  have hstates1 : ∀ csid, csid ≠ o.msg.csid → cr1.states csid =
      update states0 o.msg.csid (st0.received (o.msg.payload.take size)) csid := by
    intro csid hne
    rw [hcr1, update_of_ne hne, ← hstates0 csid (hnew csid)]
    exact update_of_ne hne _ _
  rcases hreads2 cr1 rest (by rw [hcr1]; exact hsize0)
      (fun e he => hstates1 e.csid (o.apart e he)) (by rw [hcr1]) with
    ⟨cr2, hsize2, hinput2, hstates2, hleft2, hread2⟩
  refine ⟨cr2, hsize2, hinput2, ?_, ?_⟩
  · funext csid
    by_cases hcsid : csid = o.msg.csid
    · rw [hcsid, hleft2 _ o.apart, hcr1, update_self]
      exact update_self ..
    · rw [hstates2 csid (hstates1 csid hcsid), update_of_ne hcsid]
  · rw [hread0, readAll_of_readChunk hchunk0, hread2, msgs, append_assoc]
    rfl

theorem find_msg {events : List ChunkEvent} {bytes3 : Bytes} {snd3 : Sender}
    {msgs3 : List Message} (hrun : o.snd2.run size events = some (bytes3, (snd3, msgs3)))
    (hidle : (snd3 o.msg.csid).idle = true) : msgs3.find? (fun m => m.csid == o.msg.csid) = some o.msg := by
  refine find_of_run (run_labelled o.labelled_snd1 o.run_mid) ?_ ?_ hrun hidle
  · rw [snd2_apply]
    rfl
  · rw [snd2_apply]
    exact o.long

theorem reassembles_first {st0 : ChunkState} (hst0 : Reassembles o.msg 0 st0) :
    Reassembles o.msg size (st0.received (o.msg.payload.take size)) := by
  have hlong := o.long
  have hsent : 0 + min (o.msg.payload.length - 0) size = size := by omega
  have hfirst := hst0.received_chunk (by omega) size
  rw [hsent] at hfirst
  exact hfirst

/-- The schedule goes on, and in the same bytes when the payloads differ in the first chunk only. -/
theorem run_exchange {msg' : Message} (h : o.msg.SameHeader msg')
    {events : List ChunkEvent} {bytes3 : Bytes} {snd3 : Sender} {msgs3 : List Message}
    (hrun : o.snd2.run size events = some (bytes3, (snd3, msgs3))) :
    ∃ bytes3' snd3' msgs3', (o.exchange msg' h).snd2.run size events =
        some (bytes3', (snd3', msgs3')) ∧
      (∀ csid, (snd3' csid).idle = (snd3 csid).idle) ∧
      (msg'.payload.drop size = o.msg.payload.drop size → bytes3' = bytes3) := by
  have hsame : ∀ csid, (o.snd2 csid).SameHeader ((o.exchange msg' h).snd2 csid) := by
    rw [snd2_eq]
    refine forall_update_update (fun csid => .refl _) o.msg.csid ?_
    exact ⟨rfl, rfl, .some h⟩
  rcases run_sameHeader hsame (forall₂_same.2 fun e _ => .refl e) hrun with
    ⟨bytes3', snd3', msgs3', hrun', hsame', _, hbytes⟩
  refine ⟨bytes3', snd3', msgs3', hrun', fun csid => (hsame' csid).idle, ?_⟩
  intro htail
  have hsameTail : ∀ csid, (o.snd2 csid).SameTail ((o.exchange msg' h).snd2 csid) := by
    rw [snd2_eq]
    refine forall_update_update (fun csid => .refl _) o.msg.csid ?_
    rintro _ _ ⟨⟩ ⟨⟩
    exact htail
  exact hbytes rfl hsameTail

/-- Of two payloads that differ in the first chunk of the message only, one at least is not read back
when the second chunk has an extended timestamp.  `b` is the first byte of that timestamp. -/
theorem not_both_read (hsize : 0 < size) {post : List ChunkEvent}
    {bytes3 : Bytes} {snd3 snd3' : Sender} {msgs3 msgs3' : List Message} {msg' : Message} {b : UInt8}
    {ext : Bytes} (h : o.msg.SameHeader msg') (hne : msg' ≠ o.msg)
    (hext : extTimestamp o.field = b :: ext) (hb : o.msg.payload[size]? ≠ some b)
    (hrun : o.snd2.run size (.next o.msg.csid :: post) = some (bytes3, (snd3, msgs3)))
    (hidle : (snd3 o.msg.csid).idle = true)
    (hrun' : (o.exchange msg' h).snd2.run size (.next o.msg.csid :: post) =
      some (bytes3, (snd3', msgs3')))
    (hidle' : (snd3' o.msg.csid).idle = true)
    (hread : ((newChunkReader (o.bytes ++ bytes3)).setChunkSize size).readAll =
      (o.msgs ++ msgs3, .readBasicHeader .eof)) :
    ((newChunkReader ((o.exchange msg' h).bytes ++ bytes3)).setChunkSize size).readAll ≠
      (o.msgs ++ msgs3', .readBasicHeader .eof) := by
  intro hread'
  have hfind := o.find_msg hrun hidle
  have hfind' : msgs3'.find? (fun m => m.csid == o.msg.csid) = some msg' := by
    rw [← h.csid] at hrun' hidle' ⊢
    exact (o.exchange msg' h).find_msg hrun' hidle'
  rcases o.exists_readAll hsize with ⟨st0, states, hst0, hreads⟩
  rcases hreads o.msg (.refl _) bytes3 with ⟨cr, hcrSize, hcrInput, hcrStates, hcrRead⟩
  rcases hreads msg' h bytes3 with ⟨cr', hcrSize', hcrInput', hcrStates', hcrRead'⟩
  have hself : (o.exchange o.msg (.refl _)).bytes = o.bytes := rfl
  rw [hself, hread, Prod.mk.injEq] at hcrRead
  rw [hread', Prod.mk.injEq] at hcrRead'
  rw [append_cancel_left hcrRead.1] at hfind
  rw [append_cancel_left hcrRead'.1] at hfind'
  rcases run_cons hrun with ⟨chunk, _, _, rest, _, hsend, _, rfl, _⟩
  rcases send_next hsend with ⟨msg, hlast, _, rfl, _⟩
  have hfield : (o.snd2 o.msg.csid).field = o.field := by
    rw [snd2_apply]
    rfl
  rw [← hfield] at hext
  rw [snd2_apply] at hlast
  cases hlast
  have hlen : (msg'.payload.take size).length = (o.msg.payload.take size).length := by
    rw [length_take, length_take, h.length]
  have hturn : ChunkReader.AlikeTurn size b cr.readChunk cr'.readChunk := by
    refine readChunk_misread o.legal.1 h o.long hext ?_ ?_ ?_ ?_ ?_ hcrInput ?_
    · rw [hcrStates, update_self]
      exact o.reassembles_first hst0
    · rw [hcrStates', update_self]
      exact (o.exchange msg' h).reassembles_first (h.reassembles hst0)
    · rw [hcrStates, hcrStates', update_self, update_self]
      simp only [received, hlen]
    · intro csid hcsid
      rw [hcrStates, hcrStates', update_of_ne hcsid, update_of_ne hcsid]
    · rw [hcrSize, hcrSize']
    · rw [hcrInput, hcrInput']
  have halike := Message.Alike.find (readAll_alike hturn) hfind hfind'
  rcases halike.payload with heq | ⟨hbyte, _⟩
  · exact hne heq
  · exact hb hbyte

theorem sameHeader_exchange {msg' : Message} (h : o.msg.SameHeader msg') (rest : List ChunkEvent) :
    Forall₂ ChunkEvent.SameHeader (o.events ++ rest) ((o.exchange msg' h).events ++ rest) := by
  have hrefl : ∀ es : List ChunkEvent, Forall₂ ChunkEvent.SameHeader es es :=
    fun es => forall₂_same.2 fun e _ => .refl e
  exact rel_append (rel_append (hrefl o.pre) (.cons (.start o.fmt h) (hrefl o.mid)))
    (hrefl rest)

end Opening

section Unsupported

variable {size : Nat} {events : List ChunkEvent} {bytes : Bytes} {snd : Sender} {msgs : List Message}

/-- A supported schedule at whose end a message with an extended timestamp is open. -/
theorem exists_opening_of_last {csid : UInt32} {msg : Message} (hrun : init.run size events = some (bytes, (snd, msgs)))
    (hsup : init.SupportsRun size events) (hlast : (snd csid).last = some msg)
    (hopen : (snd csid).sent < msg.payload.length) (hext : ¬ (snd csid).field < 0xFFFFFF) :
    ∃ o : Opening size, events = o.events ∧ csid = o.msg.csid ∧ 0xFFFFFF ≤ o.field := by
  rcases exists_start init_labelled hrun hsup hlast hext with
    ⟨_, hinit⟩ | ⟨pre, fmt, mid, rfl, rfl, hapart⟩
  · rw [hinit] at hlast
    cases hlast
  · rcases exists_run_of_append hrun with ⟨bytes0, snd0, msgs0, _, _, hpre, hrest, _, _⟩
    rw [supportsRun_append hpre] at hsup
    rcases run_cons hrest with ⟨_, _, _, bytes2, msgs2, hstart, hmid, _, _⟩
    rw [supportsRun_cons hstart] at hsup
    rcases send_start hstart with ⟨hlegal, _, hadv⟩
    cases hadv
    have hlabelled := (send_local (run_labelled init_labelled hpre) hstart).1
    -- the chunks of other streams have left this one as its first chunk did
    have hstream := run_apart hlabelled hapart hmid
    rw [update_self] at hstream
    rw [hstream] at hopen hext
    have hlong : size < msg.payload.length := by
      dsimp only at hopen
      omega
    exact ⟨⟨pre, fmt, msg, mid, bytes0, snd0, msgs0, bytes2, snd, msgs2, hpre, hsup.1, hlegal,
      hsup.2.1, hlong, hmid, hsup.2.2, hapart⟩, rfl, rfl, UInt32.not_lt.1 hext⟩

/-- What a schedule that is not supported looks like. -/
theorem exists_opening (hrun : init.run size events = some (bytes, (snd, msgs)))
    (hsup : ¬ init.SupportsRun size events) :
    (∃ pre msg post, events = pre ++ .start .fmt3 msg :: post ∧ init.SupportsRun size pre) ∨
      ∃ (o : Opening size) (post : List ChunkEvent),
        events = o.events ++ .next o.msg.csid :: post ∧ 0xFFFFFF ≤ o.field := by
  rcases exists_unsupported hrun hsup with
    ⟨front, e, post, bytes1, snd1, msgs1, rfl, hfront, hfrontSup, he⟩
  cases e with
  | start fmt msg =>
    obtain rfl : fmt = .fmt3 := not_not.1 he
    exact .inl ⟨front, msg, post, rfl, hfrontSup⟩
  | next csid =>
    rcases exists_run_of_append hrun with ⟨_, snd1', _, _, _, hfront', hrest, _, _⟩
    rw [hfront] at hfront'
    cases hfront'
    rcases run_cons hrest with ⟨_, _, _, _, _, hsend, _, _, _⟩
    rcases send_next hsend with ⟨msg, hlast, hopen, _, _⟩
    rcases exists_opening_of_last hfront hfrontSup hlast hopen he with ⟨o, rfl, rfl, hext⟩
    exact .inr ⟨o, post, rfl, hext⟩

/-- A message that starts with fmt 3 ends the connection with an error of its own. -/
theorem readAll_fmt3_start (hsize : 0 < size) {pre post : List ChunkEvent} {msg : Message}
    (hrun : init.run size (pre ++ .start .fmt3 msg :: post) = some (bytes, (snd, msgs)))
    (hsup : init.SupportsRun size pre) :
    ∃ done remaining, ((newChunkReader bytes).setChunkSize size).readAll = (done, .invalidRemaining remaining) := by
  rcases exists_run_of_append hrun with
    ⟨bytes1, snd1, msgs1, bytes2, msgs2, hpre, hrest, rfl, rfl⟩
  rcases run_cons hrest with ⟨bytes3, snd3, out, bytes4, msgs4, hsend, _, rfl, rfl⟩
  obtain ⟨hcrSize, hcrInput⟩ := chunkSize_setChunkSize (bytes1 ++ (bytes3 ++ bytes4)) hsize
  rcases readAll_run (init_trackedBy _) hpre hsup with ⟨states, htrack, hreads⟩
  rcases hreads _ _ hcrSize (fun _ _ => rfl) hcrInput with ⟨cr, _, hinput, hstates, _, hread⟩
  have hstream := htrack msg.csid
  rw [← hstates msg.csid rfl] at hstream
  rcases readChunk_fmt3_start hstream hsend hinput with ⟨remaining, hfail⟩
  refine ⟨msgs1, remaining, ?_⟩
  rw [hread, readAll_eq, hfail, append_nil]

/-- The message with the same header and the payload `x`, `b`, `b`, … -/
def Message.filled (msg : Message) (x b : UInt8) : Message :=
  { msg with payload := x :: List.replicate (msg.payload.length - 1) b }

theorem Message.sameHeader_filled {msg : Message} (h : msg.payload ≠ []) (x b : UInt8) :
    msg.SameHeader (msg.filled x b) := by
  have hpos : 0 < msg.payload.length := length_pos_iff.2 h
  refine ⟨rfl, rfl, rfl, rfl, ?_⟩
  simp only [filled, length_cons, length_replicate]
  omega

theorem Message.getElem?_filled {msg : Message} {k : Nat} (hk : 0 < k) (hlt : k < msg.payload.length)
    (x b : UInt8) : (msg.filled x b).payload[k]? = some b := by
  obtain ⟨j, rfl⟩ : ∃ j, k = j + 1 := ⟨k - 1, by omega⟩
  have hj : j < msg.payload.length - 1 := by omega
  rw [filled, getElem?_cons_succ, getElem?_replicate, if_pos hj]

theorem Message.drop_filled {msg : Message} {k : Nat} (hk : 0 < k) (x y b : UInt8) :
    (msg.filled x b).payload.drop k = (msg.filled y b).payload.drop k := by
  obtain ⟨j, rfl⟩ : ∃ j, k = j + 1 := ⟨k - 1, by omega⟩
  rfl

/-- The first byte of an extended timestamp, and a byte that is another. -/
theorem exists_extTimestamp {field : UInt32} (h : 0xFFFFFF ≤ field) :
    ∃ b ext c, extTimestamp field = b :: ext ∧ c ≠ b := by
  obtain ⟨b, ext, hext⟩ : ∃ b ext, extTimestamp field = b :: ext := by
    rw [extTimestamp, if_pos h]
    exact ⟨_, _, rfl⟩
  by_cases hb : b = 0
  · refine ⟨b, ext, 1, hext, ?_⟩
    rw [hb]
    decide
  · exact ⟨b, ext, 0, hext, Ne.symm hb⟩

/-- Where the second chunk of a message has an extended timestamp, some payload of that message is not
read back. -/
theorem Opening.exists_not_read (o : Opening size) (hsize : 0 < size) (hext : 0xFFFFFF ≤ o.field)
    {post : List ChunkEvent} (hrun : init.run size (o.events ++ .next o.msg.csid :: post) = some (bytes, (snd, msgs)))
    (hidle : (snd o.msg.csid).idle = true) :
    ∃ events' bytes' snd' msgs',
      Forall₂ ChunkEvent.SameHeader (o.events ++ .next o.msg.csid :: post) events' ∧
      init.run size events' = some (bytes', (snd', msgs')) ∧
      ((newChunkReader bytes').setChunkSize size).readAll ≠ (msgs', .readBasicHeader .eof) := by
  rcases exists_run_of_append hrun with ⟨_, snd2, _, bytes3, msgs3, hopening, hrest, _, _⟩
  rw [o.run_events] at hopening
  cases hopening
  rcases exists_extTimestamp hext with ⟨b, ext, c, hb, hc⟩
  -- two payloads that differ in their first byte, and hold anything but `b` behind it
  have h0 : o.msg.SameHeader (o.msg.filled 0 c) := sameHeader_filled o.legal.1.1 0 c
  have h1 : o.msg.SameHeader (o.msg.filled 1 c) := sameHeader_filled o.legal.1.1 1 c
  have h01 : (o.msg.filled 0 c).SameHeader (o.msg.filled 1 c) := ⟨rfl, rfl, rfl, rfl, rfl⟩
  rcases o.run_exchange h0 hrest with ⟨bytes0, snd0, msgs0, hrun0, hidle0, _⟩
  by_cases hread : ((newChunkReader ((o.exchange _ h0).bytes ++ bytes0)).setChunkSize size).readAll =
      ((o.exchange _ h0).msgs ++ msgs0, .readBasicHeader .eof)
  · rcases (o.exchange _ h0).run_exchange h01 hrun0 with ⟨bytes1, snd1, msgs1, hrun1, hidle1, hbytes⟩
    obtain rfl : bytes1 = bytes0 := hbytes (drop_filled hsize 1 0 c)
    have hne : o.msg.filled 1 c ≠ o.msg.filled 0 c := by
      intro heq
      have hbyte : (1 : UInt8) = 0 := (cons.inj (congrArg Message.payload heq)).1
      exact absurd hbyte (by decide)
    have hnext : (o.msg.filled 0 c).payload[size]? ≠ some b := by
      rw [getElem?_filled hsize o.long]
      exact fun heq => hc (Option.some.inj heq)
    rw [← hidle0] at hidle
    have hidle' : (snd1 o.msg.csid).idle = true := (hidle1 _).trans hidle
    exact ⟨_, _, _, _, o.sameHeader_exchange h1 _, run_append ((o.exchange _ h0).exchange _ h01).run_events hrun1,
      (o.exchange _ h0).not_both_read hsize h01 hne hb hnext hrun0 hidle hrun1 hidle' hread⟩
  · exact ⟨_, _, _, _, o.sameHeader_exchange h0 _, run_append (o.exchange _ h0).run_events hrun0, hread⟩

/-- The payloads of a complete schedule that is not supported can be chosen such that it is not read as
sent. -/
theorem exists_not_read (hsize : 0 < size) (hrun : init.run size events = some (bytes, (snd, msgs)))
    (hidle : ∀ e ∈ events, (snd e.csid).idle = true) (hsup : ¬ init.SupportsRun size events) :
    ∃ events' bytes' snd' msgs', Forall₂ ChunkEvent.SameHeader events events' ∧
      init.run size events' = some (bytes', (snd', msgs')) ∧
      ((newChunkReader bytes').setChunkSize size).readAll ≠ (msgs', .readBasicHeader .eof) := by
  rcases exists_opening hrun hsup with ⟨pre, msg, post, rfl, hpre⟩ | ⟨o, post, rfl, hext⟩
  · refine ⟨_, bytes, snd, msgs, forall₂_same.2 fun e _ => .refl e, hrun, ?_⟩
    rcases readAll_fmt3_start hsize hrun hpre with ⟨done, remaining, hfail⟩
    intro hread
    rw [hfail] at hread
    cases hread
  · refine o.exists_not_read hsize hext hrun (hidle (.next o.msg.csid) ?_)
    simp

end Unsupported

/-! ## Legal chunk streams -/

/-- A legal chunk stream is read as it was sent, whatever its payloads hold, exactly when every message
in it starts with fmt 0, 1 or 2 and every message with an extended timestamp fits into one chunk. -/
theorem readAll_legal_stream_iff (size : Nat) (hsize : 0 < size) (events : List ChunkEvent)
    (bytes : Bytes) (snd : Sender) (msgs : List Message)
    (hrun : Sender.init.run size events = some (bytes, (snd, msgs)))
    (hidle : ∀ e ∈ events, (snd e.csid).idle = true) :
    (∀ events' bytes' snd' msgs', List.Forall₂ ChunkEvent.SameHeader events events' →
        Sender.init.run size events' = some (bytes', (snd', msgs')) →
        ((newChunkReader bytes').setChunkSize size).readAll = (msgs', .readBasicHeader .eof)) ↔
      Sender.init.SupportsRun size events := by
  constructor
  · intro hall
    by_contra hsup
    rcases exists_not_read hsize hrun hidle hsup with
      ⟨events', bytes', snd', msgs', hsame, hrun', hread⟩
    exact hread (hall events' bytes' snd' msgs' hsame hrun')
  · intro hsup events' bytes' snd' msgs' hsame hrun'
    rcases run_sameHeader (fun csid => .refl _) hsame hrun with ⟨_, _, _, _, _, hsup', _⟩
    exact readAll_of_supportsRun hsize hrun' (hsup' hsup)

/-- A message in two chunks with one of another chunk stream in between, and a message that repeats its header. -/
def interleavedEvents : List ChunkEvent :=
  [.start .fmt0 ⟨9, 1, 4, 100, [1, 2, 3]⟩, .start .fmt0 ⟨8, 1, 400, 120, [7]⟩, .next 4,
    .start .fmt2 ⟨9, 1, 4, 140, [4, 5, 6]⟩, .next 4]

theorem readAll_legal_stream_interleaved :
    ∃ bytes snd, Sender.init.run 2 interleavedEvents =
        some (bytes, (snd, [⟨8, 1, 400, 120, [7]⟩, ⟨9, 1, 4, 100, [1, 2, 3]⟩,
          ⟨9, 1, 4, 140, [4, 5, 6]⟩])) ∧
      ((newChunkReader bytes).setChunkSize 2).readAll =
        ([⟨8, 1, 400, 120, [7]⟩, ⟨9, 1, 4, 100, [1, 2, 3]⟩, ⟨9, 1, 4, 140, [4, 5, 6]⟩],
          .readBasicHeader .eof) := by
  refine ⟨_, _, rfl, ?_⟩
  have hsup : init.SupportsRun 2 interleavedEvents := by decide
  exact (readAll_legal_stream_iff 2 (by decide) interleavedEvents _ _ _ rfl (by decide)).2 hsup
    interleavedEvents _ _ _ (forall₂_same.2 fun e _ => .refl e) rfl

/-- The third message has the header and the delta of the second and is sent with fmt 3. -/
theorem fmt3_start_rejected :
    ∃ bytes snd, Sender.init.run 128
        [.start .fmt0 ⟨8, 1, 4, 0, [1]⟩, .start .fmt1 ⟨8, 1, 4, 10, [2]⟩,
          .start .fmt3 ⟨8, 1, 4, 20, [3]⟩] =
        some (bytes, (snd, [⟨8, 1, 4, 0, [1]⟩, ⟨8, 1, 4, 10, [2]⟩, ⟨8, 1, 4, 20, [3]⟩])) ∧
      ((newChunkReader bytes).setChunkSize 128).readAll =
        ([⟨8, 1, 4, 0, [1]⟩, ⟨8, 1, 4, 10, [2]⟩], .invalidRemaining 0) := by
  refine ⟨_, _, rfl, ?_⟩
  decide +kernel

end LingVoice.Rtmp

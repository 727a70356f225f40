import LingVoice.Rtmp.ChunkLoss
import Mathlib.Data.List.Find

/-!
# ChunkRoundTrip — `ChunkReader` reads what `ChunkWriter` wrote

`WriteMessage` is one of the legal senders: a fmt 0 chunk and fmt 3 continuations, one message after
the other.  Its output is therefore a run of `Sender` over the schedule `ChunkWriter.events`
(`run_events`), and the reader's round trip is the one for chunk streams.
-/

namespace LingVoice.Rtmp

open Lib List Sender Function

namespace ChunkWriter

/-! ## The writer's schedule -/

def writeMessages (cw : ChunkWriter) (msgs : List Message) : Bytes :=
  msgs.flatMap (fun msg => (cw.writeMessage msg).flatten)

def restEvents (cw : ChunkWriter) (csid : UInt32) (length : Nat) : Nat → Nat → List ChunkEvent
  | 0, _ => []
  | n + 1, written =>
    if written < length then
      .next csid :: cw.restEvents csid length n (written + min (length - written) cw.chunkSize)
    else
      []

def events (cw : ChunkWriter) (msg : Message) : List ChunkEvent :=
  .start .fmt0 msg ::
    cw.restEvents msg.csid msg.payload.length msg.payload.length
      (min msg.payload.length cw.chunkSize)

variable {msg : Message} {written : Nat} {snd : Sender}

/-- The writer stands at `written` in `msg`. -/
def StandsAt (snd : Sender) (msg : Message) (written : Nat) : Prop :=
  snd msg.csid = { last := some msg, sent := written, field := msg.timestamp }

variable (cw : ChunkWriter)

variable {k : Nat} {msgs : List Message} {events' : List ChunkEvent}

theorem send_next (hat : StandsAt snd msg written) (hlt : written < msg.payload.length)
    (hk : k = min (msg.payload.length - written) cw.chunkSize) :
    snd.send cw.chunkSize (.next msg.csid) =
      some (buildBasicHeader 3 msg.csid ++ extTimestamp msg.timestamp ++
        (msg.payload.drop written).take k,
        (update snd msg.csid
          { last := some msg, sent := written + k, field := msg.timestamp },
          if written + k = msg.payload.length then some msg else none)) := by
  have htake : (msg.payload.drop written).take cw.chunkSize = (msg.payload.drop written).take k := by
    rw [hk, ← length_drop, Nat.min_comm, ← take_take, take_length]
  have hstream : snd msg.csid = { last := some msg, sent := written, field := msg.timestamp } := hat
  simp only [send, hstream, if_pos hlt, advance, ← hk, chunkBytes, messageHeader, nil_append, append_assoc, htake]
  rfl

/-- The continuation chunks are `writeRest`. -/
theorem run_restEvents (n : Nat) (hat : StandsAt snd msg written)
    (hfuel : msg.payload.length - written ≤ n) (hle : written ≤ msg.payload.length) :
    ∃ snd', snd.run cw.chunkSize (cw.restEvents msg.csid msg.payload.length n written) =
        some ((cw.writeRest msg.csid msg.timestamp msg.payload n written).flatten,
          (snd', if written < msg.payload.length then [msg] else [])) ∧
      (snd.SupportsRun cw.chunkSize (cw.restEvents msg.csid msg.payload.length n written) ↔
        msg.timestamp < 0xFFFFFF ∨ msg.payload.length ≤ written) ∧
      StandsAt snd' msg msg.payload.length ∧ ∀ csid, csid ≠ msg.csid → snd' csid = snd csid := by
  induction n generalizing snd written with
  | zero =>
    obtain rfl : written = msg.payload.length := by omega
    refine ⟨snd, ?_, ?_, hat, fun _ _ => rfl⟩
    · simp [restEvents, run, writeRest]
    · simp [restEvents, Sender.SupportsRun]
  | succ n ih =>
    by_cases hlt : written < msg.payload.length
    · have hpos := cw.chunkSize_pos
      -- `k` bytes go out with this chunk; `snd1` is the sender behind it
      obtain ⟨k, hk⟩ : ∃ k, k = min (msg.payload.length - written) cw.chunkSize := ⟨_, rfl⟩
      obtain ⟨snd1, hsnd1⟩ : ∃ snd1 : Sender, snd1 = update snd msg.csid
          { last := some msg, sent := written + k, field := msg.timestamp } := ⟨_, rfl⟩
      have hat1 : StandsAt snd1 msg (written + k) := by
        rw [StandsAt, hsnd1, update_self]
      have hsend := send_next cw hat hlt hk
      rw [← hsnd1] at hsend
      rcases ih hat1 (by omega) (by omega) with ⟨snd', hrun, hsup, hat', hothers⟩
      refine ⟨snd', ?_, ?_, hat', ?_⟩
      · simp only [restEvents, if_pos hlt, ← hk, run, hsend, hrun, writeRest, flatten_cons]
        -- the message is completed by this chunk or by a later one, never twice
        by_cases hend : written + k = msg.payload.length
        · simp [hend]
        · have hmore : written + k < msg.payload.length := by
            omega
          simp [hend, hmore]
      · have hfield : (snd msg.csid).field = msg.timestamp := by
          rw [hat]
        rw [restEvents, if_pos hlt, ← hk, supportsRun_cons hsend, hsup, Sender.Supports, hfield]
        have hnot : ¬ msg.payload.length ≤ written := by omega
        simp only [hnot, or_false, and_iff_left_iff_imp]
        exact .inl
      · intro csid hne
        rw [hothers csid hne, hsnd1, update_of_ne hne]
    · obtain rfl : written = msg.payload.length := by
        omega
      refine ⟨snd, ?_, ?_, hat, fun _ _ => rfl⟩
      · simp [restEvents, run, writeRest]
      · simp [restEvents, Sender.SupportsRun]

theorem send_start (hmsg : msg.WellFormed) (hidle : (snd msg.csid).idle = true)
    (hk : k = min msg.payload.length cw.chunkSize) :
    snd.send cw.chunkSize (.start .fmt0 msg) =
      some (buildBasicHeader 0 msg.csid ++ timestampField msg.timestamp ++
        toBe 3 msg.payload.length ++ [msg.type] ++ toLe 4 msg.streamID.toNat ++
        extTimestamp msg.timestamp ++ msg.payload.take k,
        (update snd msg.csid { last := some msg, sent := k, field := msg.timestamp },
          if k = msg.payload.length then some msg else none)) := by
  have htake : msg.payload.take cw.chunkSize = msg.payload.take k := by
    rw [hk, Nat.min_comm, ← take_take, take_length]
  have hlegal : msg.WellFormed ∧ (snd msg.csid).idle = true ∧
      (snd msg.csid).allows .fmt0 msg = true := ⟨hmsg, hidle, rfl⟩
  simp only [send, if_pos hlegal, advance, Nat.sub_zero, Nat.zero_add, ← hk,
    Stream.fieldOf, chunkBytes, messageHeader, append_assoc, htake]
  rfl

/-- One call of `WriteMessage`, with every chunk stream idle before and after. -/
theorem run_events (hmsg : msg.WellFormed) (hidle : ∀ csid, (snd csid).idle = true) :
    ∃ snd', snd.run cw.chunkSize (cw.events msg) =
        some ((cw.writeMessage msg).flatten, (snd', [msg])) ∧
      (snd.SupportsRun cw.chunkSize (cw.events msg) ↔
        msg.timestamp < 0xFFFFFF ∨ msg.payload.length ≤ cw.chunkSize) ∧ ∀ csid, (snd' csid).idle = true := by
  have hpos : 0 < msg.payload.length := length_pos_iff.2 hmsg.1
  obtain ⟨k, hk⟩ : ∃ k, k = min msg.payload.length cw.chunkSize := ⟨_, rfl⟩
  obtain ⟨snd1, hsnd1⟩ : ∃ snd1 : Sender, snd1 = update snd msg.csid
      { last := some msg, sent := k, field := msg.timestamp } := ⟨_, rfl⟩
  have hat1 : StandsAt snd1 msg k := by
    rw [StandsAt, hsnd1, update_self]
  have hsend := send_start cw hmsg (hidle msg.csid) hk
  rw [← hsnd1] at hsend
  rcases run_restEvents cw msg.payload.length hat1 (by omega) (by omega) with
    ⟨snd', hrun, hsup, hat', hothers⟩
  refine ⟨snd', ?_, ?_, ?_⟩
  · have hne : ¬ msg.payload.length = 0 := by
      omega
    have hcsid : msg.csid ≠ 0 := by
      intro hzero
      have hlow := hmsg.2.2.1
      rw [hzero] at hlow
      exact absurd hlow (by decide)
    simp only [events, ← hk, run, hsend, hrun, writeMessage, if_neg hne, if_neg hcsid, flatten_cons]
    -- no continuation follows when the first chunk takes the whole payload
    by_cases hend : k = msg.payload.length
    · simp [hend]
    · have hmore : k < msg.payload.length := by
        omega
      simp [hend, hmore]
  · have hfits : msg.payload.length ≤ k ↔ msg.payload.length ≤ cw.chunkSize := by
      omega
    rw [events, ← hk, supportsRun_cons hsend, hsup, hfits]
    simp [Sender.Supports]
  · intro csid
    by_cases heq : csid = msg.csid
    · rw [heq, hat']
      simp [Stream.idle]
    · rw [hothers csid heq, hsnd1, update_of_ne heq]
      exact hidle csid

theorem run_flatMap_events (hmsgs : ∀ msg ∈ msgs, msg.WellFormed) (hidle : ∀ csid, (snd csid).idle = true) :
    ∃ snd', snd.run cw.chunkSize (msgs.flatMap cw.events) =
        some (cw.writeMessages msgs, (snd', msgs)) ∧
      (snd.SupportsRun cw.chunkSize (msgs.flatMap cw.events) ↔
        ∀ msg ∈ msgs, msg.timestamp < 0xFFFFFF ∨ msg.payload.length ≤ cw.chunkSize) ∧
      ∀ csid, (snd' csid).idle = true := by
  induction msgs generalizing snd with
  | nil => exact ⟨snd, rfl, by simp [Sender.SupportsRun], hidle⟩
  | cons msg rest ih =>
    rw [forall_mem_cons] at hmsgs
    rcases run_events cw hmsgs.1 hidle with ⟨snd1, hrun1, hsup1, hidle1⟩
    rcases ih hmsgs.2 hidle1 with ⟨snd2, hrun2, hsup2, hidle2⟩
    refine ⟨snd2, run_append hrun1 hrun2, ?_, hidle2⟩
    rw [flatMap_cons, supportsRun_append hrun1, hsup1, hsup2, forall_mem_cons]

/-- Another encoder writes the message as the writer does, and without an extended timestamp. -/
structure Encodes (enc : Message → Bytes) (msg : Message) : Prop where
  wellFormed : msg.WellFormed
  early : msg.timestamp < 0xFFFFFF
  bytes : (cw.writeMessage msg).flatten = enc msg

/-- The reader returns such messages, and goes on in states that do not depend on what is to come. -/
theorem readAll_encodes {enc : Message → Bytes} (h : ∀ msg ∈ msgs, cw.Encodes enc msg) :
    ∃ states, ∀ rest, ∃ cr : ChunkReader, cr.chunkSize = cw.chunkSize ∧ cr.states = states ∧ cr.input = rest ∧
      ((newChunkReader (msgs.flatMap enc ++ rest)).setChunkSize cw.chunkSize).readAll =
        (msgs ++ cr.readAll.1, cr.readAll.2) := by
  have hbytes : cw.writeMessages msgs = msgs.flatMap enc := flatMap_congr fun msg hmem => (h msg hmem).bytes
  rcases @run_flatMap_events init cw msgs (fun msg hmem => (h msg hmem).wellFormed) fun _ => rfl with
    ⟨snd, hrun, hsup, _⟩
  rw [hbytes] at hrun
  rcases readAll_run (init_trackedBy (fun _ => {})) hrun (hsup.2 fun msg hmem => .inl (h msg hmem).early) with
    ⟨states, _, hreads⟩
  refine ⟨states, fun rest => ?_⟩
  obtain ⟨hcrSize, hcrInput⟩ := chunkSize_setChunkSize (msgs.flatMap enc ++ rest) cw.chunkSize_pos
  have hcrStates (csid : UInt32) :
      ((newChunkReader (msgs.flatMap enc ++ rest)).setChunkSize cw.chunkSize).states csid = {} := by
    rw [states_setChunkSize]
    rfl
  rcases hreads _ rest hcrSize (fun e _ => hcrStates e.csid) hcrInput with ⟨cr, hsize, hinput, hstates, _, hread⟩
  exact ⟨cr, hsize, funext fun csid => hstates csid (hcrStates csid), hinput, hread⟩

/-! ## Schedules with the headers of the writer's -/

theorem restEvents_sameHeader {csid : UInt32} {length n written : Nat}
    (h : Forall₂ ChunkEvent.SameHeader (cw.restEvents csid length n written) events') :
    events' = cw.restEvents csid length n written := by
  induction n generalizing written events' with
  | zero =>
    cases h
    rfl
  | succ n ih =>
    rw [restEvents] at h ⊢
    split at h
    · cases h with
      | cons he hrest =>
        cases he
        rw [ih hrest]
        simp [*]
    · cases h
      simp [*]

theorem events_sameHeader (h : Forall₂ ChunkEvent.SameHeader (cw.events msg) events') :
    ∃ msg', msg.SameHeader msg' ∧ events' = cw.events msg' := by
  cases h with
  | cons he hrest =>
    cases he with
    | start _ hmsg =>
      refine ⟨_, hmsg, ?_⟩
      rw [cw.restEvents_sameHeader hrest, events, hmsg.csid, hmsg.length]

/-- Such a schedule is the writer's for other payloads. -/
theorem flatMap_events_sameHeader (h : Forall₂ ChunkEvent.SameHeader (msgs.flatMap cw.events) events') :
    ∃ msgs', Forall₂ Message.SameHeader msgs msgs' ∧ events' = msgs'.flatMap cw.events := by
  induction msgs generalizing events' with
  | nil =>
    cases h
    exact ⟨[], .nil, rfl⟩
  | cons msg rest ih =>
    have hfront := forall₂_take (cw.events msg).length h
    have hback := forall₂_drop (cw.events msg).length h
    rw [flatMap_cons, take_left] at hfront
    rw [flatMap_cons, drop_left] at hback
    rcases cw.events_sameHeader hfront with ⟨msg', hmsg, hfront'⟩
    rcases ih hback with ⟨rest', hrest, hback'⟩
    refine ⟨msg' :: rest', .cons hmsg hrest, ?_⟩
    rw [flatMap_cons, ← hfront', ← hback', take_append_drop]

end ChunkWriter

/-! ## Round trip -/

/-- What a relation carries over holds of all elements of a related list. -/
theorem forall_mem_of_forall₂ {α : Type} {R : α → α → Prop} {p : α → Prop} (hp : ∀ a b, R a b → p a → p b)
    {xs ys : List α} (h : Forall₂ R xs ys) (hall : ∀ x ∈ xs, p x) : ∀ y ∈ ys, p y := by
  induction h with
  | nil => exact fun _ hmem => (not_mem_nil hmem).elim
  | cons hxy _ ih =>
    rw [forall_mem_cons] at hall ⊢
    exact ⟨hp _ _ hxy hall.1, ih hall.2⟩

theorem exists_first_not {α : Type} {p : α → Prop} {xs : List α} (h : ¬ ∀ x ∈ xs, p x) :
    ∃ before x after, xs = before ++ x :: after ∧ (∀ y ∈ before, p y) ∧ ¬ p x := by
  classical
  have hsome : (xs.find? fun x => ¬ p x).isSome := by simpa using h
  obtain ⟨x, hx⟩ := Option.isSome_iff_exists.1 hsome
  obtain ⟨hnot, before, after, hsplit, hbefore⟩ := find?_eq_some_iff_append.1 hx
  exact ⟨before, x, after, hsplit, by simpa using hbefore, by simpa using hnot⟩

/-- What the writer wrote, message after message, is what the reader returns, message after message,
whatever the payloads hold, exactly when every message with an extended timestamp fits into one
chunk. -/
theorem readAll_writeMessage_iff (size : Nat) (hsize : 0 < size) (msgs : List Message)
    (hmsgs : ∀ msg ∈ msgs, msg.WellFormed) :
    (∀ msgs', List.Forall₂ Message.SameHeader msgs msgs' →
        ((newChunkReader ((newChunkWriter.setChunkSize size).writeMessages msgs')).setChunkSize
          size).readAll = (msgs', .readBasicHeader .eof)) ↔
      ∀ msg ∈ msgs, msg.timestamp < 0xFFFFFF ∨ msg.payload.length ≤ size := by
  obtain ⟨cw, hcw⟩ : ∃ cw, newChunkWriter.setChunkSize size = cw := ⟨_, rfl⟩
  obtain rfl : cw.chunkSize = size := by
    rw [← hcw]
    simp [ChunkWriter.setChunkSize, hsize]
  rw [hcw]
  have hidle : ∀ csid, (init csid).idle = true := fun _ => rfl
  rcases cw.run_flatMap_events hmsgs hidle with ⟨snd, hrun, hsup, hidle'⟩
  constructor
  · intro hall
    by_contra hcond
    rw [← hsup] at hcond
    rcases exists_not_read hsize hrun (fun e _ => hidle' e.csid) hcond with
      ⟨events', bytes', snd', msgs1, hsame, hrun', hread⟩
    rcases cw.flatMap_events_sameHeader hsame with ⟨msgs', hmsgs', rfl⟩
    have hwell := forall_mem_of_forall₂ (p := Message.WellFormed) (fun _ _ h => h.wellFormed) hmsgs' hmsgs
    -- the schedule that is not read as sent is the writer's for `msgs'`
    rcases cw.run_flatMap_events hwell hidle with ⟨snd1, hrun1, _, _⟩
    rw [hrun1] at hrun'
    cases hrun'
    exact hread (hall _ hmsgs')
  · intro hcond msgs' hmsgs'
    have hwell := forall_mem_of_forall₂ (p := Message.WellFormed) (fun _ _ h => h.wellFormed) hmsgs' hmsgs
    have hcond' : ∀ msg ∈ msgs', msg.timestamp < 0xFFFFFF ∨ msg.payload.length ≤ cw.chunkSize := by
      refine forall_mem_of_forall₂ ?_ hmsgs' hcond
      intro a b h ha
      rw [h.timestamp, h.length]
      exact ha
    rcases cw.run_flatMap_events hwell hidle with ⟨snd1, hrun1, hsup1, _⟩
    exact readAll_of_supportsRun hsize hrun1 (hsup1.2 hcond')

/-- A three-chunk message and one with an extended timestamp. -/
theorem readAll_writeMessage_two :
    ((newChunkReader ((newChunkWriter.setChunkSize 2).writeMessages
        [⟨9, 1, 6, 40, [1, 2, 3, 4, 5]⟩, ⟨8, 1, 70, 0xFFFFFFFF, [6]⟩])).setChunkSize 2).readAll =
      ([⟨9, 1, 6, 40, [1, 2, 3, 4, 5]⟩, ⟨8, 1, 70, 0xFFFFFFFF, [6]⟩], .readBasicHeader .eof) :=
  (readAll_writeMessage_iff 2 (by decide)
    [⟨9, 1, 6, 40, [1, 2, 3, 4, 5]⟩, ⟨8, 1, 70, 0xFFFFFFFF, [6]⟩] (by decide)).2 (by decide) _
      (forall₂_same.2 fun msg _ => .refl msg)

/-- A message with timestamp `0xFFFFFF` and one byte more than a chunk: the reader takes the repeated
extended timestamp for data. -/
theorem extended_timestamp_breaks_message :
    ((newChunkReader (newChunkWriter.writeMessage
        ⟨9, 1, 6, 0xFFFFFF, List.replicate 129 7⟩).flatten)).readAll =
      ([⟨9, 1, 6, 0xFFFFFF, List.replicate 128 7 ++ [0]⟩], .noPreviousHeader 3) := by
  decide +kernel

end LingVoice.Rtmp

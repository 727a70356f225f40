import LingVoice.Rtmp.ChunkStream

/-!
# ChunkSchedule — schedules of a legal sender, compared and taken apart

Whether a schedule is legal is a matter of its headers and lengths: payloads may be exchanged for others
of the same length (`SameHeader`, `run_sameHeader`), and chunk streams do not know of each other
(`run_update`).
-/

namespace LingVoice.Rtmp

open Lib List Function

/-! ## The same headers -/

/-- Messages that differ in the contents of their payloads only. -/
structure Message.SameHeader (a b : Message) : Prop where
  type : b.type = a.type
  streamID : b.streamID = a.streamID
  csid : b.csid = a.csid
  timestamp : b.timestamp = a.timestamp
  length : b.payload.length = a.payload.length

namespace Message.SameHeader

variable {a b : Message}

theorem refl (a : Message) : a.SameHeader a :=
  ⟨rfl, rfl, rfl, rfl, rfl⟩

theorem wellFormed (h : a.SameHeader b) (ha : a.WellFormed) : b.WellFormed := by
  rcases ha with ⟨hne, hlong, hlow, hhigh⟩
  refine ⟨?_, ?_, ?_, ?_⟩
  · rw [← length_pos_iff, h.length]
    exact length_pos_iff.2 hne
  · rw [h.length]
    exact hlong
  · rw [h.csid]
    exact hlow
  · rw [h.csid]
    exact hhigh

end Message.SameHeader

inductive ChunkEvent.SameHeader : ChunkEvent → ChunkEvent → Prop
  | start (fmt : Fmt) {a b : Message} (h : a.SameHeader b) : SameHeader (.start fmt a) (.start fmt b)
  | next (csid : UInt32) : SameHeader (.next csid) (.next csid)

theorem ChunkEvent.SameHeader.refl (e : ChunkEvent) : e.SameHeader e := by
  cases e with
  | start fmt msg => exact .start fmt (.refl msg)
  | next csid => exact .next csid

namespace Stream

/-- The same message headers were sent, up to the same point. -/
structure SameHeader (s s' : Stream) : Prop where
  sent : s'.sent = s.sent
  field : s'.field = s.field
  last : Option.Rel Message.SameHeader s.last s'.last

/-- What is still to be sent is the same. -/
def SameTail (s s' : Stream) : Prop :=
  ∀ msg msg', s.last = some msg → s'.last = some msg' →
    msg'.payload.drop s.sent = msg.payload.drop s.sent

variable {s s' : Stream} {a b : Message}

theorem SameHeader.refl (s : Stream) : s.SameHeader s := by
  refine ⟨rfl, rfl, ?_⟩
  cases s.last with
  | none => exact .none
  | some msg => exact .some (.refl msg)

theorem SameTail.refl (s : Stream) : s.SameTail s := by
  intro msg msg' h h'
  rw [h] at h'
  cases h'
  rfl

theorem SameHeader.last_eq (h : s.SameHeader s') :
    (s.last = none ∧ s'.last = none) ∨ ∃ msg msg', s.last = some msg ∧ s'.last = some msg' ∧ msg.SameHeader msg' := by
  rcases s with ⟨last, sent, field⟩
  rcases s' with ⟨last', sent', field'⟩
  rcases h with ⟨_, _, hlast⟩
  cases hlast with
  | none => exact .inl ⟨rfl, rfl⟩
  | some hmsg => exact .inr ⟨_, _, rfl, rfl, hmsg⟩

theorem SameHeader.idle (h : s.SameHeader s') : s'.idle = s.idle := by
  unfold Stream.idle
  rcases h.last_eq with ⟨hs, hs'⟩ | ⟨msg, msg', hs, hs', hmsg⟩
  · rw [hs, hs']
  · simp only [hs, hs', h.sent, hmsg.length]

/-- Whether a message may start, and with which field, is a matter of the headers. -/
theorem SameHeader.start (h : s.SameHeader s') (hmsg : a.SameHeader b) (fmt : Fmt) :
    s'.allows fmt b = s.allows fmt a ∧ s'.fieldOf fmt b = s.fieldOf fmt a := by
  unfold Stream.allows Stream.fieldOf
  rcases h.last_eq with ⟨hs, hs'⟩ | ⟨prev, prev', hs, hs', hprev⟩
  · rw [hs, hs']
    cases fmt with
    | fmt0 => simp [hmsg.timestamp]
    | fmt1 | fmt2 => simp
    | fmt3 => simp [h.field]
  · have hstream : sameStream prev' b = sameStream prev a := by
      simp only [sameStream, hprev.streamID, hmsg.streamID, hprev.timestamp, hmsg.timestamp]
    have hshape : sameShape prev' b = sameShape prev a := by
      simp only [sameShape, hprev.type, hmsg.type, hprev.length, hmsg.length]
    rw [hs, hs']
    cases fmt with
    | fmt0 => simp [hmsg.timestamp]
    | fmt1 => simp [hstream, hmsg.timestamp, hprev.timestamp]
    | fmt2 => simp [hstream, hshape, hmsg.timestamp, hprev.timestamp]
    | fmt3 => simp [hstream, hshape, hmsg.timestamp, hprev.timestamp, h.field]

end Stream

/-- Families that are related point by point stay so when related values are put in. -/
theorem forall_update_update {ι α β : Type} [DecidableEq ι] {r : α → β → Prop} {f : ι → α} {g : ι → β}
    (h : ∀ i, r (f i) (g i)) {x : α} {y : β} (j : ι) (hxy : r x y) (i : ι) :
    r (update f j x i) (update g j y i) := by
  by_cases hi : i = j
  · rw [hi, update_self, update_self]
    exact hxy
  · rw [update_of_ne hi, update_of_ne hi]
    exact h i

namespace Sender

variable {size : Nat} {snd snd1 snd2 snd' : Sender} {e e' : ChunkEvent} {bytes bytes1 bytes2 : Bytes}
  {out : Option Message} {events events' es1 es2 : List ChunkEvent} {msgs msgs1 msgs2 : List Message}

variable {msg : Message} {csid : UInt32}

/-- Both sides send a chunk of messages with the same header. -/
theorem advance_sameHeader (h : ∀ csid, (snd csid).SameHeader (snd' csid)) {msg' : Message}
    (hmsg : msg.SameHeader msg') (sent : Nat) (field : UInt32) (csid : UInt32) :
    ((snd.advance size msg sent field).1 csid).SameHeader ((snd'.advance size msg' sent field).1 csid) := by
  simp only [advance, hmsg.csid, hmsg.length]
  refine forall_update_update h msg.csid ?_ csid
  exact ⟨rfl, rfl, .some hmsg⟩

theorem advance_sameTail (h : ∀ csid, (snd csid).SameTail (snd' csid)) {msg' : Message}
    (hmsg : msg.SameHeader msg') {sent : Nat}
    (htail : msg'.payload.drop sent = msg.payload.drop sent) (field : UInt32) (csid : UInt32) :
    ((snd.advance size msg sent field).1 csid).SameTail ((snd'.advance size msg' sent field).1 csid) := by
  simp only [advance, hmsg.csid, hmsg.length]
  refine forall_update_update h msg.csid ?_ csid
  rintro _ _ ⟨⟩ ⟨⟩
  rw [← drop_drop, ← drop_drop, htail]

section

variable (h : ∀ csid, (snd csid).SameHeader (snd' csid))

include h

theorem supports_sameHeader (he : e.SameHeader e') (hsup : snd.Supports e) : snd'.Supports e' := by
  cases he with
  | start fmt hmsg => exact hsup
  | next csid =>
    rw [Supports, (h csid).field]
    exact hsup

/-- A chunk is legal by its header; its bytes are the same when the payload is. -/
theorem send_sameHeader (he : e.SameHeader e') (hsend : snd.send size e = some (bytes, (snd1, out))) :
    ∃ bytes' snd1' out', snd'.send size e' = some (bytes', (snd1', out')) ∧
      (∀ csid, (snd1 csid).SameHeader (snd1' csid)) ∧
      (e' = e → (∀ csid, (snd csid).SameTail (snd' csid)) →
        bytes' = bytes ∧ ∀ csid, (snd1 csid).SameTail (snd1' csid)) := by
  cases he with
  | @start fmt a b hmsg =>
    rcases send_start hsend with ⟨⟨ha, hidle, hallows⟩, rfl, hadv⟩
    cases hadv
    have hstream := h a.csid
    rcases hstream.start hmsg fmt with ⟨hallows', hfield⟩
    have hlegal : b.WellFormed ∧ (snd' b.csid).idle = true ∧
        (snd' b.csid).allows fmt b = true := by
      rw [hmsg.csid, hstream.idle, hallows']
      exact ⟨hmsg.wellFormed ha, hidle, hallows⟩
    have hsend' : snd'.send size (.start fmt b) =
        some (chunkBytes fmt ((snd a.csid).fieldOf fmt a) b (b.payload.take size),
          snd'.advance size b 0 ((snd a.csid).fieldOf fmt a)) := by
      rw [send, if_pos hlegal, hmsg.csid, hfield]
    refine ⟨_, _, _, hsend', advance_sameHeader h hmsg 0 _, ?_⟩
    rintro ⟨⟩ htail
    exact ⟨rfl, advance_sameTail htail hmsg rfl _⟩
  | next csid =>
    rcases send_next hsend with ⟨msg, hlast, hlt, rfl, hadv⟩
    cases hadv
    have hstream := h csid
    rcases hstream.last_eq with ⟨hs, _⟩ | ⟨prev, msg', hs, hlast', hmsg⟩
    · rw [hs] at hlast
      cases hlast
    · obtain rfl : prev = msg := Option.some.inj (hs.symm.trans hlast)
      have hsend' : snd'.send size (.next csid) =
          some (chunkBytes .fmt3 (snd csid).field msg' ((msg'.payload.drop (snd csid).sent).take size),
            snd'.advance size msg' (snd csid).sent (snd csid).field) := by
        simp only [send, hlast', hstream.sent, hstream.field, hmsg.length, if_pos hlt]
      refine ⟨_, _, _, hsend', advance_sameHeader h hmsg _ _, ?_⟩
      intro _ htail
      have hrest := htail csid prev msg' hs hlast'
      refine ⟨?_, advance_sameTail htail hmsg hrest _⟩
      rw [chunkBytes, chunkBytes, hmsg.csid, hrest]
      rfl

/-- The same for whole schedules. -/
theorem run_sameHeader (he : List.Forall₂ ChunkEvent.SameHeader events events')
    (hrun : snd.run size events = some (bytes, (snd1, msgs))) :
    ∃ bytes' snd1' msgs', snd'.run size events' = some (bytes', (snd1', msgs')) ∧
      (∀ csid, (snd1 csid).SameHeader (snd1' csid)) ∧
      (snd.SupportsRun size events → snd'.SupportsRun size events') ∧
      (events' = events → (∀ csid, (snd csid).SameTail (snd' csid)) → bytes' = bytes) := by
  induction he generalizing snd snd' bytes msgs with
  | nil =>
    cases hrun
    exact ⟨[], snd', [], rfl, h, fun _ => trivial, fun _ _ => rfl⟩
  | @cons e e' es es' he _ ih =>
    rcases run_cons hrun with ⟨bytes1, snd2, out, bytes2, msgs2, hsend, hrest, rfl, rfl⟩
    rcases send_sameHeader h he hsend with ⟨bytes1', snd2', out', hsend', h2, hsame⟩
    rcases ih h2 hrest with ⟨bytes2', snd1', msgs2', hrest', h1, hsup, hsame2⟩
    refine ⟨bytes1' ++ bytes2', snd1', out'.toList ++ msgs2', ?_, h1, ?_, ?_⟩
    · simp only [run, hsend', hrest']
    · rw [supportsRun_cons hsend, supportsRun_cons hsend']
      intro hall
      exact ⟨supports_sameHeader h he hall.1, hsup hall.2⟩
    · rintro ⟨⟩ htail
      rcases hsame rfl htail with ⟨rfl, htail2⟩
      rw [hsame2 rfl htail2]

end

/-! ## Schedules one after the other -/

theorem run_append (h1 : snd.run size es1 = some (bytes1, (snd1, msgs1)))
    (h2 : snd1.run size es2 = some (bytes2, (snd2, msgs2))) :
    snd.run size (es1 ++ es2) = some (bytes1 ++ bytes2, (snd2, msgs1 ++ msgs2)) := by
  induction es1 generalizing snd bytes1 msgs1 with
  | nil =>
    cases h1
    exact h2
  | cons e es ih =>
    rcases run_cons h1 with ⟨bytes, snd', out, rest, msgs, hsend, htail, rfl, rfl⟩
    simp only [cons_append, run, hsend, ih htail, append_assoc]

/-- A schedule may be cut anywhere. -/
theorem exists_run_of_append (h : snd.run size (es1 ++ es2) = some (bytes, (snd2, msgs))) :
    ∃ bytes1 snd1 msgs1 bytes2 msgs2, snd.run size es1 = some (bytes1, (snd1, msgs1)) ∧
      snd1.run size es2 = some (bytes2, (snd2, msgs2)) ∧ bytes = bytes1 ++ bytes2 ∧ msgs = msgs1 ++ msgs2 := by
  induction es1 generalizing snd bytes msgs with
  | nil => exact ⟨[], snd, [], bytes, msgs, rfl, h, rfl, rfl⟩
  | cons e es ih =>
    rcases run_cons h with ⟨bytes0, snd0, out, rest, msgs0, hsend, htail, rfl, rfl⟩
    rcases ih htail with ⟨bytes1, snd1, msgs1, bytes2, msgs2, h1, h2, rfl, rfl⟩
    refine ⟨bytes0 ++ bytes1, snd1, out.toList ++ msgs1, bytes2, msgs2, ?_, h2, ?_, ?_⟩
    · simp only [run, hsend, h1]
    · rw [append_assoc]
    · rw [append_assoc]

theorem supportsRun_append (h : snd.run size es1 = some (bytes1, (snd1, msgs1))) :
    snd.SupportsRun size (es1 ++ es2) ↔ snd.SupportsRun size es1 ∧ snd1.SupportsRun size es2 := by
  induction es1 generalizing snd bytes1 msgs1 with
  | nil =>
    cases h
    simp [SupportsRun]
  | cons e es ih =>
    rcases run_cons h with ⟨bytes, snd', out, rest, msgs, hsend, htail, rfl, rfl⟩
    rw [cons_append, supportsRun_cons hsend, supportsRun_cons hsend, ih htail, and_assoc]

/-! ## One chunk stream among the others -/

/-- The messages of a chunk stream carry its id. -/
def Labelled (snd : Sender) : Prop :=
  ∀ csid msg, (snd csid).last = some msg → msg.csid = csid

/-- What a chunk does to the sender: it advances a message of the chunk's own stream. -/
theorem send_advance (h : snd.Labelled) (hsend : snd.send size e = some (bytes, (snd1, out))) :
    ∃ msg sent field, msg.csid = e.csid ∧ (snd1, out) = snd.advance size msg sent field := by
  cases e with
  | start fmt msg =>
    rcases send_start hsend with ⟨_, _, hadv⟩
    exact ⟨msg, 0, _, rfl, hadv⟩
  | next csid =>
    rcases send_next hsend with ⟨msg, hlast, _, _, hadv⟩
    exact ⟨msg, _, _, h csid msg hlast, hadv⟩

theorem send_local (h : snd.Labelled) (hsend : snd.send size e = some (bytes, (snd1, out))) :
    snd1.Labelled ∧ (∀ csid, csid ≠ e.csid → snd1 csid = snd csid) ∧ ∀ msg, out = some msg → msg.csid = e.csid := by
  rcases send_advance h hsend with ⟨msg, sent, field, hcsid, hadv⟩
  cases hadv
  rw [← hcsid]
  refine ⟨?_, fun csid hne => update_of_ne hne _ _, ?_⟩
  · intro csid msg' hlast
    by_cases heq : csid = msg.csid
    · rw [heq, update_self] at hlast
      rw [heq, ← Option.some.inj hlast]
    · rw [update_of_ne heq] at hlast
      exact h csid msg' hlast
  · intro msg' hout
    split at hout
    · rw [← Option.some.inj hout]
    · cases hout

theorem advance_update (hne : msg.csid ≠ csid) (s : Stream) (sent : Nat) (field : UInt32) :
    advance size (update snd csid s) msg sent field =
      (update (snd.advance size msg sent field).1 csid s, (snd.advance size msg sent field).2) := by
  simp only [advance]
  rw [update_comm hne]

section

variable (h : snd.Labelled)

include h

/-- A chunk of another stream is the same chunk whatever this stream is at. -/
theorem send_update (hne : e.csid ≠ csid) (s : Stream) (hsend : snd.send size e = some (bytes, (snd1, out))) :
    send size (update snd csid s) e = some (bytes, (update snd1 csid s, out)) := by
  cases e with
  | start fmt msg =>
    rcases send_start hsend with ⟨hlegal, rfl, hadv⟩
    cases hadv
    have hne' : msg.csid ≠ csid := hne
    simp only [send, update_of_ne hne', if_pos hlegal, advance_update hne']
    rfl
  | next c =>
    rcases send_next hsend with ⟨msg, hlast, hlt, rfl, hadv⟩
    cases hadv
    have hc : c ≠ csid := hne
    have hne' : msg.csid ≠ csid := by
      rw [h c msg hlast]
      exact hc
    simp only [send, update_of_ne hc, hlast, if_pos hlt, advance_update hne']
    rfl

theorem run_update (hapart : ∀ e ∈ events, e.csid ≠ csid)
    (s : Stream) (hrun : snd.run size events = some (bytes, (snd1, msgs))) :
    run size (update snd csid s) events = some (bytes, (update snd1 csid s, msgs)) := by
  induction events generalizing snd bytes msgs with
  | nil =>
    cases hrun
    rfl
  | cons e es ih =>
    rw [forall_mem_cons] at hapart
    rcases run_cons hrun with ⟨bytes1, snd2, out, bytes2, msgs2, hsend, htail, rfl, rfl⟩
    have hlabelled := (send_local h hsend).1
    simp only [run, send_update h hapart.1 s hsend, ih hlabelled hapart.2 htail]

theorem run_apart (hapart : ∀ e ∈ events, e.csid ≠ csid)
    (hrun : snd.run size events = some (bytes, (snd1, msgs))) : snd1 csid = snd csid := by
  have hrun' := run_update h hapart (snd csid) hrun
  rw [update_eq_self, hrun] at hrun'
  simp only [Option.some.injEq, Prod.mk.injEq, true_and, and_true] at hrun'
  rw [hrun', update_self]

theorem run_labelled (hrun : snd.run size events = some (bytes, (snd1, msgs))) : snd1.Labelled := by
  induction events generalizing snd bytes msgs with
  | nil =>
    cases hrun
    exact h
  | cons e es ih =>
    rcases run_cons hrun with ⟨bytes1, snd2, out, bytes2, msgs2, hsend, htail, rfl, rfl⟩
    exact ih (send_local h hsend).1 htail

/-- The first message to come from a chunk stream is the one that was open on it. -/
theorem find_of_run (hlast : (snd csid).last = some msg) (hopen : (snd csid).sent < msg.payload.length)
    (hrun : snd.run size events = some (bytes, (snd1, msgs))) (hidle : (snd1 csid).idle = true) :
    msgs.find? (fun m => m.csid == csid) = some msg := by
  have hcsid : msg.csid = csid := h csid msg hlast
  induction events generalizing snd bytes msgs with
  | nil =>
    cases hrun
    simp only [Stream.idle, hlast, beq_iff_eq] at hidle
    omega
  | cons e es ih =>
    rcases run_cons hrun with ⟨bytes1, snd2, out, bytes2, msgs2, hsend, htail, rfl, rfl⟩
    rcases send_local h hsend with ⟨hlabelled, hothers, hout⟩
    by_cases he : e.csid = csid
    · cases e with
      | start fmt a =>
        -- a message cannot start while another is open
        rcases send_start hsend with ⟨⟨_, hstart, _⟩, _, _⟩
        simp only [ChunkEvent.csid] at he
        simp only [he, Stream.idle, hlast, beq_iff_eq] at hstart
        omega
      | next c =>
        subst he
        rcases send_next hsend with ⟨prev, hprev, _, _, hadv⟩
        obtain rfl : prev = msg := Option.some.inj (hprev.symm.trans hlast)
        cases hadv
        by_cases hend : (snd c).sent + min (prev.payload.length - (snd c).sent) size =
            prev.payload.length
        · simp [hend, hcsid]
        · simp only [if_neg hend, Option.toList_none, nil_append]
          refine ih hlabelled ?_ ?_ htail
          · rw [hcsid, update_self]
          · have hmore : (snd c).sent + min (prev.payload.length - (snd c).sent) size <
                prev.payload.length := by
              omega
            rw [hcsid, update_self]
            exact hmore
    · have hstream : snd2 csid = snd csid := hothers csid (Ne.symm he)
      have hrest := ih hlabelled (by rw [hstream]; exact hlast) (by rw [hstream]; exact hopen) htail
      cases out with
      | none => exact hrest
      | some m =>
        have hm : (m.csid == csid) = false := by
          rw [hout m rfl]
          exact beq_eq_false_iff_ne.2 he
        simp [hm, hrest]

end

theorem init_labelled : init.Labelled := by
  intro csid msg hlast
  cases hlast

/-! ## The first chunk the reader cannot follow -/

theorem exists_unsupported (hrun : snd.run size events = some (bytes, (snd', msgs)))
    (h : ¬ snd.SupportsRun size events) :
    ∃ pre e post bytes1 snd1 msgs1, events = pre ++ e :: post ∧
      snd.run size pre = some (bytes1, (snd1, msgs1)) ∧ snd.SupportsRun size pre ∧ ¬ snd1.Supports e := by
  induction events generalizing snd bytes msgs with
  | nil => exact absurd trivial h
  | cons e es ih =>
    rcases run_cons hrun with ⟨bytes1, snd1, out, bytes2, msgs2, hsend, htail, rfl, rfl⟩
    rw [supportsRun_cons hsend] at h
    by_cases hsup : snd.Supports e
    · rcases ih htail (fun hrest => h ⟨hsup, hrest⟩) with
        ⟨pre, e', post, bytes3, snd3, msgs3, rfl, hpre, hpreSup, he'⟩
      refine ⟨e :: pre, e', post, bytes1 ++ bytes3, snd3, out.toList ++ msgs3, rfl, ?_, ?_, he'⟩
      · simp only [run, hsend, hpre]
      · rw [supportsRun_cons hsend]
        exact ⟨hsup, hpreSup⟩
    · exact ⟨[], e, es, [], snd, [], rfl, rfl, trivial, hsup⟩

/-- The last message on a chunk stream whose field is extended: all the supported chunks of the
stream since then are its first one. -/
theorem exists_start (h : snd.Labelled) (hrun : snd.run size events = some (bytes, (snd', msgs)))
    (hsup : snd.SupportsRun size events)
    (hlast : (snd' csid).last = some msg) (hext : ¬ (snd' csid).field < 0xFFFFFF) :
    ((∀ e ∈ events, e.csid ≠ csid) ∧ snd' csid = snd csid) ∨
      ∃ pre fmt mid, events = pre ++ .start fmt msg :: mid ∧ msg.csid = csid ∧ ∀ e ∈ mid, e.csid ≠ csid := by
  induction events generalizing snd bytes msgs with
  | nil =>
    cases hrun
    exact .inl ⟨by simp, rfl⟩
  | cons e es ih =>
    rcases run_cons hrun with ⟨bytes1, snd1, out, bytes2, msgs2, hsend, htail, rfl, rfl⟩
    rw [supportsRun_cons hsend] at hsup
    rcases send_local h hsend with ⟨hlabelled, hothers, _⟩
    rcases ih hlabelled htail hsup.2 with ⟨hapart, hkept⟩ | ⟨pre, fmt, mid, rfl, hcsid, hapart⟩
    · by_cases he : e.csid = csid
      · cases e with
        | start fmt a =>
          rcases send_start hsend with ⟨_, _, hadv⟩
          cases hadv
          simp only [ChunkEvent.csid] at he
          subst he
          rw [hkept, update_self] at hlast
          obtain rfl : a = msg := Option.some.inj hlast
          exact .inr ⟨[], fmt, es, rfl, rfl, hapart⟩
        | next c =>
          -- a continuation has the field of its message
          rcases send_next hsend with ⟨a, ha, _, _, hadv⟩
          cases hadv
          simp only [ChunkEvent.csid] at he
          subst he
          rw [hkept, h c a ha, update_self] at hext
          exact absurd hsup.1 hext
      · refine .inl ⟨?_, ?_⟩
        · rw [forall_mem_cons]
          exact ⟨he, hapart⟩
        · rw [hkept, hothers csid (Ne.symm he)]
    · exact .inr ⟨e :: pre, fmt, mid, rfl, hcsid, hapart⟩

end Sender

end LingVoice.Rtmp

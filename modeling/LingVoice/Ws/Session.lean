import LingVoice.Lib.Field
import LingVoice.Lib.Mealy

/-!
# Session — the sequence numbers of WebSocket media (`pkg/protocol/ws/session.go`)

`SendMediaFrame` takes its number before it takes the mutex.  So the numbers are on the wire in their order exactly
when the calls take the mutex in the order in which they took their numbers.
-/

namespace LingVoice.Ws

open Lib List

structure MediaFrame where
  type : UInt8
  codec : UInt8
  sequence : UInt16
  timestamp : UInt32
  payload : Bytes
  deriving DecidableEq, Repr

def frameHeaderLen : Nat := 8

def encodeFrame (frame : MediaFrame) : Bytes :=
  [frame.type, frame.codec] ++ be16 frame.sequence ++ be32 frame.timestamp ++ frame.payload

def decodeFrame (data : Bytes) : Option MediaFrame :=
  if data.length < frameHeaderLen then none
  else some ⟨byteAt data 0, byteAt data 1, u16At data 2, u32At data 4, data.drop frameHeaderLen⟩

/-- A call that has its number: the how manieth it was, and what it is going to write. -/
structure Call where
  number : Nat
  data : Bytes

structure Session where
  sendSeq : UInt32 := 0
  /-- The calls that have a number, and how many there were in all. -/
  waiting : List Call := []
  started : Nat := 0
  locked : Bool := false
  /-- The call that has the mutex, until it has written. -/
  writer : Option Call := none
  conn : List Bytes := []

inductive Action
  | increment (frame : MediaFrame)
  | lock (call : Nat)
  | write
  | unlock

namespace Session

variable (s : Session)

def step : Action → Session
  | .increment frame =>
    let sendSeq := s.sendSeq + 1
    { s with
      sendSeq := sendSeq
      started := s.started + 1
      waiting := s.waiting ++ [⟨s.started + 1, encodeFrame { frame with sequence := sendSeq.toUInt16 }⟩] }
  | .lock call =>
    if s.locked ∨ s.waiting.length ≤ call then s
    else { s with locked := true, writer := s.waiting[call]?, waiting := s.waiting.eraseIdx call }
  | .write =>
    match s.writer with
    | some call => { s with writer := none, conn := s.conn ++ [call.data] }
    | none => s
  | .unlock => if s.writer.isNone then { s with locked := false } else s

def sequences : List (Option UInt16) :=
  s.conn.map fun data => (decodeFrame data).map (·.sequence)

def InOrder : Prop :=
  s.sequences = (range s.conn.length).map fun k => some (UInt16.ofNat (k + 1))

/-- The call that writes is the next one, up to multiples of 65536. -/
def InTurn : Action → Prop
  | .write => ∀ call ∈ s.writer, call.number % 65536 = (s.conn.length + 1) % 65536
  | _ => True

variable {s}

theorem decodeFrame_encodeFrame (frame : MediaFrame) : decodeFrame (encodeFrame frame) = some frame := by
  have hlength : ¬ (encodeFrame frame).length < frameHeaderLen := by
    simp [encodeFrame, frameHeaderLen]
    omega
  have hfields : StandsAt (encodeFrame frame) 2 (be16 frame.sequence ++ be32 frame.timestamp) := ⟨frame.payload, rfl⟩
  rw [standsAt_append, length_be16] at hfields
  rw [decodeFrame, if_neg hlength, hfields.1.u16At, hfields.2.u32At]
  rfl

/-- Every call has its number in its data. -/
structure Numbered (s : Session) : Prop where
  sendSeq : s.sendSeq = UInt32.ofNat s.started
  calls : ∀ call ∈ s.waiting ++ s.writer.toList,
    (decodeFrame call.data).map (·.sequence) = some (UInt16.ofNat call.number)

theorem Numbered.step (h : Numbered s) (a : Action) : Numbered (s.step a) := by
  obtain ⟨hseq, hcalls⟩ := h
  cases a with
  | increment frame =>
    have hnext : s.sendSeq + 1 = UInt32.ofNat (s.started + 1) := by
      rw [hseq, UInt32.ofNat_add]
      rfl
    refine ⟨hnext, ?_⟩
    simp only [Session.step, mem_append, mem_singleton] at hcalls ⊢
    rintro call ((hold | rfl) | hwriter)
    · exact hcalls call (.inl hold)
    · rw [decodeFrame_encodeFrame, hnext]
      simp
    · exact hcalls call (.inr hwriter)
  | lock call =>
    simp only [Session.step]
    split
    · exact ⟨hseq, hcalls⟩
    · refine ⟨hseq, fun c hc => hcalls c (mem_append_left _ ?_)⟩
      rcases mem_append.1 hc with hc | hc
      · exact mem_of_mem_eraseIdx hc
      · exact mem_of_getElem? (Option.mem_toList.1 hc)
  | write =>
    simp only [Session.step]
    split
    · exact ⟨hseq, fun c hc => hcalls c (mem_append_left _ (by simpa using hc))⟩
    · exact ⟨hseq, hcalls⟩
  | unlock =>
    simp only [Session.step]
    split
    · exact ⟨hseq, hcalls⟩
    · exact ⟨hseq, hcalls⟩

theorem inOrder_step_iff (h : Numbered s) (horder : s.InOrder) (a : Action) : (s.step a).InOrder ↔ s.InTurn a := by
  cases a with
  | increment frame => exact iff_of_true horder trivial
  | lock call | unlock =>
    refine iff_of_true ?_ trivial
    simp only [step]
    split
    · exact horder
    · exact horder
  | write =>
    simp only [step, InTurn]
    cases hwriter : s.writer with
    | none => exact iff_of_true horder nofun
    | some call =>
      have hdata := h.calls call (by simp [hwriter])
      simp only [InOrder, sequences, map_append, map_singleton, length_append, length_singleton, range_succ] at horder ⊢
      rw [horder, append_cancel_left_eq, hdata]
      simp [← UInt16.toNat_inj]

/-- The numbers on the wire are 1, 2, 3, … exactly when every call that writes is the next one by its number. -/
theorem run_inOrder_iff (actions : List Action) :
    (∀ past, past <+: actions → (past.foldl step {}).InOrder) ↔
      ∀ past a, past ++ [a] <+: actions → (past.foldl step {}).InTurn a := by
  have hinit : Numbered {} ∧ InOrder {} := ⟨⟨rfl, by simp⟩, rfl⟩
  exact Mealy.forall_past_iff (I := fun s => Numbered s ∧ s.InOrder) hinit (fun _ h => h.2)
    (fun _ a h hturn => ⟨h.1.step a, (inOrder_step_iff h.1 h.2 a).2 hturn⟩)
    (fun _ a h => (inOrder_step_iff h.1 h.2 a).1) actions

/-- Of two calls, the second one takes the mutex first. -/
theorem not_inOrder_overtaken :
    ¬ ([.increment ⟨1, 1, 0, 0, []⟩, .increment ⟨1, 1, 0, 0, []⟩, .lock 1, .write].foldl step {}).InOrder := by
  unfold InOrder
  decide

end Session
end LingVoice.Ws

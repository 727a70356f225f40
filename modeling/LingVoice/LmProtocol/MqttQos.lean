import LingVoice.Lib.Mealy
import LingVoice.Lib.Table

/-!
# MqttQos — the messages that wait for an acknowledgement

`QosTracker` gives every message a packet id, keeps the ids that are not acknowledged with the time of the last
sending and the number of retries, and names the ids to send again and the ids to give up.  Ids are taken one after
the other and wrap at 16 bits; nothing looks whether the next id is still in use.

A `MessageLog` is what somebody who sees the calls and the answers knows of the messages, each one by its number.
-/

namespace LingVoice.LmProtocol

open List Lib Nat

inductive MqttQos
  | atMostOnce
  | atLeastOnce
  | exactlyOnce
  deriving DecidableEq, Repr

structure QosTracker where
  qos : MqttQos
  /-- Packet id, with the time of the last sending and the number of retries. -/
  pending : AList fun _ : UInt16 => UInt64 × UInt8
  nextPacketId : UInt16
  maxRetries : UInt8
  retryIntervalMs : UInt64

namespace QosTracker

def new (qos : MqttQos) : QosTracker where
  qos := qos
  pending := ∅
  nextPacketId := 1
  maxRetries := 5
  retryIntervalMs := 1000

/-- The id after this one: the counter wraps and skips 0. -/
def following (id : UInt16) : UInt16 :=
  if id + 1 = 0 then 1 else id + 1

def register (t : QosTracker) (timestampMs : UInt64) : QosTracker × UInt16 :=
  if t.qos = .atMostOnce then
    (t, 0)
  else
    ({ t with
        nextPacketId := following t.nextPacketId
        pending := t.pending.insert t.nextPacketId (timestampMs, 0) },
      t.nextPacketId)

def acknowledge (t : QosTracker) (packetId : UInt16) : QosTracker × Bool :=
  ({ t with pending := t.pending.erase packetId }, (t.pending.lookup packetId).isSome)

/-- The message has waited for the interval and may be sent again. -/
def due (t : QosTracker) (currentTimeMs : UInt64) (entry : UInt64 × UInt8) : Bool :=
  t.retryIntervalMs.toNat ≤ currentTimeMs.toNat - entry.1.toNat && entry.2 < t.maxRetries

def checkRetries (t : QosTracker) (currentTimeMs : UInt64) : QosTracker × List UInt16 :=
  if t.qos = .atMostOnce then
    (t, [])
  else
    ({ t with
        pending := Lib.Table.mapValues
          (fun entry => if t.due currentTimeMs entry then (currentTimeMs, entry.2 + 1) else entry) t.pending },
      (t.pending.entries.filter fun e => t.due currentTimeMs e.2).map Sigma.fst)

def cleanupExpired (t : QosTracker) : QosTracker × List UInt16 :=
  let expired := (t.pending.entries.filter fun e => t.maxRetries ≤ e.2.2).map Sigma.fst
  ({ t with pending := Lib.Table.eraseAll t.pending expired }, expired)

def pendingCount (t : QosTracker) : Nat :=
  t.pending.entries.length

end QosTracker

/-! ## Runs -/

inductive QosCall
  | register (timestampMs : UInt64)
  | acknowledge (packetId : UInt16)
  | checkRetries (currentTimeMs : UInt64)
  | cleanupExpired
  deriving DecidableEq, Repr

inductive QosAnswer
  | packetId (id : UInt16)
  | known (found : Bool)
  | packetIds (ids : List UInt16)
  deriving DecidableEq, Repr

def QosTracker.call (t : QosTracker) : QosCall → QosTracker × QosAnswer
  | .register timestampMs => ((t.register timestampMs).1, .packetId (t.register timestampMs).2)
  | .acknowledge packetId => ((t.acknowledge packetId).1, .known (t.acknowledge packetId).2)
  | .checkRetries currentTimeMs => ((t.checkRetries currentTimeMs).1, .packetIds (t.checkRetries currentTimeMs).2)
  | .cleanupExpired => (t.cleanupExpired.1, .packetIds t.cleanupExpired.2)

/-- A registered message: the how manieth it is, its id, and how often `check_retries` has named it. -/
structure QosMessage where
  number : Nat
  id : UInt16
  returned : Nat
  deriving DecidableEq, Repr

structure MessageLog where
  registered : Nat
  /-- Acknowledged or expired. -/
  settled : Nat
  waiting : List QosMessage
  deriving DecidableEq, Repr

namespace MessageLog

def empty : MessageLog where
  registered := 0
  settled := 0
  waiting := []

def settle (log : MessageLog) (ids : List UInt16) : MessageLog :=
  { log with
    settled := log.settled + (log.waiting.filter fun m => m.id ∈ ids).length
    waiting := log.waiting.filter fun m => m.id ∉ ids }

def observe (log : MessageLog) : QosCall → QosAnswer → MessageLog
  | .register _, .packetId id =>
    { log with
      registered := log.registered + 1
      waiting := { number := log.registered, id := id, returned := 0 } :: log.waiting }
  | .acknowledge id, _ => log.settle [id]
  | .checkRetries _, .packetIds ids =>
    { log with waiting := log.waiting.map fun m => { m with returned := m.returned + ids.count m.id } }
  | .cleanupExpired, .packetIds ids => log.settle ids
  | _, _ => log

end MessageLog

/-- A call to the tracker, with the log beside it. -/
def QosTracker.loggedCall (s : QosTracker × MessageLog) (c : QosCall) : (QosTracker × MessageLog) × QosAnswer :=
  (((s.1.call c).1, s.2.observe c (s.1.call c).2), (s.1.call c).2)

def QosTracker.after (qos : MqttQos) (calls : List QosCall) : QosTracker × MessageLog :=
  (Lib.Mealy.run loggedCall (new qos, .empty) calls).1

namespace QosTracker

theorem after_append (qos : MqttQos) (past : List QosCall) (c : QosCall) :
    after qos (past ++ [c]) = (loggedCall (after qos past) c).1 := by
  rw [after, Mealy.run_append]
  rfl

/-! ## Packet ids -/

def packetId (number : Nat) : UInt16 :=
  UInt16.ofNat (number % 65535 + 1)

theorem toNat_packetId (number : Nat) : (packetId number).toNat = number % 65535 + 1 := by
  apply UInt16.toNat_ofNat_of_lt
  change _ < 2 ^ 16
  omega

theorem packetId_eq_iff {m n : Nat} : packetId m = packetId n ↔ m % 65535 = n % 65535 := by
  rw [← UInt16.toNat_inj, toNat_packetId, toNat_packetId]
  omega

theorem following_packetId (number : Nat) : following (packetId number) = packetId (number + 1) := by
  have hsum : (packetId number + 1).toNat = (number % 65535 + 2) % 2 ^ 16 := by
    rw [UInt16.toNat_add, toNat_packetId]
    rfl
  have hzero : packetId number + 1 = 0 ↔ number % 65535 = 65534 := by
    rw [← UInt16.toNat_inj, hsum]
    change _ = 0 ↔ _
    omega
  rw [following, ← UInt16.toNat_inj, toNat_packetId]
  split
  · rename_i hwrap
    have := hzero.1 hwrap
    change 1 = _
    omega
  · rename_i hnext
    have := mt hzero.2 hnext
    omega

/-! ## What a call does -/

variable {s : QosTracker × MessageLog} {c : QosCall} {m : QosMessage} {qos : MqttQos} {past : List QosCall}

theorem loggedCall_register (hqos : s.1.qos ≠ .atMostOnce) (timestampMs : UInt64) :
    (loggedCall s (.register timestampMs)).1 =
      ({ s.1 with
          nextPacketId := following s.1.nextPacketId
          pending := s.1.pending.insert s.1.nextPacketId (timestampMs, 0) },
        { s.2 with
          registered := s.2.registered + 1
          waiting := { number := s.2.registered, id := s.1.nextPacketId, returned := 0 } :: s.2.waiting }) := by
  rw [loggedCall, call, register, if_neg hqos]
  rfl

theorem loggedCall_checkRetries (hqos : s.1.qos ≠ .atMostOnce) (currentTimeMs : UInt64) :
    (loggedCall s (.checkRetries currentTimeMs)).1 =
      ({ s.1 with
          pending := Table.mapValues
            (fun entry => if s.1.due currentTimeMs entry then (currentTimeMs, entry.2 + 1) else entry) s.1.pending },
        { s.2 with
          waiting := s.2.waiting.map fun m =>
            { m with
              returned := m.returned +
                ((s.1.pending.entries.filter fun e => s.1.due currentTimeMs e.2).map Sigma.fst).count m.id } }) := by
  rw [loggedCall, call, checkRetries, if_neg hqos]
  rfl

/-- `acknowledge` and `cleanup_expired` take entries away, and the log settles the ids. -/
theorem exists_settle (hc : (∃ id, c = .acknowledge id) ∨ c = .cleanupExpired) :
    ∃ pending ids, (loggedCall s c).1 = ({ s.1 with pending := pending }, s.2.settle ids) ∧
      pending.entries = s.1.pending.entries.filter fun e => e.1 ∉ ids := by
  rcases hc with ⟨id, rfl⟩ | rfl
  · refine ⟨s.1.pending.erase id, [id], rfl, ?_⟩
    rw [Table.entries_erase]
    simp only [mem_singleton, ne_eq]
  · exact ⟨_, _, rfl, Table.entries_eraseAll _ _⟩

/-! ## What holds in every run -/

/-- What the tracker and the log have in common, whatever the calls were. -/
structure Numbered (s : QosTracker × MessageLog) : Prop where
  qos : s.1.qos ≠ .atMostOnce
  maxRetries : s.1.maxRetries = 5
  next : s.1.nextPacketId = packetId s.2.registered
  waiting : ∀ m ∈ s.2.waiting, m.id = packetId m.number ∧ m.number < s.2.registered ∧ m.id ∈ s.1.pending
  accounts : s.2.settled + s.2.waiting.length = s.2.registered
  retries : ∀ e ∈ s.1.pending.entries, e.2.2.toNat ≤ 5

theorem settle_accounts (log : MessageLog) (ids : List UInt16) :
    (log.settle ids).settled + (log.settle ids).waiting.length = log.settled + log.waiting.length := by
  have hsplit := length_eq_length_filter_add (l := log.waiting) fun m => decide (m.id ∈ ids)
  simp only [← decide_not] at hsplit
  dsimp only [MessageLog.settle]
  omega

theorem mem_waiting_settle {log : MessageLog} {ids : List UInt16} :
    m ∈ (log.settle ids).waiting ↔ m ∈ log.waiting ∧ m.id ∉ ids := by
  rw [MessageLog.settle, mem_filter, decide_eq_true_iff]

theorem numbered_new (hqos : qos ≠ .atMostOnce) : Numbered (new qos, .empty) where
  qos := hqos
  maxRetries := rfl
  next := rfl
  waiting := fun _ hm => nomatch hm
  accounts := rfl
  retries := fun _ he => nomatch he

theorem Numbered.register (h : Numbered s) (timestampMs : UInt64) :
    Numbered (loggedCall s (.register timestampMs)).1 := by
  rw [loggedCall_register h.qos, h.next]
  refine ⟨h.qos, h.maxRetries, following_packetId _, ?_, ?_, ?_⟩
  · intro m hm
    rcases mem_cons.1 hm with rfl | hm
    · exact ⟨rfl, lt_succ_self _, (AList.mem_insert _).2 (.inl rfl)⟩
    · rcases h.waiting m hm with ⟨hid, hnumber, hpending⟩
      exact ⟨hid, lt_succ_of_lt hnumber, (AList.mem_insert _).2 (.inr hpending)⟩
  · have haccounts := h.accounts
    dsimp only
    rw [length_cons]
    omega
  · intro e he
    rcases mem_cons.1 he with rfl | he
    · exact zero_le 5
    · exact h.retries e ((kerase_sublist _ _).subset he)

theorem Numbered.settle (h : Numbered s)
    (hc : (∃ id, c = .acknowledge id) ∨ c = .cleanupExpired) : Numbered (loggedCall s c).1 := by
  rcases exists_settle hc with ⟨pending, ids, heq, hentries⟩
  rw [heq]
  refine ⟨h.qos, h.maxRetries, h.next, ?_, ?_, ?_⟩
  · intro m hm
    rcases mem_waiting_settle.1 hm with ⟨hm, hkept⟩
    rcases h.waiting m hm with ⟨hid, hnumber, hpending⟩
    refine ⟨hid, hnumber, ?_⟩
    rcases mem_map.1 hpending with ⟨e, he, hkey⟩
    apply mem_map.2
    refine ⟨e, ?_, hkey⟩
    rw [hentries]
    exact mem_filter.2 ⟨he, decide_eq_true (hkey ▸ hkept)⟩
  · rw [settle_accounts]
    exact h.accounts
  · intro e he
    rw [hentries] at he
    exact h.retries e (mem_filter.1 he).1

/-- The number of retries after a look at the clock. -/
def retriesAfter (t : QosTracker) (currentTimeMs : UInt64) (entry : UInt64 × UInt8) : Nat :=
  if t.due currentTimeMs entry then entry.2.toNat + 1 else entry.2.toNat

variable {t : QosTracker} {calls later : List QosCall}

theorem toNat_retries (hmax : t.maxRetries = 5) (currentTimeMs : UInt64) (entry : UInt64 × UInt8) :
    (if t.due currentTimeMs entry then (currentTimeMs, entry.2 + 1) else entry).2.toNat =
      retriesAfter t currentTimeMs entry := by
  rw [retriesAfter]
  split
  · rename_i hdue
    rw [due, hmax, Bool.and_eq_true, decide_eq_true_iff, decide_eq_true_iff] at hdue
    have hlt : entry.2.toNat < 5 := UInt8.lt_iff_toNat_lt.1 hdue.2
    change (entry.2.toNat + 1) % 256 = _
    omega
  · rfl

theorem retriesAfter_le (hmax : t.maxRetries = 5) (currentTimeMs : UInt64) {entry : UInt64 × UInt8}
    (hentry : entry.2.toNat ≤ 5) : retriesAfter t currentTimeMs entry ≤ 5 := by
  rw [retriesAfter]
  split
  · rename_i hdue
    rw [due, hmax, Bool.and_eq_true, decide_eq_true_iff, decide_eq_true_iff] at hdue
    exact UInt8.lt_iff_toNat_lt.1 hdue.2
  · exact hentry

theorem Numbered.checkRetries (h : Numbered s) (currentTimeMs : UInt64) :
    Numbered (loggedCall s (.checkRetries currentTimeMs)).1 := by
  rw [loggedCall_checkRetries h.qos]
  refine ⟨h.qos, h.maxRetries, h.next, ?_, ?_, ?_⟩
  · intro m hm
    rcases mem_map.1 hm with ⟨old, hold, rfl⟩
    rcases h.waiting old hold with ⟨hid, hnumber, hpending⟩
    exact ⟨hid, hnumber, Table.mem_mapValues.2 hpending⟩
  · dsimp only
    rw [length_map]
    exact h.accounts
  · intro e he
    rcases mem_map.1 he with ⟨old, hold, rfl⟩
    rw [toNat_retries h.maxRetries]
    exact retriesAfter_le h.maxRetries currentTimeMs (h.retries old hold)

theorem Numbered.step (h : Numbered s) (c : QosCall) : Numbered (loggedCall s c).1 := by
  cases c with
  | register timestampMs => exact h.register timestampMs
  | acknowledge id => exact h.settle (.inl ⟨id, rfl⟩)
  | checkRetries currentTimeMs => exact h.checkRetries currentTimeMs
  | cleanupExpired => exact h.settle (.inr rfl)

theorem numbered_after (hqos : qos ≠ .atMostOnce) (calls : List QosCall) : Numbered (after qos calls) := by
  refine @Mealy.run_history _ _ _ loggedCall (fun _ => Numbered) calls ?_ _ (numbered_new hqos) calls []
    (append_nil calls).symm
  intro past c later s _ hs
  exact hs.step c

/-! ## Runs in which no id is taken twice -/

/-- The tracker's entries are the messages that wait, and ids of messages registered so far are not yet in turn. -/
structure Exact (s : QosTracker × MessageLog) : Prop where
  entries : s.1.pending.entries.map (fun e => (e.1, e.2.2.toNat)) = s.2.waiting.map fun m => (m.id, m.returned)
  recent : ∀ m ∈ s.2.waiting, s.2.registered ≤ m.number + 65535

namespace Exact

variable (h : Exact s)

include h

theorem pendingCount : s.1.pendingCount = s.2.waiting.length := by
  have hlength := congrArg length h.entries
  rw [length_map, length_map] at hlength
  exact hlength

theorem returned_le (hn : Numbered s) (hm : m ∈ s.2.waiting) : m.returned ≤ 5 := by
  have hpair : (m.id, m.returned) ∈ s.2.waiting.map fun m => (m.id, m.returned) := mem_map_of_mem hm
  rw [← h.entries] at hpair
  rcases mem_map.1 hpair with ⟨e, he, heq⟩
  calc
    m.returned = e.2.2.toNat := (congrArg Prod.snd heq).symm
    _ ≤ 5 := hn.retries e he

/-- When the message that had the id last no longer waits, the id is free. -/
theorem next_notMem (hn : Numbered s)
    (hfree : ∀ m ∈ s.2.waiting, m.number + 65535 ≠ s.2.registered) : s.1.nextPacketId ∉ s.1.pending := by
  intro hmem
  rcases mem_map.1 hmem with ⟨e, he, hkey⟩
  have hpair : (e.1, e.2.2.toNat) ∈ s.1.pending.entries.map fun e => (e.1, e.2.2.toNat) := mem_map_of_mem he
  rw [h.entries] at hpair
  rcases mem_map.1 hpair with ⟨m, hm, heq⟩
  have hid : m.id = s.1.nextPacketId := (congrArg Prod.fst heq).trans hkey
  rcases hn.waiting m hm with ⟨hnumber, hlt, _⟩
  rw [hnumber, hn.next, packetId_eq_iff] at hid
  have hrecent := h.recent m hm
  apply hfree m hm
  omega

theorem register (hn : Numbered s)
    (hfree : ∀ m ∈ s.2.waiting, m.number + 65535 ≠ s.2.registered) (timestampMs : UInt64) :
    Exact (loggedCall s (.register timestampMs)).1 := by
  rw [loggedCall_register hn.qos]
  constructor
  · dsimp only
    rw [AList.entries_insert_of_notMem (h.next_notMem hn hfree), map_cons, map_cons, h.entries]
    rfl
  · intro m hm
    rcases mem_cons.1 hm with rfl | hm
    · dsimp only
      omega
    · have hrecent := h.recent m hm
      have hother := hfree m hm
      dsimp only
      omega

theorem settle (hc : (∃ id, c = .acknowledge id) ∨ c = .cleanupExpired) : Exact (loggedCall s c).1 := by
  rcases exists_settle hc with ⟨pending, ids, heq, hentries⟩
  rw [heq]
  constructor
  · -- both sides keep the pairs whose id is not settled
    have hfilter := congrArg (filter fun p => decide (p.1 ∉ ids)) h.entries
    rw [filter_map, filter_map] at hfilter
    rw [hentries]
    exact hfilter
  · intro m hm
    exact h.recent m (mem_waiting_settle.1 hm).1

end Exact

/-- Ids are distinct, so an id that is due is named once. -/
theorem count_due (t : QosTracker) (currentTimeMs : UInt64) {e : (_ : UInt16) × (UInt64 × UInt8)}
    (he : e ∈ t.pending.entries) :
    ((t.pending.entries.filter fun e => t.due currentTimeMs e.2).map Sigma.fst).count e.1 =
      if t.due currentTimeMs e.2 then 1 else 0 := by
  have hnodup : ((t.pending.entries.filter fun e => t.due currentTimeMs e.2).map Sigma.fst).Nodup :=
    t.pending.nodupKeys.sublist filter_sublist
  have hmem : e.1 ∈ (t.pending.entries.filter fun e => t.due currentTimeMs e.2).map Sigma.fst ↔
      t.due currentTimeMs e.2 = true := by
    constructor
    · intro h
      rcases mem_map.1 h with ⟨other, hother, hkey⟩
      rcases mem_filter.1 hother with ⟨hother, hdue⟩
      rw [t.pending.nodupKeys.eq_of_fst_eq hother he hkey] at hdue
      exact hdue
    · intro hdue
      exact mem_map_of_mem (mem_filter.2 ⟨he, hdue⟩)
  rw [hnodup.count]
  simp only [hmem]

theorem Exact.checkRetries (h : Exact s) (hn : Numbered s) (currentTimeMs : UInt64) :
    Exact (loggedCall s (.checkRetries currentTimeMs)).1 := by
  rw [loggedCall_checkRetries hn.qos]
  constructor
  · dsimp only [Table.mapValues]
    rw [map_map, map_map]
    -- the right side is a function of the pairs, so it may be read off the entries
    let named := (s.1.pending.entries.filter fun e => s.1.due currentTimeMs e.2).map Sigma.fst
    have hpairs := congrArg (map fun p : UInt16 × Nat => (p.1, p.2 + named.count p.1)) h.entries
    rw [map_map, map_map] at hpairs
    refine Eq.trans ?_ hpairs
    apply map_congr_left
    intro e he
    apply Prod.ext
    · rfl
    · change (if s.1.due currentTimeMs e.2 then (currentTimeMs, e.2.2 + 1) else e.2).2.toNat =
        e.2.2.toNat + named.count e.1
      rw [toNat_retries hn.maxRetries, count_due s.1 currentTimeMs he, retriesAfter]
      split
      · rfl
      · rfl
  · intro m hm
    rcases mem_map.1 hm with ⟨old, hold, rfl⟩
    exact h.recent old hold

theorem Exact.step (h : Exact s) (hn : Numbered s)
    (hfree : ∀ timestampMs, c = .register timestampMs → ∀ m ∈ s.2.waiting, m.number + 65535 ≠ s.2.registered) :
    Exact (loggedCall s c).1 := by
  cases c with
  | register timestampMs => exact h.register hn (hfree timestampMs rfl) timestampMs
  | acknowledge id => exact h.settle (.inl ⟨id, rfl⟩)
  | checkRetries currentTimeMs => exact h.checkRetries hn currentTimeMs
  | cleanupExpired => exact h.settle (.inr rfl)

/-! ## The books of a run -/

/-- No id is given out while a message still has it, as many messages are pending as were registered and neither
acknowledged nor expired, and none of them has been sent again more than five times. -/
structure Accounted (qos : MqttQos) (calls : List QosCall) : Prop where
  fresh : ∀ past timestampMs later, calls = past ++ .register timestampMs :: later →
    ((after qos past).1.register timestampMs).2 ∉ (after qos past).1.pending
  counted : ∀ past later, calls = past ++ later →
    (after qos past).1.pendingCount = (after qos past).2.registered - (after qos past).2.settled
  retried : ∀ past later, calls = past ++ later → ∀ m ∈ (after qos past).2.waiting, m.returned ≤ 5

/-- Whenever a message is registered, the one registered 65535 messages before it no longer waits. -/
def Recycles (qos : MqttQos) (calls : List QosCall) : Prop :=
  ∀ past timestampMs later, calls = past ++ .register timestampMs :: later →
    ∀ m ∈ (after qos past).2.waiting, m.number + 65535 ≠ (after qos past).2.registered

theorem exact_after (hqos : qos ≠ .atMostOnce) (h : Recycles qos calls)
    (hcalls : calls = past ++ later) : Exact (after qos past) := by
  refine (@Mealy.run_history _ _ _ loggedCall (fun past s => s = after qos past ∧ Exact s) calls ?_ _
    ⟨rfl, rfl, fun _ hm => nomatch hm⟩ past later hcalls).2
  rintro past c later _ hcalls ⟨rfl, hexact⟩
  refine ⟨(after_append qos past c).symm, hexact.step (numbered_after hqos past) ?_⟩
  rintro timestampMs rfl
  exact h past timestampMs later hcalls

theorem not_fresh (hqos : qos ≠ .atMostOnce)
    (hm : m ∈ (after qos past).2.waiting) (hnumber : m.number + 65535 = (after qos past).2.registered)
    (timestampMs : UInt64) : ((after qos past).1.register timestampMs).2 ∈ (after qos past).1.pending := by
  have hn := numbered_after hqos past
  rcases hn.waiting m hm with ⟨hid, _, hpending⟩
  have hnext : (after qos past).1.nextPacketId = m.id := by
    rw [hn.next, hid, packetId_eq_iff]
    omega
  rw [QosTracker.register, if_neg hn.qos]
  exact hnext ▸ hpending

/-- The books are right in exactly the runs in which an id comes round again only after its message is settled. -/
theorem accounted_iff {qos : MqttQos} (hqos : qos ≠ .atMostOnce) (calls : List QosCall) :
    Accounted qos calls ↔ Recycles qos calls := by
  constructor
  · intro h past timestampMs later hcalls m hm hnumber
    exact h.fresh past timestampMs later hcalls (not_fresh hqos hm hnumber timestampMs)
  · intro h
    constructor
    · intro past timestampMs later hcalls
      have hn := numbered_after hqos past
      rw [QosTracker.register, if_neg hn.qos]
      exact (exact_after hqos h hcalls).next_notMem hn (h past timestampMs later hcalls)
    · intro past later hcalls
      have haccounts := (numbered_after hqos past).accounts
      rw [(exact_after hqos h hcalls).pendingCount]
      omega
    · intro past later hcalls m hm
      exact (exact_after hqos h hcalls).returned_le (numbered_after hqos past) hm

/-! ## Short runs, and a run that is too long -/

theorem registered_le_length (qos : MqttQos) (calls : List QosCall) :
    (after qos calls).2.registered ≤ calls.length := by
  induction calls using reverseRecOn with
  | nil => exact le_refl 0
  | append_singleton past c ih =>
    rw [after_append, length_append, length_singleton]
    cases c with
    | register timestampMs => exact succ_le_succ ih
    | acknowledge id | checkRetries currentTimeMs | cleanupExpired => exact le_succ_of_le ih

theorem recycles_of_length_le (qos : MqttQos) (h : calls.length ≤ 65535) : Recycles qos calls := by
  intro past timestampMs later hcalls m _
  have hregistered := registered_le_length qos past
  rw [hcalls, length_append, length_cons] at h
  omega

theorem accounted_one_each :
    MqttQos.atLeastOnce ≠ .atMostOnce ∧
      Accounted .atLeastOnce [.register 0, .register 5, .checkRetries 2000, .acknowledge 1, .cleanupExpired] :=
  ⟨by decide, (accounted_iff (by decide) _).2 (recycles_of_length_le _ (by decide))⟩

theorem after_registers (hqos : qos ≠ .atMostOnce) (timestampMs : UInt64) (count : Nat) :
    (after qos (replicate count (.register timestampMs))).2 =
      { registered := count
        settled := 0
        waiting := (range count).reverse.map fun n => { number := n, id := packetId n, returned := 0 } } := by
  induction count with
  | zero => rfl
  | succ count ih =>
    have hn := numbered_after hqos (replicate count (.register timestampMs))
    rw [replicate_succ', after_append, loggedCall_register hn.qos, hn.next, ih, range_succ, reverse_append]
    rfl

/-- One of the messages is acknowledged; the first one still waits. -/
theorem after_acknowledge {count : Nat} (hcount : 5 ≤ count) :
    (after .atLeastOnce (replicate count (.register 0) ++ [.acknowledge 5])).2.registered = count ∧
      (after .atLeastOnce (replicate count (.register 0) ++ [.acknowledge 5])).2.waiting.length < count ∧
      { number := 0, id := 1, returned := 0 } ∈
        (after .atLeastOnce (replicate count (.register 0) ++ [.acknowledge 5])).2.waiting := by
  have hmessage : ∀ n < count, { number := n, id := packetId n, returned := 0 } ∈
      (range count).reverse.map fun n => ({ number := n, id := packetId n, returned := 0 } : QosMessage) := by
    intro n hn
    exact mem_map_of_mem (mem_reverse.2 (mem_range.2 hn))
  have hlog : (after .atLeastOnce (replicate count (.register 0) ++ [.acknowledge 5])).2 =
      (after .atLeastOnce (replicate count (.register 0))).2.settle [5] := by
    rw [after_append]
    rfl
  rw [hlog, after_registers (by decide)]
  refine ⟨rfl, ?_, ?_⟩
  · -- the message that goes is the one with number 4
    have hless := (@length_filter_lt_length_iff_exists _ (fun m : QosMessage => decide (m.id ∉ [(5 : UInt16)])) _).2
      ⟨_, hmessage 4 (by omega), by decide⟩
    rw [length_map, length_reverse, length_range] at hless
    exact hless
  · exact mem_waiting_settle.2 ⟨hmessage 0 (by omega), by decide⟩

/-- At no point of such a run do more than the first messages wait. -/
theorem waiting_le_round {count : Nat} (hcount : 5 ≤ count)
    (hcalls : replicate count (.register 0) ++ [.acknowledge 5, .register 0] = past ++ later) :
    (after .atLeastOnce past).2.waiting.length ≤ count := by
  rcases append_eq_append_iff.1 hcalls with ⟨tail, rfl, htail⟩ | ⟨tail, hpast, _⟩
  · have hless := (after_acknowledge hcount).2.1
    match tail, htail with
    | [], _ =>
      rw [append_nil, after_registers (by decide)]
      simp
    | [_], htail =>
      cases htail
      exact le_of_lt hless
    | [_, _], htail =>
      cases htail
      rw [append_cons, after_append]
      exact hless
  · rcases replicate_eq_append_iff.1 hpast with ⟨hlength, hreplicate, _⟩
    rw [hreplicate, after_registers (by decide)]
    simp only [length_map, length_reverse, length_range]
    omega

/-- Every id is in use, one message is acknowledged, and one more is registered.  Never more than 65535 messages
wait, but the last one is given the id of the first, which waits still. -/
theorem not_accounted_full_round :
    (∀ past later, List.replicate 65535 (.register 0) ++ [.acknowledge 5, .register 0] = past ++ later →
        (after .atLeastOnce past).2.waiting.length ≤ 65535) ∧
      ¬ Accounted .atLeastOnce (List.replicate 65535 (.register 0) ++ [.acknowledge 5, .register 0]) := by
  rcases @after_acknowledge 65535 (by omega) with ⟨hregistered, _, hfirst⟩
  constructor
  · intro past later hcalls
    exact waiting_le_round (by omega) hcalls
  · intro h
    exact h.fresh _ 0 [] (append_cons _ _ _) (not_fresh (by decide) hfirst hregistered.symm 0)

end QosTracker
end LingVoice.LmProtocol

import LingVoice.Lib.Mealy
import Mathlib.Algebra.Group.Nat.Defs
import Mathlib.Algebra.Order.Group.Int
import Mathlib.Data.Finset.Card

/-!
# Manager — nodes of a cluster and their heartbeats (`pkg/protocol/cluster/cluster.go`)

Every round of the heartbeat loop sends a heartbeat to each peer that is not offline and then looks at the age of the
last answer of every peer.  A failed heartbeat or an old answer lowers the status of a peer; nothing raises it again.

Times and durations are in nanoseconds.  The peers stand in the order in which `Range` visits them.  The streams of the
node are counted apart from their table (`Streams`).
-/

namespace LingVoice.Cluster

open List

/-! ## Nodes -/

inductive NodeStatus
  | online
  | degraded
  | offline
  deriving DecidableEq, Repr

structure NodeInfo where
  id : String
  status : NodeStatus
  /-- 0 to 100, lower is better. -/
  loadScore : Int
  lastHeartbeat : Int
  deriving DecidableEq, Repr

def minDuration : Int := -2 ^ 63

def maxDuration : Int := 2 ^ 63 - 1

/-- `now.Sub(t)`, which stops at the ends of the durations. -/
def since (now t : Int) : Int :=
  max minDuration (min maxDuration (now - t))

/-- One turn of the heartbeat loop: what the clock says when it begins, when each answer arrives and when the peers are
checked.  A heartbeat without an answer has failed. -/
structure Round where
  startedAt : Int
  answer : String → Option (Int × Int)
  checkedAt : Int
  answer_le : ∀ id t load, answer id = some (t, load) → t ≤ checkedAt

namespace NodeInfo

/-- One visit of the loop in `sendHeartbeats`. -/
def heartbeat (peer : NodeInfo) (answer : Option (Int × Int)) : NodeInfo :=
  if peer.status = .offline then
    peer
  else
    match answer with
    | none => if peer.status ≠ .degraded then { peer with status := .degraded } else peer
    | some (now, load) => { peer with lastHeartbeat := now, loadScore := load }

/-- One visit of the loop in `checkPeerHealth`. -/
def checkHealth (timeout now : Int) (peer : NodeInfo) : NodeInfo :=
  if timeout < since now peer.lastHeartbeat then
    if peer.status ≠ .offline then { peer with status := .offline } else peer
  else if timeout.tdiv 2 < since now peer.lastHeartbeat then
    if peer.status ≠ .degraded then { peer with status := .degraded } else peer
  else
    peer

def round (timeout : Int) (peer : NodeInfo) (r : Round) : NodeInfo :=
  (peer.heartbeat (r.answer peer.id)).checkHealth timeout r.checkedAt

def after (timeout : Int) (peer : NodeInfo) (rounds : List Round) : NodeInfo :=
  rounds.foldl (round timeout) peer

@[simp] theorem id_heartbeat (peer : NodeInfo) (answer : Option (Int × Int)) : (peer.heartbeat answer).id = peer.id := by
  unfold heartbeat
  split
  · rfl
  · split
    · split
      · rfl
      · rfl
    · rfl

variable (timeout now : Int)

theorem checkHealth_eq (peer : NodeInfo) :
    peer.checkHealth timeout now = { peer with status := (peer.checkHealth timeout now).status } := by
  unfold checkHealth
  split
  · split
    · rfl
    · rfl
  · split
    · split
      · rfl
      · rfl
    · rfl

@[simp] theorem id_checkHealth (peer : NodeInfo) : (peer.checkHealth timeout now).id = peer.id := by
  rw [checkHealth_eq]

@[simp] theorem lastHeartbeat_checkHealth (peer : NodeInfo) :
    (peer.checkHealth timeout now).lastHeartbeat = peer.lastHeartbeat := by
  rw [checkHealth_eq]

end NodeInfo

/-! ## The manager -/

structure Manager where
  heartbeatTimeout : Int
  localNode : NodeInfo
  peers : List NodeInfo
  nodup_ids : (peers.map NodeInfo.id).Nodup

namespace Manager

def mapPeers (m : Manager) (f : NodeInfo → NodeInfo) (hf : ∀ peer, (f peer).id = peer.id) : Manager :=
  { m with
    peers := m.peers.map f
    nodup_ids := by
      have hids : NodeInfo.id ∘ f = NodeInfo.id := funext hf
      rw [map_map, hids]
      exact m.nodup_ids }

def getPeer (m : Manager) (id : String) : Option NodeInfo :=
  m.peers.find? fun peer => peer.id = id

def sendHeartbeats (m : Manager) (r : Round) : Manager :=
  { m with localNode := { m.localNode with lastHeartbeat := r.startedAt } }.mapPeers
    (fun peer => peer.heartbeat (r.answer peer.id)) fun peer => peer.id_heartbeat _

def checkPeerHealth (m : Manager) (now : Int) : Manager :=
  m.mapPeers (fun peer => peer.checkHealth m.heartbeatTimeout now) fun peer => peer.id_checkHealth _ _

/-- The body of `heartbeatLoop`. -/
def round (m : Manager) (r : Round) : Manager :=
  (m.sendHeartbeats r).checkPeerHealth r.checkedAt

def after (m : Manager) (rounds : List Round) : Manager :=
  rounds.foldl round m

/-- One visit of the loop in `SelectNodeForNewStream`: the best node so far and its load. -/
def better (best : Option NodeInfo × Int) (peer : NodeInfo) : Option NodeInfo × Int :=
  if peer.status ≠ .online then
    best
  else if peer.loadScore < best.2 then
    (some peer, peer.loadScore)
  else
    best

def selectNodeForNewStream (m : Manager) : Option NodeInfo :=
  -- a load of 101 or more is never selected
  let start : Option NodeInfo × Int :=
    if m.localNode.loadScore < 101 ∧ m.localNode.status = .online then
      (some m.localNode, m.localNode.loadScore)
    else
      (none, 101)
  (m.peers.foldl better start).1

/-! ### One peer of the manager -/

theorem getPeer_mapPeers (m : Manager) (f : NodeInfo → NodeInfo) (hf : ∀ peer, (f peer).id = peer.id) (id : String) :
    (m.mapPeers f hf).getPeer id = (m.getPeer id).map f := by
  rw [getPeer, getPeer, mapPeers, find?_map]
  congr 2
  funext peer
  simp [hf]

variable {m : Manager} {id : String} {peer : NodeInfo}

theorem id_of_getPeer (h : m.getPeer id = some peer) : peer.id = id := by
  simpa using find?_some h

theorem getPeer_eq_some_iff : m.getPeer id = some peer ↔ peer ∈ m.peers ∧ peer.id = id := by
  constructor
  · intro h
    exact ⟨mem_of_find?_eq_some h, id_of_getPeer h⟩
  · rintro ⟨hmem, rfl⟩
    cases hfind : m.getPeer peer.id with
    | none =>
      have hother := List.find?_eq_none.1 hfind peer hmem
      simp at hother
    | some found =>
      -- ids are distinct, so what is found is this peer
      have hfound := inj_on_of_nodup_map m.nodup_ids (mem_of_find?_eq_some hfind) hmem (id_of_getPeer hfind)
      rw [hfound]

/-- Peers do not depend on each other. -/
theorem getPeer_after (m : Manager) (rounds : List Round) (id : String) :
    (m.after rounds).getPeer id = (m.getPeer id).map fun peer => peer.after m.heartbeatTimeout rounds := by
  induction rounds generalizing m with
  | nil => exact Option.map_id'.symm
  | cons r rest ih =>
    change ((m.round r).after rest).getPeer id = _
    rw [ih, round, checkPeerHealth, getPeer_mapPeers, sendHeartbeats, getPeer_mapPeers, Option.map_map, Option.map_map]
    rfl

end Manager

/-! ## Streams -/

inductive StreamCall
  | registerStream (streamID : String)
  | unregisterStream (streamID : String)
  deriving DecidableEq

/-- The stream table and the counter that goes out with the heartbeats. -/
structure Streams where
  streams : Finset String := ∅
  streamCount : Int64 := 0

namespace Streams

def call (s : Streams) : StreamCall → Streams
  | .registerStream streamID => ⟨insert streamID s.streams, s.streamCount + 1⟩
  | .unregisterStream streamID => ⟨s.streams.erase streamID, s.streamCount - 1⟩

def run (calls : List StreamCall) : Streams :=
  calls.foldl call {}

/-- The call changes the table, which does not outgrow the counter. -/
def Changes (s : Streams) : StreamCall → Prop
  | .registerStream streamID => streamID ∉ s.streams ∧ s.streams.card + 1 < 2 ^ 63
  | .unregisterStream streamID => streamID ∈ s.streams

def Counted (s : Streams) : Prop :=
  s.streamCount.toInt = s.streams.card

theorem call_counted {s : Streams} (h : s.Counted) (c : StreamCall) : (s.call c).Counted ↔ s.Changes c := by
  have hlt := s.streamCount.toInt_lt
  unfold Counted at h ⊢
  cases c with
  | registerStream streamID =>
    have hcard := @Finset.card_insert_eq_ite _ s.streams streamID _
    simp only [call, Changes, Int64.toInt_add, Int64.toInt_one, h, Int.bmod_def]
    grind
  | unregisterStream streamID =>
    have hcard := @Finset.card_erase_eq_ite _ s.streams streamID _
    have hpos : streamID ∈ s.streams → 0 < s.streams.card := fun hmem => Finset.card_pos.2 ⟨streamID, hmem⟩
    simp only [call, Changes, Int64.toInt_sub, Int64.toInt_one, h, Int.bmod_def]
    grind

/-- The counter is right all the time exactly when no call registers a known stream or unregisters an unknown one, and
there are fewer streams than an `int64` can count. -/
theorem run_counted_iff (calls : List StreamCall) :
    (∀ past, past <+: calls → (run past).streamCount.toInt = (run past).streams.card) ↔
      ∀ past c, past ++ [c] <+: calls → (run past).Changes c := by
  have hinit : Counted {} := rfl
  exact Lib.Mealy.forall_past_iff hinit (fun _ h => h) (fun _ c h => (call_counted h c).2)
    (fun _ c h => (call_counted h c).1) calls

theorem not_counted_registered_twice :
    (run [.registerStream "a", .registerStream "a"]).streamCount.toInt ≠
      (run [.registerStream "a", .registerStream "a"]).streams.card := by
  decide

end Streams

end LingVoice.Cluster

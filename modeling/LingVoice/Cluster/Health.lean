import LingVoice.Cluster.Manager
import Mathlib.Algebra.Order.Archimedean.Basic
import Mathlib.Data.Set.Finite.Lattice

/-!
# Health — the status of a peer and its heartbeats

What a round should leave: a peer that has just answered in time is online and can be selected for a new stream, a
peer whose last answer is older than the timeout is offline.  One failed heartbeat, or one late check, and a peer that
answers is degraded for good.
-/

namespace LingVoice.Cluster

open List

/-! ## One peer over a run -/

/-- The peer has answered in the round, and the answer was in time for the check. -/
def InTime (timeout : Int) (r : Round) (id : String) : Prop :=
  ∃ t load, r.answer id = some (t, load) ∧ 2 * since r.checkedAt t ≤ timeout

namespace NodeInfo

variable (timeout : Int) (peer : NodeInfo)

@[simp] theorem id_round (r : Round) : (peer.round timeout r).id = peer.id := by
  simp [round]

theorem after_cons (r : Round) (rest : List Round) :
    peer.after timeout (r :: rest) = (peer.round timeout r).after timeout rest := rfl

theorem after_snoc (rounds : List Round) (r : Round) :
    peer.after timeout (rounds ++ [r]) = (peer.after timeout rounds).round timeout r := by
  rw [after, foldl_append]
  rfl

@[simp] theorem id_after (rounds : List Round) : (peer.after timeout rounds).id = peer.id := by
  induction rounds generalizing peer with
  | nil => rfl
  | cons r rest ih => rw [after_cons, ih, id_round]

variable {timeout : Int} {peer : NodeInfo}

variable {now t : Int} {r : Round} {rounds : List Round}

theorem checkHealth_online_iff :
    (peer.checkHealth timeout now).status = .online ↔
      peer.status = .online ∧ since now peer.lastHeartbeat ≤ timeout ∧
        since now peer.lastHeartbeat ≤ timeout.tdiv 2 := by
  unfold checkHealth
  split
  · -- offline now, or since earlier
    split
    · simp; omega
    · simp_all
  · split
    · split
      · simp; omega
      · simp_all
    · constructor
      · intro h
        exact ⟨h, by omega, by omega⟩
      · exact fun h => h.1

theorem heartbeat_online_iff {answer : Option (Int × Int)} :
    (peer.heartbeat answer).status = .online ↔ peer.status = .online ∧ answer.isSome := by
  unfold heartbeat
  split
  · simp_all
  · cases answer with
    | none =>
      dsimp only
      split
      · simp
      · simp_all
    | some answer => simp

theorem lastHeartbeat_heartbeat {load : Int} (h : peer.status ≠ .offline) :
    (peer.heartbeat (some (t, load))).lastHeartbeat = t := by
  rw [heartbeat, if_neg h]

/-- With a timeout that is not negative, the half of it that the check uses is as good as the exact half. -/
theorem round_online_iff (htimeout : 0 ≤ timeout) :
    (peer.round timeout r).status = .online ↔ peer.status = .online ∧ InTime timeout r peer.id := by
  rw [round, checkHealth_online_iff, heartbeat_online_iff, Int.tdiv_eq_ediv_of_nonneg htimeout]
  cases hanswer : r.answer peer.id with
  | none => simp [InTime, hanswer]
  | some answer =>
    obtain ⟨t, load⟩ := answer
    constructor
    · rintro ⟨⟨honline, -⟩, -, hhalf⟩
      rw [lastHeartbeat_heartbeat (by simp [honline])] at hhalf
      exact ⟨honline, t, load, hanswer, by omega⟩
    · rintro ⟨honline, t', load', hanswer', hhalf⟩
      obtain ⟨rfl, rfl⟩ : t = t' ∧ load = load' := by simpa [hanswer] using hanswer'
      rw [lastHeartbeat_heartbeat (by simp [honline])]
      exact ⟨⟨honline, rfl⟩, by omega, by omega⟩

theorem after_online_iff (htimeout : 0 ≤ timeout) :
    (peer.after timeout rounds).status = .online ↔ peer.status = .online ∧ ∀ r ∈ rounds, InTime timeout r peer.id := by
  induction rounds generalizing peer with
  | nil => simp [after]
  | cons r rest ih =>
    rw [after_cons, ih, round_online_iff htimeout, id_round, forall_mem_cons, and_assoc]

/-- The time of the answer to the heartbeat of a round, where one was sent. -/
def answered (peer : NodeInfo) (r : Round) : Option Int :=
  if peer.status = .offline then none else (r.answer peer.id).map Prod.fst

theorem lastHeartbeat_round (r : Round) :
    (peer.round timeout r).lastHeartbeat = (peer.answered r).getD peer.lastHeartbeat := by
  rw [round, lastHeartbeat_checkHealth]
  unfold answered heartbeat
  split
  · rfl
  · cases r.answer peer.id with
    | none =>
      dsimp only
      split
      · rfl
      · rfl
    | some answer => rfl

/-- A peer whose last answer is older than the timeout is offline after the check. -/
theorem checkHealth_offline (h : timeout < since now peer.lastHeartbeat) :
    (peer.checkHealth timeout now).status = .offline := by
  rw [checkHealth, if_pos h]
  split
  · rfl
  · rename_i hoffline
    exact not_not.1 hoffline

/-- The last answer of the run, or `last` where there was none. -/
def lastAnswer (timeout : Int) : NodeInfo → List Round → Option Int → Option Int
  | _, [], last => last
  | peer, r :: rest, last => lastAnswer timeout (peer.round timeout r) rest ((peer.answered r).or last)

/-- The code keeps the time of the last answer. -/
theorem lastHeartbeat_after {last : Option Int}
    (hlast : ∀ t, last = some t → peer.lastHeartbeat = t) (h : peer.lastAnswer timeout rounds last = some t) :
    (peer.after timeout rounds).lastHeartbeat = t := by
  induction rounds generalizing peer last with
  | nil => exact hlast t h
  | cons r rest ih =>
    refine ih ?_ h
    intro t' ht'
    rw [lastHeartbeat_round]
    cases hanswered : peer.answered r with
    | none =>
      -- no answer in this round, the one before still is the last
      rw [hanswered, Option.none_or] at ht'
      exact hlast t' ht'
    | some t'' =>
      rw [hanswered, Option.some_or] at ht'
      exact Option.some.inj ht'

theorem after_offline {past : List Round}
    (hlast : peer.lastAnswer timeout (past ++ [r]) none = some t) (h : timeout < since r.checkedAt t) :
    (peer.after timeout (past ++ [r])).status = .offline := by
  have hheartbeat := lastHeartbeat_after (by simp) hlast
  rw [after_snoc] at hheartbeat ⊢
  apply checkHealth_offline
  rw [round, lastHeartbeat_checkHealth] at hheartbeat
  rw [hheartbeat]
  exact h

end NodeInfo

/-! ## Selection -/

namespace Manager

def withLoad (m : Manager) (id : String) (load : Int) : Manager :=
  m.mapPeers (fun peer => if peer.id = id then { peer with loadScore := load } else peer) fun peer => by
    split
    · rfl
    · rfl

/-- With a load that is low enough, the peer is the node that is selected. -/
def Eligible (m : Manager) (id : String) : Prop :=
  ∃ load, ∃ best ∈ (m.withLoad id load).selectNodeForNewStream,
    best ∈ (m.withLoad id load).peers ∧ best.id = id

variable {peers : List NodeInfo} {best : Option NodeInfo × Int} {past : List Round} {r : Round} {id : String}
  {t : Int}

theorem lt_foldl_better {bound : Int} (h : ∀ peer ∈ peers, bound < peer.loadScore)
    (hbest : bound < best.2) : bound < (peers.foldl better best).2 := by
  induction peers generalizing best with
  | nil => exact hbest
  | cons peer rest ih =>
    rw [forall_mem_cons] at h
    apply ih h.2
    unfold better
    split
    · exact hbest
    · split
      · exact h.1
      · exact hbest

theorem foldl_better_of_le (h : ∀ peer ∈ peers, best.2 ≤ peer.loadScore) : peers.foldl better best = best := by
  induction peers with
  | nil => rfl
  | cons peer rest ih =>
    rw [forall_mem_cons] at h
    have hkeep : better best peer = best := by
      unfold better
      split
      · rfl
      · exact if_neg (by omega)
    rw [foldl_cons, hkeep, ih h.2]

variable {m : Manager} {peer : NodeInfo}

/-- An online peer with less load than every other node, and less than 101, is selected. -/
theorem selectNodeForNewStream_of_least {front back : List NodeInfo}
    (hpeers : m.peers = front ++ peer :: back) (honline : peer.status = .online) (h101 : peer.loadScore < 101)
    (hlocal : peer.loadScore < m.localNode.loadScore)
    (hothers : ∀ other ∈ front ++ back, peer.loadScore < other.loadScore) : m.selectNodeForNewStream = some peer := by
  rw [forall_mem_append] at hothers
  unfold selectNodeForNewStream
  dsimp only
  generalize hstart :
    (if m.localNode.loadScore < 101 ∧ m.localNode.status = .online then (some m.localNode, m.localNode.loadScore)
      else (none, 101) : Option NodeInfo × Int) = start
  have hbound : peer.loadScore < start.2 := by
    rw [← hstart]
    split
    · exact hlocal
    · exact h101
  -- the peer beats what the nodes before it leave, the nodes behind it do not beat the peer
  have htake : better (front.foldl better start) peer = (some peer, peer.loadScore) := by
    rw [better, if_neg (by simp [honline]), if_pos (lt_foldl_better hothers.1 hbound)]
  rw [hpeers, foldl_append, foldl_cons, htake, foldl_better_of_le]
  exact fun other hother => Int.le_of_lt (hothers.2 other hother)

theorem status_of_selectNodeForNewStream {best : NodeInfo} (h : m.selectNodeForNewStream = some best) :
    best.status = .online := by
  -- the loop keeps that the best node so far is online
  have hfold (peers : List NodeInfo) (start : Option NodeInfo × Int)
      (hstart : ∀ node ∈ start.1, node.status = .online) :
      ∀ node ∈ (peers.foldl better start).1, node.status = .online := by
    induction peers generalizing start with
    | nil => exact hstart
    | cons peer rest ih =>
      apply ih
      unfold better
      split
      · exact hstart
      · rename_i honline
        split
        · rintro node ⟨⟩
          exact not_not.1 honline
        · exact hstart
  refine hfold m.peers _ ?_ best h
  split
  · rename_i hlocal
    rintro node ⟨⟩
    exact hlocal.2
  · exact fun node hnode => absurd hnode (Option.not_mem_none node)

theorem eligible_iff (hpeer : peer ∈ m.peers) : m.Eligible peer.id ↔ peer.status = .online := by
  constructor
  · rintro ⟨load, best, hbest, hmem, hid⟩
    -- the node that is selected is this peer with its load changed
    have hsame := getPeer_eq_some_iff.2 ⟨hmem, hid⟩
    rw [withLoad, getPeer_mapPeers, getPeer_eq_some_iff.2 ⟨hpeer, rfl⟩, Option.map_some, if_pos rfl] at hsame
    have honline := status_of_selectNodeForNewStream hbest
    rw [← Option.some.inj hsame] at honline
    exact honline
  · intro honline
    obtain ⟨bound, hbound⟩ :=
      ((m.localNode :: m.peers).map NodeInfo.loadScore).finite_toSet.bddBelow
    have hload (node : NodeInfo) (hnode : node ∈ m.localNode :: m.peers) : bound ≤ node.loadScore :=
      hbound (mem_map_of_mem hnode)
    obtain ⟨front, back, hpeers⟩ := append_of_mem hpeer
    have hnodup := m.nodup_ids
    rw [hpeers, map_append, map_cons, nodup_middle, nodup_cons, ← map_append] at hnodup
    -- less than every load there is
    let load := min bound 101 - 1
    have hothers : ∀ other ∈ front ++ back,
        (if other.id = peer.id then { other with loadScore := load } else other) = other := by
      intro other hother
      apply if_neg
      intro hid
      exact hnodup.1 (hid ▸ mem_map_of_mem hother)
    have hchanged : (m.withLoad peer.id load).peers = front ++ { peer with loadScore := load } :: back := by
      rw [forall_mem_append] at hothers
      change m.peers.map _ = _
      rw [hpeers, map_append, map_cons, if_pos rfl, map_congr_left hothers.1,
        map_congr_left hothers.2, map_id', map_id']
    have hselected : (m.withLoad peer.id load).selectNodeForNewStream = some { peer with loadScore := load } := by
      apply selectNodeForNewStream_of_least hchanged honline
      · change min bound 101 - 1 < 101
        omega
      · have := hload m.localNode mem_cons_self
        change min bound 101 - 1 < m.localNode.loadScore
        omega
      · intro other hother
        have hmem : other ∈ m.peers := by
          rw [mem_append] at hother
          rw [hpeers, mem_append, mem_cons]
          tauto
        have := hload other (mem_cons_of_mem _ hmem)
        change min bound 101 - 1 < other.loadScore
        omega
    exact ⟨load, _, hselected, by simp [hchanged], rfl⟩

/-! ## Whole runs -/

def answered (m : Manager) (r : Round) (id : String) : Option Int :=
  (m.getPeer id).bind fun peer => peer.answered r

def lastAnswer (m : Manager) (rounds : List Round) (id : String) : Option Int :=
  (m.getPeer id).bind fun peer => peer.lastAnswer m.heartbeatTimeout rounds none

/-- What the last of the rounds should leave. -/
structure HealthTracked (m : Manager) (past : List Round) (r : Round) : Prop where
  online : ∀ id t, (m.after past).answered r id = some t → 2 * since r.checkedAt t ≤ m.heartbeatTimeout →
    ∃ peer, (m.after (past ++ [r])).getPeer id = some peer ∧ peer.status = .online ∧
      (m.after (past ++ [r])).Eligible id
  offline : ∀ id t, m.lastAnswer (past ++ [r]) id = some t → m.heartbeatTimeout < since r.checkedAt t →
    ∃ peer, (m.after (past ++ [r])).getPeer id = some peer ∧ peer.status = .offline

/-- A peer that answers in time has been online from the beginning and has answered in time in every round. -/
def NeverMissed (m : Manager) (past : List Round) (r : Round) : Prop :=
  ∀ id t, (m.after past).answered r id = some t → 2 * since r.checkedAt t ≤ m.heartbeatTimeout →
    (∃ peer, m.getPeer id = some peer ∧ peer.status = .online) ∧ ∀ earlier ∈ past, InTime m.heartbeatTimeout earlier id

theorem offline_of_lastAnswer
    (hlast : m.lastAnswer (past ++ [r]) id = some t) (h : m.heartbeatTimeout < since r.checkedAt t) :
    ∃ peer, (m.after (past ++ [r])).getPeer id = some peer ∧ peer.status = .offline := by
  obtain ⟨peer, hpeer, hlast⟩ := Option.bind_eq_some_iff.1 hlast
  refine ⟨peer.after m.heartbeatTimeout (past ++ [r]), ?_, NodeInfo.after_offline hlast h⟩
  rw [getPeer_after, hpeer, Option.map_some]

/-- Online and eligible after a round in which the peer answered in time: it has not missed any round. -/
theorem online_iff_of_answered
    (hanswered : (m.after past).answered r id = some t) (hhalf : 2 * since r.checkedAt t ≤ m.heartbeatTimeout) :
    (∃ peer, (m.after (past ++ [r])).getPeer id = some peer ∧ peer.status = .online ∧
      (m.after (past ++ [r])).Eligible id) ↔
      (∃ peer, m.getPeer id = some peer ∧ peer.status = .online) ∧
        ∀ earlier ∈ past, InTime m.heartbeatTimeout earlier id := by
  obtain ⟨now, hnow, hanswer⟩ := Option.bind_eq_some_iff.1 hanswered
  rw [getPeer_after, Option.map_eq_some_iff] at hnow
  obtain ⟨peer, hpeer, rfl⟩ := hnow
  have hid := id_of_getPeer hpeer
  subst hid
  -- the answer was in time, so the timeout is not negative and this round is one more that was not missed
  have hintime : ∃ load, r.answer peer.id = some (t, load) := by
    unfold NodeInfo.answered at hanswer
    split at hanswer
    · cases hanswer
    · rw [NodeInfo.id_after, Option.map_eq_some_iff] at hanswer
      obtain ⟨⟨t', load⟩, hanswer, rfl⟩ := hanswer
      exact ⟨load, hanswer⟩
  obtain ⟨load, hintime⟩ := hintime
  have htimeout : 0 ≤ m.heartbeatTimeout := by
    have hle := r.answer_le peer.id t load hintime
    unfold since minDuration maxDuration at hhalf
    omega
  have hlater : (m.after (past ++ [r])).getPeer peer.id = some (peer.after m.heartbeatTimeout (past ++ [r])) := by
    rw [getPeer_after, hpeer, Option.map_some]
  have honline : (peer.after m.heartbeatTimeout (past ++ [r])).status = .online ↔
      peer.status = .online ∧ ∀ earlier ∈ past, InTime m.heartbeatTimeout earlier peer.id := by
    rw [NodeInfo.after_online_iff htimeout, forall_mem_append, forall_mem_singleton]
    have hr : InTime m.heartbeatTimeout r peer.id := ⟨t, load, hintime, hhalf⟩
    simp [hr]
  have heligible := eligible_iff (getPeer_eq_some_iff.1 hlater).1
  rw [NodeInfo.id_after] at heligible
  simp only [hlater, hpeer, heligible, Option.some.injEq, exists_eq_left', and_self, honline]

/-- Peers are tracked over a run exactly where no peer answers in time after a round that it has missed. -/
theorem healthTracked_iff_neverMissed (m : Manager) (rounds : List Round) :
    (∀ past r, past ++ [r] <+: rounds → m.HealthTracked past r) ↔
      ∀ past r, past ++ [r] <+: rounds → m.NeverMissed past r := by
  constructor
  · intro h past r hrun id t hanswered hhalf
    exact (online_iff_of_answered hanswered hhalf).1 ((h past r hrun).online id t hanswered hhalf)
  · intro h past r hrun
    constructor
    · intro id t hanswered hhalf
      exact (online_iff_of_answered hanswered hhalf).2 (h past r hrun id t hanswered hhalf)
    · intro id t hlast hlate
      exact offline_of_lastAnswer hlast hlate

/-- One failed heartbeat, then answers at once, with a timeout of 15 seconds. -/
theorem not_healthTracked_after_failure :
    let second : Int := 1000000000
    let peer : NodeInfo := ⟨"10.0.0.2:50051", .online, 0, 0⟩
    let m : Manager := ⟨15 * second, ⟨"10.0.0.1:50051", .online, 0, 0⟩, [peer], by decide⟩
    let failed : Round := ⟨5 * second, fun _ => none, 5 * second, nofun⟩
    let answered : Round := ⟨10 * second, fun _ => some (10 * second, 0), 10 * second, by rintro _ _ _ ⟨⟩; exact Int.le_refl _⟩
    ¬ m.HealthTracked [failed] answered := by
  intro second peer m failed answered h
  obtain ⟨after, hafter, honline, -⟩ := h.online "10.0.0.2:50051" (10 * second) (by decide) (by decide)
  cases hafter
  cases honline

end Manager
end LingVoice.Cluster

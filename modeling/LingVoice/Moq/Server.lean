import Mathlib.Data.List.AList
import Mathlib.Data.Finset.Card

/-!
# Server — the subscriptions of a MoQ session (`pkg/protocol/moq/server.go`)

A new subscription gets the number of those the session has as its id.  After an `UNSUBSCRIBE` that can be the id of
another one, which it then replaces (`run_keeps_iff`).
-/

namespace LingVoice.Moq

abbrev SubscribeID := UInt64

structure Subscription where
  id : SubscribeID
  trackAlias : UInt64
  trackName : String
  createdAt : Int
  deriving DecidableEq

structure Session where
  subscriptions : AList fun _ : SubscribeID => Subscription := ∅

/-- The calls for one session; `now` is the time of the call. -/
inductive SessionCall
  | subscribe (trackName : String) (trackAlias : UInt64) (now : Int)
  | unsubscribe (subID : SubscribeID)

namespace Session

def handleSubscribe (sess : Session) (trackName : String) (trackAlias : UInt64) (now : Int) : Session × Subscription :=
  let sub : Subscription := ⟨UInt64.ofNat sess.subscriptions.keys.length, trackAlias, trackName, now⟩
  (⟨sess.subscriptions.insert sub.id sub⟩, sub)

def handleUnsubscribe (sess : Session) (subID : SubscribeID) : Session :=
  ⟨sess.subscriptions.erase subID⟩

def call (sess : Session) : SessionCall → Session
  | .subscribe trackName trackAlias now => (sess.handleSubscribe trackName trackAlias now).1
  | .unsubscribe subID => sess.handleUnsubscribe subID

def run (calls : List SessionCall) : Session :=
  calls.foldl call {}

/-- The id is new, and every live subscription stays as it is. -/
def Keeps (sess : Session) (trackName : String) (trackAlias : UInt64) (now : Int) : Prop :=
  (sess.handleSubscribe trackName trackAlias now).2.id ∉ sess.subscriptions ∧
    ∀ id sub, sess.subscriptions.lookup id = some sub →
      (sess.handleSubscribe trackName trackAlias now).1.subscriptions.lookup id = some sub

/-- The ids that are in use after a call, of those in use before it. -/
def liveAfter (ids : Finset SubscribeID) : SessionCall → Finset SubscribeID
  | .subscribe _ _ _ => insert (UInt64.ofNat ids.card) ids
  | .unsubscribe subID => ids.erase subID

def live (calls : List SessionCall) : Finset SubscribeID :=
  calls.foldl liveAfter ∅

/-- Every subscription that was made when as many were live as now has been given back. -/
def GivenBack (calls : List SessionCall) : Prop :=
  ∀ past trackName trackAlias now since, calls = past ++ .subscribe trackName trackAlias now :: since →
    UInt64.ofNat (live past).card = UInt64.ofNat (live calls).card → .unsubscribe (UInt64.ofNat (live past).card) ∈ since

variable {sess : Session} {ids : Finset SubscribeID}

theorem length_keys (h : ∀ id, id ∈ sess.subscriptions ↔ id ∈ ids) : sess.subscriptions.keys.length = ids.card := by
  rw [← List.toFinset_card_of_nodup sess.subscriptions.keys_nodup]
  congr 1
  ext id
  simpa [AList.mem_keys] using h id

theorem mem_call (h : ∀ id, id ∈ sess.subscriptions ↔ id ∈ ids) (c : SessionCall) (id : SubscribeID) :
    id ∈ (sess.call c).subscriptions ↔ id ∈ liveAfter ids c := by
  cases c with
  | subscribe trackName trackAlias now => simp [call, handleSubscribe, liveAfter, length_keys h, h]
  | unsubscribe subID => simp [call, handleUnsubscribe, liveAfter, h]

theorem mem_run (calls : List SessionCall) (id : SubscribeID) : id ∈ (run calls).subscriptions ↔ id ∈ live calls := by
  induction calls using List.reverseRecOn generalizing id with
  | nil => simp [run, live]
  | append_singleton calls c ih =>
    rw [run, live, List.foldl_append, List.foldl_append]
    exact mem_call ih c id

theorem keeps_iff (trackName : String) (trackAlias : UInt64) (now : Int) :
    sess.Keeps trackName trackAlias now ↔ UInt64.ofNat sess.subscriptions.keys.length ∉ sess.subscriptions := by
  refine ⟨And.left, fun hnew => ⟨hnew, fun id sub hid => ?_⟩⟩
  have hne : id ≠ UInt64.ofNat sess.subscriptions.keys.length := by
    rintro rfl
    exact hnew (AList.lookup_isSome.1 (by simp [hid]))
  exact (AList.lookup_insert_ne hne).trans hid

/-- An id is in use if it was the number of the live ones when some subscription was made that has not been given back
since. -/
theorem mem_live_iff (calls : List SessionCall) (id : SubscribeID) :
    id ∈ live calls ↔ ∃ past trackName trackAlias now since,
      calls = past ++ .subscribe trackName trackAlias now :: since ∧ UInt64.ofNat (live past).card = id ∧
        .unsubscribe id ∉ since := by
  induction calls using List.reverseRecOn with
  | nil => simp [live]
  | append_singleton calls c ih =>
    have hlive : live (calls ++ [c]) = liveAfter (live calls) c := List.foldl_append
    rw [hlive]
    constructor
    · -- the last call has made it, or has left it alone
      intro hid
      have hcases : (∃ trackName trackAlias now, c = .subscribe trackName trackAlias now ∧
          UInt64.ofNat (live calls).card = id) ∨ id ∈ live calls ∧ c ≠ .unsubscribe id := by
        cases c <;> grind [liveAfter]
      obtain ⟨trackName, trackAlias, now, rfl, rfl⟩ | ⟨hbefore, hc⟩ := hcases
      · exact ⟨calls, trackName, trackAlias, now, [], rfl, rfl, by simp⟩
      · obtain ⟨past, trackName, trackAlias, now, since, rfl, hpast, hsince⟩ := ih.1 hbefore
        exact ⟨past, trackName, trackAlias, now, since ++ [c], by simp, hpast, by simpa [hsince] using hc.symm⟩
    · rintro ⟨past, trackName, trackAlias, now, since, hcalls, hpast, hsince⟩
      rcases List.eq_nil_or_concat since with rfl | ⟨since, d, rfl⟩
      · obtain ⟨rfl, rfl⟩ : calls = past ∧ c = .subscribe trackName trackAlias now := by simpa using hcalls
        simp [liveAfter, hpast]
      · rw [List.concat_eq_append, ← List.cons_append, ← List.append_assoc, List.append_singleton_inj] at hcalls
        obtain ⟨rfl, rfl⟩ := hcalls
        have hbefore := ih.2 ⟨past, trackName, trackAlias, now, since, rfl, hpast, by grind⟩
        cases c <;> grind [liveAfter]

theorem givenBack_iff (calls : List SessionCall) : UInt64.ofNat (live calls).card ∉ live calls ↔ GivenBack calls := by
  rw [mem_live_iff]
  grind [GivenBack]

/-- All subscriptions of a run get new ids and replace none exactly when each of them comes when those that were made
with as many live ones have been given back. -/
theorem run_keeps_iff (calls : List SessionCall) :
    (∀ past trackName trackAlias now, past ++ [.subscribe trackName trackAlias now] <+: calls →
        (run past).Keeps trackName trackAlias now) ↔
      ∀ past trackName trackAlias now, past ++ [.subscribe trackName trackAlias now] <+: calls → GivenBack past := by
  simp only [keeps_iff, mem_run, length_keys (mem_run _), givenBack_iff]

/-- The first of two subscriptions is given back, and the next one takes the id of the second. -/
theorem not_keeps_after_unsubscribe :
    ¬ (run [.subscribe "a" 1 0, .subscribe "b" 2 1, .unsubscribe 0]).Keeps "c" 3 2 := by
  intro h
  exact absurd h.1 (by decide)

end Session
end LingVoice.Moq

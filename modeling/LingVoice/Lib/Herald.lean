import Mathlib.Data.List.Induction

/-!
# Herald — what was set last is announced before it is used

A trace tells three kinds of events that concern us: something is set, something is announced, and what is set is
used.  `Heralded` says that before every use the last announcement is one of what was set last.
-/

namespace LingVoice.Lib.Herald

open List

variable {α β κ : Type}

/-! ## Every event and its past -/

/-- Every event of the trace stands in a relation to the events before it. -/
def AtEvery (Ok : List α → α → Prop) (trace : List α) : Prop :=
  ∀ past e later, trace = past ++ e :: later → Ok past e

variable {Ok : List α → α → Prop}

theorem atEvery_nil : AtEvery Ok [] := by
  intro past e later h
  simp at h

variable {trace later : List α} {e : α}

theorem AtEvery.of_append (h : AtEvery Ok (trace ++ later)) : AtEvery Ok trace := by
  rintro past e rest rfl
  exact h past e (rest ++ later) (by simp)

theorem atEvery_concat : AtEvery Ok (trace ++ [e]) ↔ AtEvery Ok trace ∧ Ok trace e := by
  constructor
  · intro h
    exact ⟨h.of_append, h trace e [] rfl⟩
  · rintro ⟨htrace, he⟩ past e' later hsplit
    -- the event is the new one, or it stands in the trace before
    rcases eq_nil_or_concat later with rfl | ⟨later, last, rfl⟩
    · obtain ⟨rfl, hlast⟩ := append_inj' hsplit rfl
      obtain rfl : e = e' := by simpa using hlast
      exact he
    · have hcut : trace ++ [e] = (past ++ e' :: later) ++ [last] := by
        simpa using hsplit
      obtain ⟨rfl, -⟩ := append_inj' hcut rfl
      exact htrace past e' later rfl

/-- The rule for a property of traces that depends at every event only on its past. -/
theorem iff_atEvery {Holds : List α → Prop} (hnil : Holds [])
    (hconcat : ∀ trace e, Holds (trace ++ [e]) ↔ Holds trace ∧ Ok trace e) (trace : List α) :
    Holds trace ↔ AtEvery Ok trace := by
  induction trace using reverseRecOn with
  | nil => exact iff_of_true hnil atEvery_nil
  | append_singleton trace e ih => rw [hconcat, atEvery_concat, ih]

/-! ## The last event of a kind -/

/-- The last thing that is selected in a trace. -/
def latest (select : α → Option β) (trace : List α) : Option β :=
  (trace.filterMap select).getLast?

@[simp] theorem latest_nil (select : α → Option β) : latest select [] = none :=
  rfl

theorem latest_concat (select : α → Option β) (trace : List α) (e : α) :
    latest select (trace ++ [e]) = (select e).or (latest select trace) := by
  unfold latest
  cases hselect : select e with
  | none | some b => simp [hselect]

theorem latest_append_of_forall {select : α → Option β} (h : ∀ e ∈ later, select e = none)
    (trace : List α) : latest select (trace ++ later) = latest select trace := by
  have hnone : later.filterMap select = [] := by simpa using h
  rw [latest, filterMap_append, hnone, append_nil]
  rfl

/-! ## The three roles -/

/-- Which events set, announce and use; an announcement may be one of nothing. -/
structure Roles (α κ : Type) where
  set : α → Option κ
  announce : α → Option (Option κ)
  uses : α → Prop

/-- The event plays none of the roles. -/
structure Roles.Idle (r : Roles α κ) (e : α) : Prop where
  set : r.set e = none
  announce : r.announce e = none
  uses : ¬ r.uses e

/-- What was set last is also what was announced last. -/
def Announced (r : Roles α κ) (trace : List α) : Prop :=
  ∃ c, latest r.set trace = some c ∧ latest r.announce trace = some (some c)

/-- Every use comes behind an announcement of what was set last, and behind no other one since. -/
def Heralded (r : Roles α κ) (trace : List α) : Prop :=
  AtEvery (fun before e => r.uses e → Announced r before) trace

variable {r : Roles α κ}

theorem heralded_nil : Heralded r [] :=
  atEvery_nil

theorem heralded_concat : Heralded r (trace ++ [e]) ↔ Heralded r trace ∧ (r.uses e → Announced r trace) :=
  atEvery_concat

theorem heralded_concat_of_not_uses (h : ¬ r.uses e) : Heralded r (trace ++ [e]) ↔ Heralded r trace := by
  rw [heralded_concat]
  exact and_iff_left fun hu => absurd hu h

theorem heralded_append_of_idle (h : ∀ e ∈ later, r.Idle e) : Heralded r (trace ++ later) ↔ Heralded r trace := by
  induction later using reverseRecOn with
  | nil => rw [append_nil]
  | append_singleton later e ih =>
    simp only [mem_append, mem_singleton] at h
    rw [← append_assoc, heralded_concat_of_not_uses (h e (.inr rfl)).uses]
    exact ih fun e' he' => h e' (.inl he')

/-! ## A sender

It knows what is set and whether that was announced since, and announces it before the next use. -/

section Sender

variable {ε σ κ' : Type} {other : Roles α κ'} {Header : κ → Option κ → Prop} {config : Option κ} {sent : Bool}
  {trace body events : List α} {Use Ok : Prop}

/-- What the sender knows of the trace.  `Header c a` says that an announcement made of `c` is one of `a`. -/
structure Kept (r : Roles α κ) (Header : κ → Option κ → Prop) (config : Option κ) (sent : Bool) (trace : List α) :
    Prop where
  set : latest r.set trace = config
  made : ∀ a, latest r.announce trace = some a → ∃ c, Header c a
  sent : sent = true → ∃ c a, config = some c ∧ Header c a ∧ latest r.announce trace = some a

/-- One use, or none; another sender has nothing to do with it. -/
inductive Body (r : Roles α κ) (other : Roles α κ') (Use : Prop) : List α → Prop
  | nothing (h : ¬ Use) : Body r other Use []
  | one {e : α} (h : Use) (hset : r.set e = none) (hannounce : r.announce e = none) (huses : r.uses e)
      (hother : other.Idle e) : Body r other Use [e]

/-- What a sender does with something to use: nothing; it fails; it uses it without ever having announced anything;
behind an announcement; or it announces what is set first.  `Ok` says whether that was right. -/
inductive Sends (r : Roles α κ) (other : Roles α κ') (Header : κ → Option κ → Prop) (config : Option κ) (sent : Bool)
    (flag : Bool → σ) (Use Ok : Prop) : Except ε (σ × List α) → Prop
  | quiet (hok : Ok) : Sends r other Header config sent flag Use Ok (.ok (flag sent, []))
  | failed {err : ε} (hok : ¬ Ok) : Sends r other Header config sent flag Use Ok (.error err)
  | unset {body : List α} (hnever : ∀ c, config = some c → ∀ c', ¬ Header c' (some c)) (hbody : Body r other Use body)
      (hok : Ok ↔ ¬ Use) : Sends r other Header config sent flag Use Ok (.ok (flag sent, body))
  | behind {body : List α} (hsent : sent = true) (hbody : Body r other Use body)
      (hok : ∀ c a, config = some c → Header c a → (Ok ↔ (Use → a = some c))) :
      Sends r other Header config sent flag Use Ok (.ok (flag sent, body))
  | first {c : κ} {a : Option κ} {header : α} {body : List α} (hconfig : config = some c) (hheader : Header c a)
      (hset : r.set header = none) (hannounce : r.announce header = some a) (huses : ¬ r.uses header)
      (hother : other.Idle header) (hbody : Body r other Use body) (hok : Ok ↔ (Use → a = some c)) :
      Sends r other Header config sent flag Use Ok (.ok (flag true, header :: body))

theorem kept_nil (r : Roles α κ) (Header : κ → Option κ → Prop) : Kept r Header none false [] :=
  ⟨rfl, fun _ h => by (cases h), fun h => by (cases h)⟩

namespace Kept

variable (h : Kept r Header config sent trace)

include h

theorem append (hevents : ∀ e ∈ events, r.set e = none ∧ r.announce e = none) :
    Kept r Header config sent (trace ++ events) := by
  have hset := latest_append_of_forall (fun e he => (hevents e he).1) trace
  have hannounce := latest_append_of_forall (fun e he => (hevents e he).2) trace
  exact ⟨hset.trans h.set, hannounce ▸ h.made, hannounce ▸ h.sent⟩

variable {e : α} {c : κ} {a : Option κ}

theorem setting (hset : r.set e = some c)
    (hannounce : r.announce e = none) : Kept r Header (some c) false (trace ++ [e]) := by
  refine ⟨?_, ?_, fun hsent => by (cases hsent)⟩
  · simp [latest_concat, hset]
  · simpa [latest_concat, hannounce] using h.made

theorem announcing (hconfig : config = some c)
    (hheader : Header c a) (hset : r.set e = none) (hannounce : r.announce e = some a) :
    Kept r Header config true (trace ++ [e]) := by
  have hlatest : latest r.announce (trace ++ [e]) = some a := by simp [latest_concat, hannounce]
  refine ⟨?_, ?_, fun _ => ⟨c, a, hconfig, hheader, hlatest⟩⟩
  · simpa [latest_concat, hset] using h.set
  · rintro a' ha'
    obtain rfl : a = a' := Option.some.inj (hlatest.symm.trans ha')
    exact ⟨c, hheader⟩

theorem announced_iff (hconfig : config = some c)
    (hlatest : latest r.announce trace = some a) : Announced r trace ↔ a = some c := by
  simp [Announced, h.set, hconfig, hlatest]

end Kept

theorem Body.quiet (h : Body r other Use body) : ∀ e ∈ body, r.set e = none ∧ r.announce e = none := by
  cases h with
  | nothing => simp
  | one hUse hset hannounce huses hother => simp [hset, hannounce]

theorem Body.idle (h : Body r other Use body) : ∀ e ∈ body, other.Idle e := by
  cases h with
  | nothing => simp
  | one hUse hset hannounce huses hother => simpa using hother

theorem Body.heralded_iff (h : Body r other Use body) (hh : Heralded r trace) :
    Heralded r (trace ++ body) ↔ (Use → Announced r trace) := by
  cases h with
  | nothing hUse => simp [hh, hUse]
  | one hUse hset hannounce huses hother => simp [heralded_concat, hh, hUse, huses]

variable {flag : Bool → σ} {s : σ} {result : Except ε (σ × List α)}

/-- The sender goes on, and another one is not concerned. -/
theorem Sends.kept (h : Sends r other Header config sent flag Use Ok result) (hk : Kept r Header config sent trace)
    (hresult : result = .ok (s, events)) :
    (∃ sent', s = flag sent' ∧ Kept r Header config sent' (trace ++ events)) ∧ ∀ e ∈ events, other.Idle e := by
  cases h with
  | failed => cases hresult
  | quiet =>
    cases hresult
    exact ⟨⟨sent, rfl, hk.append (by simp)⟩, by simp⟩
  | unset hnever hbody | behind hsent hbody =>
    cases hresult
    exact ⟨⟨sent, rfl, hk.append hbody.quiet⟩, hbody.idle⟩
  | first hconfig hheader hset hannounce huses hother hbody =>
    cases hresult
    have hnext := (hk.announcing hconfig hheader hset hannounce).append hbody.quiet
    rw [append_assoc] at hnext
    exact ⟨⟨true, rfl, hnext⟩, forall_mem_cons.2 ⟨hother, hbody.idle⟩⟩

/-- It does right exactly when `Ok` says so. -/
theorem Sends.heralded_iff (h : Sends r other Header config sent flag Use Ok result)
    (hk : Kept r Header config sent trace) (hh : Heralded r trace) :
    (∃ s events, result = .ok (s, events) ∧ Heralded r (trace ++ events)) ↔ Ok := by
  cases h with
  | failed hok => simp [hok]
  | quiet hok => simp [hok, hh]
  | unset hnever hbody hok =>
    have hunannounced : ¬ Announced r trace := by
      rintro ⟨c, hset, hannounce⟩
      obtain ⟨c', hheader⟩ := hk.made _ hannounce
      exact hnever c (hk.set.symm.trans hset) c' hheader
    simp [hbody.heralded_iff hh, hok, hunannounced]
  | behind hsent hbody hok =>
    obtain ⟨c, a, hconfig, hheader, hlatest⟩ := hk.sent hsent
    simp [hbody.heralded_iff hh, hok c a hconfig hheader, hk.announced_iff hconfig hlatest]
  | @first c a header body hconfig hheader hset hannounce huses hother hbody hok =>
    have hbefore : Heralded r (trace ++ [header]) := (heralded_concat_of_not_uses huses).2 hh
    have hnext := hk.announcing hconfig hheader hset hannounce
    have hlatest : latest r.announce (trace ++ [header]) = some a := by simp [latest_concat, hannounce]
    have hafter := hbody.heralded_iff hbefore
    rw [append_assoc, hnext.announced_iff hconfig hlatest, ← hok] at hafter
    simpa using hafter

end Sender

end LingVoice.Lib.Herald

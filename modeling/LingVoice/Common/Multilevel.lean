import Mathlib.Algebra.Order.Ring.Int

/-!
# Multilevel — two levels of expiring caches (`pkg/common/cache/multilevel`, `pkg/common/cache/lru`)

`Get` copies what it finds in the second level alone to the first one, and there without an expiry.  Beside the cache
stands what the latest `Set` of every key has stored, and until when.
-/

namespace LingVoice.Multilevel

open Function (update)

variable {κ ν : Type} [DecidableEq κ]

structure ExpiredValue (ν : Type) where
  /-- `none` is the zero time. -/
  expiresAt : Option Int
  val : ν

def ExpiredValue.isExpired (v : ExpiredValue ν) (now : Int) : Bool :=
  v.expiresAt.any (· ≤ now)

/-- The entries of an LRU without a default TTL. -/
abbrev Lru (κ ν : Type) := κ → Option (ExpiredValue ν)

namespace Lru

variable (c : Lru κ ν) (key : κ) (now : Int)

def live : Option (ExpiredValue ν) :=
  (c key).filter fun v => !v.isExpired now

/-- `Get` and `Exists` remove an entry that is expired. -/
def get : Lru κ ν :=
  update c key (c.live key now)

def set (value : ν) (ttl : Int) : Lru κ ν :=
  update c key (some ⟨if 0 < ttl then some (now + ttl) else none, value⟩)

end Lru

structure Cache (κ ν : Type) where
  l1 : Lru κ ν := fun _ => none
  l2 : Lru κ ν := fun _ => none

/-- A call reads the clock for the level it comes to first and `delay` later for the other one. -/
def Cache.get (c : Cache κ ν) (key : κ) (now : Int) (delay : Nat) : Cache κ ν × Option ν :=
  let l1 := c.l1.get key now
  match c.l1.live key now with
  | some v => (⟨l1, c.l2⟩, some v.val)
  | none =>
    let l2 := c.l2.get key (now + delay)
    match c.l2.live key (now + delay) with
    | some v => (⟨l1.set key (now + delay) v.val 0, l2⟩, some v.val)
    | none => (⟨l1, l2⟩, none)

inductive Action (κ ν : Type)
  | set (key : κ) (value : ν) (ttl now : Int) (delay : Nat)
  | get (key : κ) (now : Int) (delay : Nat)
  | exists? (key : κ) (now : Int) (delay : Nat)
  | delete (key : κ)
  | clear
  | evict1 (key : κ)
  | evict2 (key : κ)

/-- A cache, and the latest value of every key with the end of its time, if it has one. -/
structure Watched (κ ν : Type) extends Cache κ ν where
  latest : κ → Option (ν × Option Int) := fun _ => none
  /-- Has a `Get` found the key in the second level alone, and was it neither set nor removed in the first one since? -/
  copied : κ → Bool := fun _ => false

namespace Watched

variable (w : Watched κ ν)

def step : Action κ ν → Watched κ ν
  | .set key value ttl now delay =>
    { l2 := w.l2.set key now value ttl
      l1 := w.l1.set key (now + delay) value ttl
      latest := update w.latest key (some (value, if 0 < ttl then some (now + delay + ttl) else none))
      copied := update w.copied key false }
  | .get key now delay =>
    { w with
      toCache := (w.toCache.get key now delay).1
      copied :=
        if w.l1.live key now = none ∧ (w.l2.live key (now + delay)).isSome then update w.copied key true else w.copied }
  | .exists? key now delay =>
    { w with
      l1 := w.l1.get key now
      l2 := if (w.l1.live key now).isSome then w.l2 else w.l2.get key (now + delay) }
  | .delete key => ⟨⟨update w.l1 key none, update w.l2 key none⟩, update w.latest key none, update w.copied key false⟩
  | .clear => {}
  | .evict1 key => { w with l1 := update w.l1 key none, copied := update w.copied key false }
  | .evict2 key => { w with l2 := update w.l2 key none }

/-- What `Get` returns is the latest value, and its time is not over. -/
def Honoured (key : κ) (now : Int) (delay : Nat) : Prop :=
  ∀ val ∈ (w.toCache.get key now delay).2, ∃ deadline, w.latest key = some (val, deadline) ∧ ∀ d ∈ deadline, now < d

/-- The first level has no copy without an expiry of a value whose time is over. -/
def Fresh (key : κ) (now : Int) : Prop :=
  ∀ v ∈ w.l1 key, v.expiresAt = none → ∀ entry ∈ w.latest key, ∀ d ∈ entry.2, now < d

/-- The entry holds the latest value and expires with it or before, unless it is a copy. -/
def Current (copies : Bool) (entry : Option (ν × Option Int)) (v : ExpiredValue ν) : Prop :=
  ∃ deadline, entry = some (v.val, deadline) ∧
    (copies = true ∧ v.expiresAt = none ∨ ∀ d ∈ deadline, ∃ e, v.expiresAt = some e ∧ e ≤ d)

def Holds (latest : κ → Option (ν × Option Int)) (copies : Bool) (c : Lru κ ν) : Prop :=
  ∀ key, ∀ v ∈ c key, Current copies (latest key) v

variable {w} {latest : κ → Option (ν × Option Int)} {copies : Bool} {c : Lru κ ν} (key : κ)
  {e : Option (ExpiredValue ν)}

theorem Holds.update (h : Holds latest copies c) {entry : Option (ν × Option Int)}
    (he : ∀ v ∈ e, Current copies entry v) : Holds (update latest key entry) copies (update c key e) := by
  intro other
  by_cases heq : other = key
  · subst heq
    simpa using he
  · simpa [heq] using h other

theorem Holds.replace (h : Holds latest copies c) (he : ∀ v ∈ e, Current copies (latest key) v) :
    Holds latest copies (Function.update c key e) := by
  simpa using h.update key he

omit [DecidableEq κ] in
theorem mem_live {now : Int} {v : ExpiredValue ν} :
    v ∈ c.live key now ↔ v ∈ c key ∧ ∀ e, v.expiresAt = some e → now < e := by
  cases he : v.expiresAt with
  | none | some _ => simp [Lru.live, ExpiredValue.isExpired, he]

theorem Holds.get (h : Holds latest copies c) (now : Int) : Holds latest copies (c.get key now) :=
  h.replace key fun v hv => h key v ((mem_live key).1 hv).1

/-- What has no expiry stays. -/
theorem lasting_get (now : Int) (other : κ) :
    (∃ v ∈ c.get key now other, v.expiresAt = none) ↔ ∃ v ∈ c other, v.expiresAt = none := by
  by_cases heq : other = key
  · subst heq
    rw [Lru.get, Function.update_self]
    simp only [mem_live]
    grind
  · simp [Lru.get, heq]

/-- While the latest value has an end, an entry of the first level without an expiry is a copy. -/
def Marks (w : Watched κ ν) : Prop :=
  ∀ key value d, w.latest key = some (value, some d) → ((∃ v ∈ w.l1 key, v.expiresAt = none) ↔ w.copied key = true)

theorem Marks.step (h : w.Marks) (a : Action κ ν) : (w.step a).Marks := by
  intro other value d
  have hother := h other value d
  cases a with
  | set key _ ttl _ _ =>
    by_cases heq : other = key
    · -- the entry has an end as well
      by_cases httl : 0 < ttl <;> simp [Watched.step, Lru.set, heq, httl]
    · simpa [Watched.step, Lru.set, heq] using hother
  | get key now delay =>
    simp only [Watched.step, Cache.get]
    cases w.l1.live key now with
    | some v =>
      simp only [reduceCtorEq, false_and, if_false, lasting_get]
      exact hother
    | none =>
      cases w.l2.live key (now + delay) with
      | none =>
        simp only [Option.isSome_none, Bool.false_eq_true, and_false, if_false, lasting_get]
        exact hother
      | some v =>
        by_cases heq : other = key
        · simp [heq, Lru.set]
        · simpa [Lru.set, Lru.get, heq] using hother
  | exists? key now delay =>
    simp only [Watched.step, lasting_get]
    exact hother
  | delete key | evict1 key =>
    by_cases heq : other = key
    · simp [Watched.step, heq]
    · simpa [Watched.step, heq] using hother
  | clear => nofun
  | evict2 key => exact hother

structure Sound (w : Watched κ ν) : Prop where
  l1 : Holds w.latest true w.l1
  l2 : Holds w.latest false w.l2

theorem Sound.step (h : w.Sound) (a : Action κ ν) : (w.step a).Sound := by
  obtain ⟨h1, h2⟩ := h
  cases a with
  | set key value ttl now delay =>
    exact ⟨h1.update key (by grind [Current]), h2.update key (by grind [Current])⟩
  | get key now delay =>
    have h1 := h1.get key now
    have h2' := h2.get key (now + delay)
    simp only [Watched.step, Cache.get]
    split
    · exact ⟨h1, h2⟩
    · split
      · next v hv =>
        obtain ⟨deadline, hlatest, -⟩ := h2 key v ((mem_live key).1 hv).1
        exact ⟨h1.replace key (by grind [Current]), h2'⟩
      · exact ⟨h1, h2'⟩
  | exists? key now delay =>
    refine ⟨h1.get key now, ?_⟩
    simp only [Watched.step]
    split
    · exact h2
    · exact h2.get key _
  | delete key => exact ⟨h1.update key nofun, h2.update key nofun⟩
  | clear => exact ⟨nofun, nofun⟩
  | evict1 key => exact ⟨h1.replace key nofun, h2⟩
  | evict2 key => exact ⟨h1, h2.replace key nofun⟩

/-- A `Get` honours overwrites and expiry exactly when the first level has no copy whose time is over: no `Get` has found
the key in the second level alone since it was set, or there is still time. -/
theorem run_honoured_iff (past : List (Action κ ν)) (key : κ) (now : Int) (delay : Nat) :
    ((past.foldl step {}).Honoured key now delay ↔ (past.foldl step {}).Fresh key now) ∧
      ((past.foldl step {}).Fresh key now ↔ ((past.foldl step {}).copied key = true →
        ∀ entry ∈ (past.foldl step {}).latest key, ∀ d ∈ entry.2, now < d)) := by
  have hsound : (past.foldl step {} : Watched κ ν).Sound :=
    List.foldlRecOn past step ⟨nofun, nofun⟩ fun w h a _ => h.step a
  have hmarks : (past.foldl step {} : Watched κ ν).Marks := List.foldlRecOn past step nofun fun w h a _ => h.step a
  generalize past.foldl step {} = w at *
  refine ⟨?_, ?_⟩
  case refine_2 =>
    constructor
    · rintro h hcopied ⟨value, _⟩ hentry d rfl
      obtain ⟨v, hv, hnone⟩ := (hmarks key value d hentry).2 hcopied
      exact h v hv hnone _ hentry d rfl
    · rintro h v hv hnone ⟨value, _⟩ hentry d rfl
      exact h ((hmarks key value d hentry).1 ⟨v, hv, hnone⟩) _ hentry d rfl
  unfold Honoured Fresh Cache.get
  cases hl1 : w.l1.live key now with
  | some v =>
    obtain ⟨hv, htime⟩ := (mem_live key).1 hl1
    obtain ⟨deadline, hlatest, hbound⟩ := hsound.l1 key v hv
    rw [Option.mem_def] at hv
    simp only [hlatest, hv, Option.mem_some_iff]
    grind
  | none =>
    refine iff_of_true ?_ fun v hv hnone => ?_
    · cases hl2 : w.l2.live key (now + delay) with
      | none => exact nofun
      | some v =>
        obtain ⟨hv, htime⟩ := (mem_live key).1 hl2
        obtain ⟨deadline, hlatest, hbound⟩ := hsound.l2 key v hv
        grind
    · have hlive : v ∈ w.l1.live key now := (mem_live key).2 ⟨hv, by simp [hnone]⟩
      grind

/-- A value of ten seconds leaves the first level, comes back from the second one and is returned after twenty. -/
theorem not_honoured_copied :
    ¬ ([.set () 7 10 0 0, .evict1 (), .get () 1 0].foldl step ({} : Watched Unit Nat)).Honoured () 20 0 := by
  intro h
  obtain ⟨deadline, hlatest, htime⟩ := h 7 rfl
  obtain rfl : some 10 = deadline := by simpa [step] using hlatest
  exact absurd (htime 10 rfl) (by decide)

end Watched
end LingVoice.Multilevel

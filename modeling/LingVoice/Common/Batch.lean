import LingVoice.Lib.Mealy

/-!
# Batch — the loop that collects batches (`pkg/common/batch/batch.go`)

The loop of a batch with a positive interval.  A flush of buffered items calls the handler until it succeeds or there is
no retry left, and then arms the timer, whatever the handler returned.  A flush of nothing returns before that, so a
tick that finds the buffer empty leaves the timer stopped, and items that come later wait for another reason to flush.

When `Close` is called, the context of a flush is done: it gives up between two attempts.  The loop then takes the items
that wait in the channel and flushes once more.
-/

namespace LingVoice.Batch

open List

variable {τ : Type}

structure Config (τ : Type) where
  maxSize : Int64
  maxBytes : Int64
  sizeFunc : Option (τ → Int64)
  maxRetry : Nat

inductive Timer
  | armed
  /-- The tick waits in the channel. -/
  | fired
  | stopped
  deriving DecidableEq, Repr

/-- What a call of the handler returns; `cancelled` is an error after which the context is done before the delay is
over. -/
inductive Outcome
  | ok
  | failed
  | cancelled
  deriving DecidableEq, Repr

structure Loop (τ : Type) where
  buffer : List τ := []
  currentBytes : Int64 := 0
  timer : Timer := .armed
  /-- The calls of the handler and whether they succeeded. -/
  handled : List (List τ × Bool) := []

inductive Action (τ : Type)
  | fire
  | item (item : τ)
  /-- `flushCh` and `flushWaitCh` -/
  | flush
  | tick

/-- An action and what the handler returns in its flush, attempt by attempt. -/
abbrev Turn (τ : Type) := Action τ × (Nat → Outcome)

/-- The loop over the attempts from one on, with as many retries left: whether each call succeeded, and whether the
context was done. -/
def attempts (outcome : Nat → Outcome) : (attempt left : Nat) → List Bool × Bool
  | attempt, 0 => ([outcome attempt = .ok], false)
  | attempt, left + 1 =>
    match outcome attempt with
    | .ok => ([true], false)
    | .failed => (false :: (attempts outcome (attempt + 1) left).1, (attempts outcome (attempt + 1) left).2)
    | .cancelled => ([false], true)

variable (cfg : Config τ)

namespace Loop

variable (b : Loop τ)

def flush (outcome : Nat → Outcome) : Loop τ :=
  if b.buffer = [] then b else
    let tried := attempts outcome 0 cfg.maxRetry
    { timer := if tried.2 then b.timer else .armed
      handled := b.handled ++ tried.1.map (b.buffer, ·) }

def shouldFlushByBytes : Bool :=
  0 < cfg.maxBytes && cfg.sizeFunc.isSome && cfg.maxBytes ≤ b.currentBytes

def shouldFlush : Bool :=
  cfg.maxSize.toInt ≤ b.buffer.length || b.shouldFlushByBytes cfg

def push (item : τ) : Loop τ :=
  { b with
    buffer := b.buffer ++ [item]
    currentBytes := b.currentBytes + (cfg.sizeFunc.map (· item)).getD 0 }

/-- One turn of the loop, or the timer going off.  A channel in which nothing waits is not received from. -/
def step (b : Loop τ) : Turn τ → Loop τ
  | (.fire, _) => if b.timer = .armed then { b with timer := .fired } else b
  | (.item item, outcome) =>
    if (b.push cfg item).shouldFlush cfg then (b.push cfg item).flush cfg outcome else b.push cfg item
  | (.flush, outcome) => b.flush cfg outcome
  | (.tick, outcome) => if b.timer = .fired then { b with timer := .stopped }.flush cfg outcome else b

def run (turns : List (Turn τ)) : Loop τ :=
  turns.foldl (step cfg) {}

/-- What the loop does when it receives from `closeCh`, with these items in the channel. -/
def close (waiting : List (τ × (Nat → Outcome))) (outcome : Nat → Outcome) : Loop τ :=
  ((waiting.map fun w => (.item w.1, w.2)).foldl (step cfg) b).flush cfg outcome

/-! ## Batches -/

/-- The sizes, added up as the loop does. -/
def total (size : τ → Int64) (items : List τ) : Int64 :=
  items.foldl (fun bytes item => bytes + size item) 0

/-- No limit is reached at any place of the list. -/
def Within (items : List τ) : Prop :=
  ∀ front, front ≠ [] → front <+: items → front.length < cfg.maxSize.toInt ∧
    ∀ size, cfg.sizeFunc = some size → 0 < cfg.maxBytes → total size front < cfg.maxBytes

/-- The items of a batch and what the handler returned for them: once for sure, again only behind an error, and no
more often than the retries allow. -/
structure Delivered (batch : List τ × List Bool) : Prop where
  within : Within cfg batch.1.dropLast
  called : batch.2 ≠ []
  bounded : batch.2.length ≤ cfg.maxRetry + 1
  retried : true ∉ batch.2.dropLast

/-- The items that have come are in the batches of the handler or in the buffer. -/
def Handed (items : List τ) : Prop :=
  ∃ batches : List (List τ × List Bool), (∀ batch ∈ batches, Delivered cfg batch) ∧
    b.handled = batches.flatMap (fun batch => batch.2.map (batch.1, ·)) ∧
    (batches.map Prod.fst).flatten ++ b.buffer = items

structure Sound (items : List τ) : Prop where
  within : Within cfg b.buffer
  bytes : ∀ size, cfg.sizeFunc = some size → b.currentBytes = total size b.buffer
  handed : Handed cfg b items

def received : Action τ → List τ
  | .item item => [item]
  | _ => []

variable {b} {cfg} {items : List τ}

theorem attempts_called (outcome : Nat → Outcome) (attempt left : Nat) :
    let results := (attempts outcome attempt left).1
    results ≠ [] ∧ results.length ≤ left + 1 ∧ true ∉ results.dropLast := by
  induction left generalizing attempt with
  | zero => simp [attempts]
  | succ left ih =>
    rw [attempts]
    cases outcome attempt with
    | ok | cancelled => simp
    | failed =>
      obtain ⟨hne, hlength, hretried⟩ := ih (attempt + 1)
      simpa [dropLast_cons_of_ne_nil hne] using ⟨hlength, hretried⟩

/-- The last item of a batch may have reached a limit. -/
theorem Handed.flush (h : Handed cfg b items) (hne : b.buffer ≠ []) (hwithin : Within cfg b.buffer.dropLast)
    (outcome : Nat → Outcome) : Sound cfg (b.flush cfg outcome) items := by
  obtain ⟨batches, hbatches, hhandled, hitems⟩ := h
  obtain ⟨hcalled, hbounded, hretried⟩ := attempts_called outcome 0 cfg.maxRetry
  rw [Loop.flush, if_neg hne]
  refine ⟨fun _ hne h => absurd (prefix_nil.1 h) hne, fun _ _ => rfl, ?_⟩
  refine ⟨batches ++ [(b.buffer, (attempts outcome 0 cfg.maxRetry).1)], ?_, by simp [hhandled], by simp [hitems]⟩
  exact forall_mem_append.2 ⟨hbatches, forall_mem_singleton.2 ⟨hwithin, hcalled, hbounded, hretried⟩⟩

theorem buffer_flush (b : Loop τ) (outcome : Nat → Outcome) : (b.flush cfg outcome).buffer = [] := by
  unfold Loop.flush
  split
  · assumption
  · rfl

theorem Sound.flush (h : Sound cfg b items) (outcome : Nat → Outcome) : Sound cfg (b.flush cfg outcome) items := by
  by_cases hnil : b.buffer = []
  · rwa [Loop.flush, if_pos hnil]
  · exact h.handed.flush hnil (fun some hne hsome => h.within some hne (hsome.trans ( dropLast_prefix _))) outcome

theorem Sound.item (h : Sound cfg b items) (item : τ) (outcome : Nat → Outcome) :
    Sound cfg (b.step cfg (.item item, outcome)) (items ++ [item]) := by
  have hbytes : ∀ size, cfg.sizeFunc = some size →
      (b.push cfg item).currentBytes = total size (b.push cfg item).buffer := by
    intro size hsize
    simp [push, hsize, h.bytes size hsize, total]
  have hhanded : Handed cfg (b.push cfg item) (items ++ [item]) := by
    obtain ⟨batches, hbatches, hhandled, rfl⟩ := h.handed
    exact ⟨batches, hbatches, hhandled, by simp [push]⟩
  simp only [step]
  split
  · exact hhanded.flush (by simp [push]) (by simpa [push] using h.within) outcome
  · next hroom =>
    simp only [shouldFlush, shouldFlushByBytes, Bool.or_eq_true, Bool.and_eq_true, decide_eq_true_eq] at hroom
    refine ⟨fun front hne hfront => ?_, hbytes, hhanded⟩
    rcases prefix_concat_iff.1 hfront with rfl | hfront
    · refine ⟨Int.not_le.1 fun hle => hroom (.inl hle), fun size hsize hpos => Int64.not_le.1 fun hle => hroom (.inr ?_)⟩
      exact ⟨⟨hpos, by rw [hsize]; rfl⟩, (hbytes size hsize).symm ▸ hle⟩
    · exact h.within front hne hfront

theorem Sound.step (h : Sound cfg b items) (t : Turn τ) : Sound cfg (b.step cfg t) (items ++ received t.1) := by
  obtain ⟨a, outcome⟩ := t
  have hnone : items ++ [] = items := append_nil items
  cases a with
  | item item => exact h.item item outcome
  | fire =>
    simp only [Loop.step, received, hnone]
    split
    · exact ⟨h.within, h.bytes, h.handed⟩
    · exact h
  | flush => exact hnone.symm ▸ h.flush outcome
  | tick =>
    simp only [Loop.step, received, hnone]
    split
    · exact (⟨h.within, h.bytes, h.handed⟩ : Sound cfg { b with timer := .stopped } items).flush outcome
    · exact h

theorem Sound.foldl (h : Sound cfg b items) (turns : List (Turn τ)) :
    Sound cfg (turns.foldl (Loop.step cfg) b) (items ++ turns.flatMap fun t => received t.1) := by
  induction turns generalizing b items with
  | nil => simpa using h
  | cons t turns ih => simpa [append_assoc] using ih (h.step t)

theorem sound_run (cfg : Config τ) (turns : List (Turn τ)) :
    Sound cfg (run cfg turns) (turns.flatMap fun t => received t.1) :=
  @Sound.foldl _ _ _ [] ⟨fun _ hne h => absurd (prefix_nil.1 h) hne, fun _ _ => rfl, [], by simp, rfl, rfl⟩ turns

/-- When the loop is closed, the handler has been given every item that has come, in order and in batches of which none
reaches a limit before its last item. -/
theorem handed_closed (cfg : Config τ) (turns : List (Turn τ)) (waiting : List (τ × (Nat → Outcome)))
    (outcome : Nat → Outcome) :
    ∃ batches : List (List τ × List Bool), (∀ batch ∈ batches, Delivered cfg batch) ∧
      ((run cfg turns).close cfg waiting outcome).handled = batches.flatMap (fun batch => batch.2.map (batch.1, ·)) ∧
      (batches.map Prod.fst).flatten = (turns.flatMap fun t => received t.1) ++ waiting.map Prod.fst := by
  have hclosed := ((sound_run cfg turns).foldl (waiting.map fun w => (.item w.1, w.2))).flush outcome
  obtain ⟨batches, hbatches, hhandled, hitems⟩ := hclosed.handed
  refine ⟨batches, hbatches, hhandled, ?_⟩
  rw [buffer_flush, append_nil, flatMap_map] at hitems
  exact hitems.trans (congrArg _ map_eq_flatMap.symm)

/-! ## The timer -/

/-- Items that wait are flushed by the timer some day. -/
def Timed (b : Loop τ) : Prop :=
  b.buffer ≠ [] → b.timer ≠ .stopped

/-- The item fills an empty buffer. -/
def Fills (cfg : Config τ) (item : τ) : Prop :=
  cfg.maxSize.toInt ≤ 1 ∨ 0 < cfg.maxBytes ∧ ∃ size, cfg.sizeFunc = some size ∧ cfg.maxBytes ≤ size item

/-- A tick has come while nothing was buffered, and no item since. -/
def Idle (cfg : Config τ) (turns : List (Turn τ)) : Prop :=
  ∃ past outcome since, turns = past ++ (.tick, outcome) :: since ∧ (run cfg past).timer = .fired ∧
    (run cfg past).buffer = [] ∧ ∀ t ∈ since, ∀ item, t.1 ≠ .item item

section Timer

variable {turns : List (Turn τ)}

/-- Without `Close` no flush is given up. -/
theorem attempts_open {outcome : Nat → Outcome} (hopen : ∀ i, outcome i ≠ .cancelled) (attempt left : Nat) :
    (attempts outcome attempt left).2 = false := by
  induction left generalizing attempt with
  | zero => rfl
  | succ left ih =>
    rw [attempts]
    cases houtcome : outcome attempt with
    | ok => rfl
    | failed => exact ih (attempt + 1)
    | cancelled => exact absurd houtcome (hopen attempt)

theorem Sound.shouldFlush_push_iff (h : Sound cfg b items) (hnil : b.buffer = []) (item : τ) :
    (b.push cfg item).shouldFlush cfg = true ↔ Fills cfg item := by
  cases hsize : cfg.sizeFunc with
  | none => simp [shouldFlush, shouldFlushByBytes, push, Fills, hnil, hsize]
  | some size =>
    have hbytes : b.currentBytes = 0 := by rw [h.bytes size hsize, hnil]; rfl
    simp [shouldFlush, shouldFlushByBytes, push, Fills, hnil, hbytes, hsize]

theorem Idle.concat (h : Idle cfg turns) {t : Turn τ} (ht : ∀ item, t.1 ≠ .item item) : Idle cfg (turns ++ [t]) := by
  obtain ⟨past, outcome, since, rfl, hfired, hnil, hsince⟩ := h
  exact ⟨past, outcome, since ++ [t], by simp, hfired, hnil, forall_mem_append.2 ⟨hsince, forall_mem_singleton.2 ht⟩⟩

theorem run_concat (turns : List (Turn τ)) (t : Turn τ) : run cfg (turns ++ [t]) = (run cfg turns).step cfg t :=
  foldl_append

theorem Idle.run_eq (h : Idle cfg turns) : (run cfg turns).timer = .stopped ∧ (run cfg turns).buffer = [] := by
  obtain ⟨past, outcome, since, rfl, hfired, hnil, hsince⟩ := h
  rw [append_cons, run, foldl_append, ← run, run_concat]
  refine foldlRecOn (motive := fun b : Loop τ => b.timer = .stopped ∧ b.buffer = []) since (step cfg) ?_ ?_
  · simp [step, hfired, hnil, flush]
  · rintro b ⟨hstopped, hnil⟩ ⟨a, outcome⟩ ht
    cases a with
    | item item => exact absurd rfl (hsince _ ht item)
    | fire | flush | tick => simp [step, hstopped, hnil, flush]

/-- As long as the items that wait are timed, the timer is stopped just behind a tick for nothing. -/
theorem timer_stopped_iff (hopen : ∀ t ∈ turns, ∀ i, t.2 i ≠ .cancelled)
    (htimed : ∀ past, past <+: turns → (run cfg past).Timed) : (run cfg turns).timer = .stopped ↔ Idle cfg turns := by
  refine ⟨?_, fun h => h.run_eq.1⟩
  induction turns using reverseRecOn with
  | nil => exact nofun
  | append_singleton turns t ih =>
    have hlast := htimed _ prefix_rfl
    obtain ⟨hopen, ht⟩ := forall_mem_append.1 hopen
    have ih := ih hopen fun past hpast => htimed past (hpast.trans (prefix_append _ _))
    obtain ⟨a, outcome⟩ := t
    have hflush {b : Loop τ} (hne : b.buffer ≠ []) : (b.flush cfg outcome).timer = .armed := by
      simp [flush, hne, attempts_open (ht _ (mem_singleton_self _))]
    rw [run_concat] at hlast ⊢
    intro hstopped
    cases a with
    | item item =>
      have hne : ((run cfg turns).push cfg item).buffer ≠ [] := by simp [push]
      by_cases hfull : ((run cfg turns).push cfg item).shouldFlush cfg
      · grind [step]
      · exact absurd hstopped (hlast (by simpa [step, hfull] using hne))
    | fire => exact (ih (by grind [step])).concat nofun
    | flush => exact (ih (by grind [step, flush])).concat nofun
    | tick =>
      by_cases hfired : (run cfg turns).timer = .fired
      · exact ⟨turns, outcome, [], rfl, hfired, by grind [step], by simp⟩
      · exact (ih (by grind [step])).concat nofun

/-- The step lemma: only an item that finds the timer stopped can be left to wait. -/
theorem timed_step_iff (h : Sound cfg b items) (htimed : b.Timed) (t : Turn τ) :
    (b.step cfg t).Timed ↔ ∀ item, t.1 = .item item → b.timer = .stopped → Fills cfg item := by
  have hflush (b : Loop τ) (outcome : Nat → Outcome) : (b.flush cfg outcome).Timed :=
    fun hne => absurd (buffer_flush b outcome) hne
  obtain ⟨a, outcome⟩ := t
  cases a with
  | item item =>
    have hne : (b.push cfg item).buffer ≠ [] := by simp [push]
    have hfills (hstopped : b.timer = .stopped) :=
      h.shouldFlush_push_iff (by_contra fun hne => htimed hne hstopped) item
    simp only [step]
    split
    · next hfull => exact iff_of_true (hflush _ outcome) (by grind)
    · next hroom =>
      have htimer : (b.push cfg item).timer = b.timer := rfl
      grind [Timed]
  | fire | flush | tick =>
    refine iff_of_true ?_ nofun
    grind [step, Timed]

/-- At the start of every turn the timer is armed or has fired if items wait, exactly when every item that comes behind
a tick for nothing fills the buffer by itself. -/
theorem run_timed_iff (cfg : Config τ) (turns : List (Turn τ)) (hopen : ∀ t ∈ turns, ∀ i, t.2 i ≠ .cancelled) :
    (∀ past, past <+: turns → (run cfg past).Timed) ↔
      ∀ past item outcome, past ++ [(.item item, outcome)] <+: turns → Idle cfg past → Fills cfg item := by
  induction turns using reverseRecOn with
  | nil => exact iff_of_true (by simp [Timed, run]) (by simp)
  | append_singleton turns t ih =>
    have hopen := (forall_mem_append.1 hopen).1
    simp only [prefix_concat_iff, or_imp, forall_and, forall_eq, append_singleton_inj, ← ih hopen]
    refine and_congr_left fun htimed => ?_
    rw [run_concat, timed_step_iff (sound_run cfg turns) (htimed _ prefix_rfl), timer_stopped_iff hopen htimed]
    grind

end Timer

/-- The first attempt fails. -/
def secondTry : Nat → Outcome
  | 0 => .failed
  | _ => .ok

def tickFirst : List (Turn Unit) :=
  [(.fire, secondTry), (.tick, secondTry), (.item (), secondTry)]

/-- With batches of one item, no item has to wait. -/
theorem run_timed_tickFirst :
    (run ⟨1, 0, none, 2⟩ tickFirst).Timed ∧ (run ⟨1, 0, none, 2⟩ (tickFirst ++ tickFirst)).Timed := by
  have hopen : ∀ i, secondTry i ≠ .cancelled := by
    rintro (_ | i) h <;> cases h
  have htimed := (run_timed_iff ⟨1, 0, none, 2⟩ (tickFirst ++ tickFirst) (by simp [tickFirst, hopen])).2
    fun _ _ _ _ _ => .inl (by decide)
  exact ⟨htimed _ (prefix_append _ _), htimed _ prefix_rfl⟩

/-- The timer goes off before the first item comes. -/
theorem not_timed_tickFirst : ¬ (run ⟨100, 0, none, 0⟩ tickFirst).Timed := by
  intro h
  exact h (by decide) (by decide)

end Loop
end LingVoice.Batch

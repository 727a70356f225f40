import Mathlib.Algebra.BigOperators.Group.Multiset.Basic
import Mathlib.Algebra.Order.BigOperators.Group.Multiset
import Mathlib.Data.Finset.Basic
import Mathlib.Data.List.Sort

/-!
# CapacityScheduler — limits of the task scheduler (`pkg/common/queue/capacity_scheduler.go`)

Any number of workers take tasks off the pending list, run their handlers and clean up behind them.  A step is one
section under the mutex or one atomic operation.  The order of the pending list (`sort`) and of the running map are
arbitrary, which covers every strategy; a task that is tried again is ingested again.
-/

namespace LingVoice.Queue

open Multiset

/-! ## The model -/

structure Task where
  id : String
  jobID : String := ""
  priority : Int := 0
  weight : Int64
  preemptible : Bool := true
deriving DecidableEq

def taskWeight (t : Task) : Int64 :=
  if t.weight ≤ 0 then 1 else t.weight

/-- Where a worker is with its task: behind the dispatch section, in the handler with the cancel function registered,
behind the handler, behind the decrement of the used weight. -/
inductive Pc where
  | picked
  | running
  | returned
  | released
deriving DecidableEq

structure CapacitySchedulerConfig where
  capacity : Int64
  workerCount : Nat
  capacity_pos : 0 < capacity
  workerCount_pos : 0 < workerCount

structure CapacityScheduler where
  pending : List Task := []
  /-- The running map: a task and whether its cancel function is registered. -/
  running : Multiset (Task × Bool) := 0
  usedWeight : Int64 := 0
  activeJobs : Finset String := ∅
  /-- The workers that have a task. -/
  inFlight : Multiset (Task × Pc) := 0
  dequeued : Multiset Task := 0
  executed : Multiset Task := 0
  nilCancel : Bool := false

inductive Action where
  | ingest (t : Task)
  | sort (sorted : List Task)
  | pick
  | preempt (order : List Task)
  | advance (t : Task) (pc : Pc)

namespace CapacityScheduler

variable (cfg : CapacitySchedulerConfig) (preemption : Bool) (s : CapacityScheduler)

/-- `canDispatchLocked` -/
def canDispatch (t : Task) : Bool :=
  !(t.jobID ≠ "" && t.jobID ∈ s.activeJobs) && s.usedWeight + taskWeight t ≤ cfg.capacity

def occupyJob (jobID : String) : Finset String :=
  if jobID = "" then s.activeJobs else insert jobID s.activeJobs

def freeJob (jobID : String) : Finset String :=
  if jobID = "" then s.activeJobs else s.activeJobs.erase jobID

/-- The second half of the dispatch section: the task is marked as running. -/
def start (t : Task) : CapacityScheduler :=
  { s with
    usedWeight := s.usedWeight + taskWeight t
    activeJobs := s.occupyJob t.jobID
    running := (t, false) ::ₘ s.running.filter (·.1.id ≠ t.id)
    inFlight := (t, .picked) ::ₘ s.inFlight
    executed := t ::ₘ s.executed }

/-- `pickDispatchableLocked` -/
def pickDispatchable : CapacityScheduler :=
  match s.pending.find? (s.canDispatch cfg) with
  | some t => { s with pending := s.pending.erase t }.start t
  | none => s

/-- The candidates of the lowest priority, as many as are needed.  Among equals `running` decides. -/
def selectPreemptionVictims (pending : Task) (running : List Task) (needed : Int64) : List Task :=
  let candidates := (running.filter fun t => t.preemptible && t.priority < pending.priority).insertionSort
    (fun t u => t.priority ≤ u.priority)
  let (victims, freed) := candidates.foldl (fun (victims, freed) t =>
    if needed ≤ freed then (victims, freed) else (victims ++ [t], freed + taskWeight t)) ([], (0 : Int64))
  if freed < needed then [] else victims

def preemptVictim (v : Task) : CapacityScheduler :=
  if v.id ∈ s.running.map (·.1.id) then
    { s with
      nilCancel := s.nilCancel || decide (v.id ∈ (s.running.filter (!·.2)).map (·.1.id))
      running := s.running.filter (·.1.id ≠ v.id)
      activeJobs := s.freeJob v.jobID
      usedWeight := s.usedWeight - taskWeight v
      pending := s.pending ++ [v] }
  else s

/-- `tryPreemptLocked`, with the running map in the order `order`. -/
def tryPreempt (order : List Task) : CapacityScheduler :=
  match s.pending with
  | [] => s
  | pending :: _ =>
    let needed := taskWeight pending - (cfg.capacity - s.usedWeight)
    if needed ≤ 0 then s else
      let s := (selectPreemptionVictims pending order needed).foldl preemptVictim s
      if s.canDispatch cfg pending then
        { s with pending := s.pending.eraseP (·.id = pending.id) }.start pending
      else s

/-- `executeTask`, one step of it. -/
def advance (t : Task) : Pc → CapacityScheduler
  | .picked =>
    { s with
      running := s.running.map fun r => if r.1.id = t.id then (r.1, true) else r
      inFlight := (t, .running) ::ₘ s.inFlight.erase (t, .picked) }
  | .running => { s with inFlight := (t, .returned) ::ₘ s.inFlight.erase (t, .running) }
  | .returned =>
    { s with
      usedWeight := s.usedWeight - taskWeight t
      inFlight := (t, .released) ::ₘ s.inFlight.erase (t, .returned) }
  | .released =>
    { s with
      running := s.running.filter (·.1.id ≠ t.id)
      activeJobs := s.freeJob t.jobID
      inFlight := s.inFlight.erase (t, .released) }

def step : Action → CapacityScheduler
  | .ingest t => { s with pending := s.pending ++ [t], dequeued := t ::ₘ s.dequeued }
  | .sort sorted => if sorted.Perm s.pending then { s with pending := sorted } else s
  | .pick => if s.inFlight.card < cfg.workerCount then s.pickDispatchable cfg else s
  | .preempt order =>
    if preemption ∧ s.inFlight.card < cfg.workerCount ∧ order = s.running.map Prod.fst ∧
        s.pending.find? (s.canDispatch cfg) = none then s.tryPreempt cfg order
    else s
  | .advance t pc => if (t, pc) ∈ s.inFlight then s.advance t pc else s

def run (actions : List Action) : CapacityScheduler :=
  actions.foldl (step cfg preemption) {}

/-! ## What is asked of it -/

def totalWeight (ts : Multiset Task) : Int :=
  (ts.map fun t => (taskWeight t).toInt).sum

def jobs (ts : Multiset Task) : Multiset String :=
  (ts.map Task.jobID).filter (· ≠ "")

def handlers : Multiset Task :=
  (s.inFlight.filter (·.2 = .running)).map Prod.fst

structure Limited : Prop where
  weight : totalWeight s.handlers ≤ cfg.capacity.toInt
  jobs : (jobs s.handlers).Nodup
  once : s.executed ≤ s.dequeued

/-- The weight of a task cannot wrap the capacity check: there is one worker, or room above the capacity. -/
def Fits (t : Task) : Prop :=
  cfg.workerCount = 1 ∨ (taskWeight t).toInt + cfg.capacity.toInt < 2 ^ 63

variable {cfg : CapacitySchedulerConfig} {preemption : Bool} {s : CapacityScheduler} {t : Task}

theorem taskWeight_pos (t : Task) : 0 < (taskWeight t).toInt := by
  unfold taskWeight
  split
  · decide
  · next h => simpa [Int64.le_iff_toInt_le] using h

variable (ts : Multiset Task)

theorem totalWeight_nonneg : 0 ≤ totalWeight ts :=
  sum_nonneg (by simpa using fun t _ => (taskWeight_pos t).le)

@[simp] theorem totalWeight_cons : totalWeight (t ::ₘ ts) = (taskWeight t).toInt + totalWeight ts := by
  simp [totalWeight]

theorem totalWeight_le {ts us : Multiset Task} (h : ts ≤ us) : totalWeight ts ≤ totalWeight us := by
  obtain ⟨rest, rfl⟩ := Multiset.le_iff_exists_add.1 h
  have hnonneg := totalWeight_nonneg rest
  simpa [totalWeight, sum_add] using hnonneg

def holders (inFlight : Multiset (Task × Pc)) : Multiset Task :=
  (inFlight.filter (·.2 ≠ .released)).map Prod.fst

/-! ## The invariants -/

/-- The weight in use and the active jobs are those of the workers. -/
structure Limits (cfg : CapacitySchedulerConfig) (s : CapacityScheduler) : Prop where
  used : s.usedWeight.toInt = totalWeight (holders s.inFlight)
  bound : s.usedWeight ≤ cfg.capacity
  jobs : s.activeJobs.val = jobs (s.inFlight.map Prod.fst)
  fits : ∀ t ∈ s.pending, Fits cfg t
  conserved : s.pending + s.executed = s.dequeued

theorem toInt_usedWeight_add (h : Limits cfg s) (hfree : s.inFlight.card < cfg.workerCount) (ht : t ∈ s.pending) :
    (s.usedWeight + taskWeight t).toInt = s.usedWeight.toInt + (taskWeight t).toInt := by
  have hused := h.used
  have hpos := taskWeight_pos t
  have hnonneg := totalWeight_nonneg (holders s.inFlight)
  have hbound := Int64.le_iff_toInt_le.1 h.bound
  have hlt := (taskWeight t).toInt_lt
  rw [Int64.toInt_add, Int.bmod_eq_of_le (by omega)]
  cases h.fits t ht with
  | inl hone =>
    rw [hone, Nat.lt_one_iff, card_eq_zero] at hfree
    simp [hfree, holders, totalWeight] at hused
    omega
  | inr hroom => omega

theorem jobs_cons : jobs (t ::ₘ ts) = if t.jobID = "" then jobs ts else t.jobID ::ₘ jobs ts := by
  by_cases h : t.jobID = "" <;> simp [jobs, h]

theorem freeJob_val {ts : Multiset Task} (h : s.activeJobs.val = jobs (t ::ₘ ts)) : (s.freeJob t.jobID).val = jobs ts := by
  rw [jobs_cons] at h
  unfold freeJob
  split at h
  · next hjob => rwa [if_pos hjob]
  · next hjob => rw [if_neg hjob, Finset.erase_val, h, erase_cons_head]

theorem limits_start (h : Limits cfg s) (hfree : s.inFlight.card < cfg.workerCount) (ht : t ∈ s.pending)
    (hcan : s.canDispatch cfg t) : Limits cfg ({ s with pending := s.pending.erase t }.start t) := by
  simp only [canDispatch, Bool.and_eq_true, decide_eq_true_eq] at hcan
  refine ⟨?_, hcan.2, ?_, fun u hu => h.fits u (List.mem_of_mem_erase hu), ?_⟩
  · have hused := h.used
    simp only [start, toInt_usedWeight_add h hfree ht]
    simp [holders] at hused ⊢
    omega
  · have hjobs := h.jobs
    simp only [start, occupyJob, map_cons, jobs_cons, ← hjobs]
    split
    · rfl
    · next hjob => exact Finset.insert_val_of_notMem (by simpa [hjob] using hcan.1)
  · simp only [start, ← coe_erase, add_cons, ← cons_add]
    rw [cons_erase (by simpa using ht)]
    exact h.conserved

theorem limits_advance {pc : Pc} (h : Limits cfg s) (hmem : (t, pc) ∈ s.inFlight) : Limits cfg (s.advance t pc) := by
  obtain ⟨rest, hrest⟩ := exists_cons_of_mem hmem
  have hused := h.used
  have hjobs := h.jobs
  simp only [hrest, map_cons] at hused hjobs
  cases pc
  case picked | running =>
    exact ⟨by simpa [advance, hrest, holders] using hused, h.bound, by simpa [advance, hrest] using hjobs, h.fits,
      h.conserved⟩
  case returned =>
    have hnonneg := totalWeight_nonneg (holders rest)
    have hlt := s.usedWeight.toInt_lt
    have hbound := h.bound
    have hpos := taskWeight_pos t
    have hholders : totalWeight (holders ((t, .returned) ::ₘ rest)) =
        (taskWeight t).toInt + totalWeight (holders rest) := by simp [holders]
    have hsub : (s.usedWeight - taskWeight t).toInt = totalWeight (holders rest) := by
      rw [Int64.toInt_sub, Int.bmod_eq_of_le (by omega)] <;> omega
    refine ⟨?_, ?_, by simpa [advance, hrest] using hjobs, h.fits, h.conserved⟩
    · simpa [advance, hrest, holders] using hsub
    · rw [Int64.le_iff_toInt_le] at hbound ⊢
      show (s.usedWeight - taskWeight t).toInt ≤ _
      omega
  case released =>
    refine ⟨by simpa [advance, hrest, holders] using hused, h.bound, ?_, h.fits, h.conserved⟩
    simp only [advance, hrest, erase_cons_head]
    exact freeJob_val hjobs

theorem step_pick : s.step cfg preemption .pick = s ∨ ∃ t ∈ s.pending, s.canDispatch cfg t ∧
    s.inFlight.card < cfg.workerCount ∧
      s.step cfg preemption .pick = { s with pending := s.pending.erase t }.start t := by
  simp only [step, pickDispatchable]
  split
  · next hfree =>
    split
    · next t hfind => exact .inr ⟨t, List.mem_of_find?_eq_some hfind, List.find?_some hfind, hfree, rfl⟩
    · exact .inl rfl
  · exact .inl rfl

/-- The step lemma of the limits, for steps that preempt nothing. -/
theorem limits_step {a : Action} (h : Limits cfg s) (hfits : ∀ t, a = .ingest t → Fits cfg t)
    (hquiet : ∀ order, a = .preempt order → s.step cfg preemption a = s) : Limits cfg (s.step cfg preemption a) := by
  cases a with
  | ingest t =>
    refine ⟨h.used, h.bound, h.jobs, fun u hu => ?_, ?_⟩
    · cases List.mem_append.1 hu with
      | inl hu => exact h.fits u hu
      | inr hu => exact List.mem_singleton.1 hu ▸ hfits t rfl
    · simp only [step, ← h.conserved]
      rw [coe_eq_coe.2 (List.perm_append_singleton t s.pending), ← cons_coe, cons_add]
  | sort sorted =>
    simp only [step]
    split
    · next hperm => exact ⟨h.used, h.bound, h.jobs, fun u hu => h.fits u (hperm.mem_iff.1 hu),
        by rw [← h.conserved, ← coe_eq_coe.2 hperm]⟩
    · exact h
  | pick =>
    obtain heq | ⟨t, ht, hcan, hfree, heq⟩ := @step_pick cfg preemption s
    · rwa [heq]
    · rw [heq]
      exact limits_start h hfree ht hcan
  | preempt order => rwa [hquiet order rfl]
  | advance t pc =>
    simp only [step]
    split
    · next hmem => exact limits_advance h hmem
    · exact h

theorem limits_run (actions : List Action) (hfits : ∀ t, .ingest t ∈ actions → Fits cfg t) (h : Limits cfg s) :
    Limits cfg (actions.foldl (step cfg false) s) := by
  induction actions generalizing s with
  | nil => exact h
  | cons a actions ih =>
    refine ih (fun t ht => hfits t (.tail _ ht)) (limits_step h (fun t ht => hfits t (ht ▸ .head _)) ?_)
    rintro order rfl
    simp [step]

theorem limits_init (cfg : CapacitySchedulerConfig) : Limits cfg {} :=
  ⟨rfl, Int64.le_of_lt cfg.capacity_pos, rfl, by simp, rfl⟩

/-! ## Limits without preemption -/

theorem Limits.limited (h : Limits cfg s) : Limited cfg s where
  weight := by
    have hle : s.handlers ≤ holders s.inFlight :=
      map_le_map (monotone_filter_right _ fun w hw => by simp [hw])
    exact (totalWeight_le hle).trans (h.used ▸ Int64.le_iff_toInt_le.1 h.bound)
  jobs := nodup_of_le
    (filter_le_filter _ (map_le_map (map_le_map (filter_le _ _))))
    (show (CapacityScheduler.jobs _).Nodup from h.jobs ▸ s.activeJobs.nodup)
  once := h.conserved ▸ le_add_left _ _

def light : Task := { id := "light", weight := 1 }

def heavy : Task := { id := "heavy", weight := Int64.maxValue }

/-- Both tasks get in, one after the other. -/
def overfull : List Action :=
  [.ingest light, .pick, .advance light .picked, .ingest heavy, .pick, .advance heavy .picked]

theorem inFlight_overfull (h : 1 < cfg.workerCount) :
    (run cfg false overfull).inFlight = {(heavy, .running), (light, .running)} := by
  have hlight : (1 : Int64) ≤ cfg.capacity := cfg.capacity_pos
  have hheavy : Int64.minValue ≤ cfg.capacity := by
    rw [Int64.le_iff_toInt_le]
    exact cfg.capacity.le_toInt
  have hsum : (1 : Int64) + Int64.maxValue = Int64.minValue := by decide
  have hweights : taskWeight light = 1 ∧ taskWeight heavy = Int64.maxValue := by decide
  have hjobs : light.jobID = "" ∧ heavy.jobID = "" := by decide
  simp [run, overfull, step, pickDispatchable, canDispatch, start, advance, occupyJob, hlight, hheavy, hsum, hweights,
    hjobs, h, cfg.workerCount_pos]

/-- The limits hold in all runs without preemption exactly when there is one worker, and in every run whose weights
cannot wrap the capacity check. -/
theorem run_limited_iff (cfg : CapacitySchedulerConfig) :
    ((∀ actions, Limited cfg (run cfg false actions)) ↔ cfg.workerCount = 1) ∧
      ∀ actions, (∀ t, .ingest t ∈ actions → Fits cfg t) → Limited cfg (run cfg false actions) := by
  have hlimited actions (hfits : ∀ t, .ingest t ∈ actions → Fits cfg t) : Limited cfg (run cfg false actions) :=
    (limits_run actions hfits (limits_init cfg)).limited
  refine ⟨⟨fun h => ?_, fun hone actions => hlimited actions fun _ _ => .inl hone⟩, hlimited⟩
  by_contra hne
  have hpos := cfg.workerCount_pos
  have hweight := (h overfull).weight
  rw [handlers, inFlight_overfull (by omega)] at hweight
  exact absurd (Int.lt_of_le_of_lt hweight cfg.capacity.toInt_lt) (by decide)

def oneTwo : CapacitySchedulerConfig := ⟨1, 2, by decide, by decide⟩

/-- Capacity 1, two workers. -/
theorem not_limited_overfull : ¬ Limited oneTwo (run oneTwo false overfull) := by
  intro h
  exact absurd h.weight (by decide +kernel)

end CapacityScheduler

end LingVoice.Queue

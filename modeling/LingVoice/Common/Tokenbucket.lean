import Mathlib.Algebra.Group.Int.Defs
import Mathlib.Algebra.Group.Nat.Defs
import Mathlib.Data.List.Basic
import Mathlib.Tactic.SplitIfs

/-!
# Tokenbucket — the atomic token bucket (`pkg/common/limiter/tokenbucket/tokenbucket.go`)

Every `Acquire` moves the clock reading on and adds the refill of the time since, in thousandths of a token rounded
down.  What is rounded off is lost, and after a long time the product with the rate wraps.
-/

namespace LingVoice.Tokenbucket

/-- Tokens, rate and burst are in thousandths. -/
structure AtomicBucket where
  tokens : Int64
  rate : Int64
  burst : Int64
  lastNano : Int64
  deriving DecidableEq, Repr

def newAtomic (rate burst now : Int64) : AtomicBucket :=
  let burst := if burst ≤ 0 then rate else burst
  ⟨burst * 1000, rate * 1000, burst * 1000, now⟩

namespace AtomicBucket

def refill (b : AtomicBucket) (now : Int64) : Int64 :=
  let elapsed := now - b.lastNano
  let refill := elapsed * b.rate / 1000000000
  if 0 < elapsed ∧ 0 < refill then refill else 0

/-- The first half of `Acquire`. -/
def refilled (b : AtomicBucket) (now : Int64) : AtomicBucket :=
  let newTokens := b.tokens + b.refill now
  { b with
    lastNano := if 0 < now - b.lastNano then now else b.lastNano
    tokens := if 0 < b.refill now ∧ b.burst < newTokens then b.burst else newTokens }

/-- One `Acquire` with no other in between: the bucket after it, and whether it succeeded. -/
def acquire (b : AtomicBucket) (now : Int64) : AtomicBucket × Bool :=
  let b := b.refilled now
  if b.tokens < 1000 then (b, false) else ({ b with tokens := b.tokens - 1000 }, true)

end AtomicBucket

/-- What the time between two clock readings is worth, in thousandths of a token: wrapped to 64 bits and rounded
down. -/
def worth (rate last now : Int) : Int :=
  max 0 (((now - last) * (rate * 1000)).bmod (2 ^ 64) / 10 ^ 9)

/-- The readings, the latest one first: each stretch between two of them counts by itself. -/
def worths (rate : Int) : List Int64 → Int
  | now :: last :: earlier => worth rate last.toInt now.toInt + worths rate (last :: earlier)
  | _ => 0

theorem worth_bounds (rate last now : Int) : 0 ≤ worth rate last now ∧ worth rate last now < 2 ^ 34 := by
  have hlt := Int.bmod_lt (x := (now - last) * (rate * 1000)) (m := 2 ^ 64) (by decide)
  unfold worth
  omega

/-- The code computes it while the clock goes on and does not read below zero. -/
theorem AtomicBucket.refill_eq {b : AtomicBucket} {rate : Int} (hrate : b.rate.toInt = rate * 1000) {now : Int64}
    (hlast : 0 ≤ b.lastNano) (hnow : b.lastNano < now) :
    0 < now - b.lastNano ∧ (b.refill now).toInt = worth rate b.lastNano.toInt now.toInt := by
  rw [Int64.le_iff_toInt_le] at hlast
  rw [Int64.lt_iff_toInt_lt] at hnow
  have hlt := now.toInt_lt
  have helapsed : (now - b.lastNano).toInt = now.toInt - b.lastNano.toInt := by
    rw [Int64.toInt_sub, Int.bmod_eq_of_le] <;> simp at * <;> omega
  have hpos : 0 < now - b.lastNano := by
    rw [Int64.lt_iff_toInt_lt, helapsed]
    simp
    omega
  refine ⟨hpos, ?_⟩
  have hquotient (x : Int64) : (if 0 < x / 1000000000 then x / 1000000000 else 0).toInt = max 0 (x.toInt / 10 ^ 9) := by
    have hlo := x.le_toInt
    have hhi := x.toInt_lt
    have hdiv : (x / 1000000000).toInt = x.toInt.tdiv 1000000000 := by
      have habs : (x.toInt.tdiv 1000000000).natAbs = x.toInt.natAbs / 1000000000 := Int.natAbs_tdiv _ _
      rw [Int64.toInt_div, Int.bmod_eq_of_le] <;> simp <;> omega
    have hsign := Int.tdiv_eq_ediv (a := x.toInt) (b := 1000000000)
    rw [show Int.sign 1000000000 = 1 from rfl] at hsign
    simp only [apply_ite Int64.toInt, Int64.lt_iff_toInt_lt, hdiv, Int64.toInt_zero]
    split_ifs at * <;> omega
  rw [AtomicBucket.refill]
  simp only [hpos, true_and]
  rw [hquotient, Int64.toInt_mul, helapsed, hrate, worth]

/-- A bucket, the time of the last success or of the construction, the tokens left then, and the clock readings from
then on, the latest one first. -/
structure Watched where
  bucket : AtomicBucket
  since : Int64
  left : Int64
  readings : List Int64

namespace Watched

def new (rate burst now : Int64) : Watched :=
  let bucket := newAtomic rate burst now
  ⟨bucket, now, bucket.tokens, [now]⟩

def step (w : Watched) (now : Int64) : Watched :=
  match w.bucket.acquire now with
  | (bucket, true) => ⟨bucket, now, bucket.tokens, [now]⟩
  | (bucket, false) => { w with bucket := bucket, readings := now :: w.readings }

/-- The call comes at least `10^9 / rate + 10^6` nanoseconds after the last success. -/
def Late (w : Watched) (rate now : Int64) : Prop :=
  10 ^ 9 ≤ (now.toInt - w.since.toInt - 10 ^ 6) * rate.toInt

/-- The thousandths left at the last success and what the clock readings since are worth. -/
def funds (w : Watched) (rate now : Int64) : Int :=
  w.left.toInt + worths rate.toInt (now :: w.readings)

structure Sound (rate : Int64) (w : Watched) : Prop where
  tokens : w.bucket.tokens.toInt = w.left.toInt + worths rate.toInt w.readings
  nonneg : 0 ≤ w.bucket.tokens.toInt
  capped : w.bucket.tokens.toInt ≤ w.bucket.burst.toInt
  burst : 1000 ≤ w.bucket.burst.toInt ∧ w.bucket.burst.toInt < 2 ^ 31 * 1000
  rate : w.bucket.rate.toInt = rate.toInt * 1000
  last : ∃ earlier, w.readings = w.bucket.lastNano :: earlier
  clock : 0 ≤ w.bucket.lastNano

section Acquire

variable {w : Watched} {rate now : Int64} (h : w.Sound rate) (hnow : w.bucket.lastNano < now)
include h hnow

theorem Sound.refilled :
    (w.bucket.refilled now).lastNano = now ∧ 0 ≤ w.funds rate now ∧
      (w.bucket.refilled now).tokens.toInt = min (w.funds rate now) w.bucket.burst.toInt := by
  obtain ⟨helapsed, hrefill⟩ := AtomicBucket.refill_eq h.rate h.clock hnow
  obtain ⟨hlo, hhi⟩ := worth_bounds rate.toInt w.bucket.lastNano.toInt now.toInt
  obtain ⟨htokens, hnonneg, hcapped, hburst, -, hlast, -⟩ := h
  have hfunds : w.funds rate now = w.bucket.tokens.toInt + (w.bucket.refill now).toInt := by
    obtain ⟨earlier, hreadings⟩ := hlast
    rw [funds, hreadings, worths, ← hreadings, hrefill, htokens]
    omega
  have hsum : (w.bucket.tokens + w.bucket.refill now).toInt = w.funds rate now := by
    rw [Int64.toInt_add, Int.bmod_eq_of_le, hfunds] <;> simp <;> omega
  refine ⟨if_pos helapsed, ?_⟩
  simp only [AtomicBucket.refilled, Int64.lt_iff_toInt_lt, hsum, Int64.toInt_zero]
  split_ifs <;> omega

theorem Sound.acquire_eq : w.bucket.acquire now =
    if w.funds rate now < 1000 then (w.bucket.refilled now, false)
    else ({ w.bucket.refilled now with tokens := (w.bucket.refilled now).tokens - 1000 }, true) := by
  have hburst := h.burst.1
  have hiff : (w.bucket.refilled now).tokens < 1000 ↔ w.funds rate now < 1000 := by
    rw [Int64.lt_iff_toInt_lt, (h.refilled hnow).2.2, show (1000 : Int64).toInt = 1000 by decide]
    omega
  simp only [AtomicBucket.acquire, hiff]

theorem Sound.step : (w.step now).Sound rate ∧ (w.step now).bucket.lastNano = now := by
  obtain ⟨hlast, hnonneg, hrefilled⟩ := h.refilled hnow
  have hreadings (earlier : List Int64) : ∃ rest, now :: earlier = (w.bucket.refilled now).lastNano :: rest :=
    ⟨earlier, by rw [hlast]⟩
  have hburst := h.burst
  have hclock : 0 ≤ (w.bucket.refilled now).lastNano := by
    rw [hlast]
    exact Int64.le_trans h.clock (Int64.le_of_lt hnow)
  unfold Watched.step
  rw [h.acquire_eq hnow]
  split_ifs with hshort
  · rw [Int.min_eq_left (by omega)] at hrefilled
    have hcapped : w.funds rate now ≤ w.bucket.burst.toInt := by omega
    exact ⟨⟨hrefilled, hrefilled ▸ hnonneg, hrefilled ▸ hcapped, hburst, h.rate, hreadings _, hclock⟩, hlast⟩
  · have htaken : ((w.bucket.refilled now).tokens - 1000).toInt = min (w.funds rate now) w.bucket.burst.toInt - 1000 := by
      rw [Int64.toInt_sub, Int.bmod_eq_of_le, hrefilled] <;> simp <;> omega
    have hcapped : min (w.funds rate now) w.bucket.burst.toInt - 1000 ≤ w.bucket.burst.toInt := by omega
    have hleft : 0 ≤ min (w.funds rate now) w.bucket.burst.toInt - 1000 := by omega
    exact ⟨⟨by simp [worths], htaken ▸ hleft, htaken ▸ hcapped, hburst, h.rate, hreadings _, hclock⟩, hlast⟩

end Acquire

/-- The run lemma. -/
theorem Sound.foldl {w : Watched} {rate now : Int64} (h : w.Sound rate) {past : List Int64}
    (hclock : (w.bucket.lastNano :: past ++ [now]).Pairwise (· < ·)) :
    (past.foldl Watched.step w).Sound rate ∧ (past.foldl Watched.step w).bucket.lastNano < now := by
  induction past generalizing w with
  | nil => exact ⟨h, by simpa using hclock⟩
  | cons reading past ih =>
    obtain ⟨hlater, hrest⟩ := List.pairwise_cons.1 hclock
    obtain ⟨hsound, hlast⟩ := h.step (hlater reading (.head _))
    exact ih hsound (by rwa [hlast])

section Run

variable {rate burst start : Int64} (hrate : 1 ≤ rate.toInt ∧ rate.toInt < 2 ^ 31)
  (hburst : 1 ≤ burst.toInt ∧ burst.toInt < 2 ^ 31) (hstart : 0 ≤ start)
include hrate hburst hstart

theorem sound_new : (new rate burst start).Sound rate := by
  have hthousand (x : Int64) (hx : 1 ≤ x.toInt ∧ x.toInt < 2 ^ 31) : (x * 1000).toInt = x.toInt * 1000 := by
    rw [Int64.toInt_mul, Int.bmod_eq_of_le] <;> simp <;> omega
  have hnot : ¬ burst ≤ 0 := by
    rw [Int64.le_iff_toInt_le]; simp; omega
  simp only [new, newAtomic, hnot, ↓reduceIte]
  constructor <;> simp [hthousand _ hburst, hthousand _ hrate, worths, hstart] <;> omega

/-- A late `Acquire` succeeds exactly when the tokens left at the last success and what the stretches between the clock
readings since are worth, each of them rounded down and wrapped by itself, come to a token. -/
theorem acquire_late_iff {past : List Int64} {now : Int64} (hclock : (start :: past ++ [now]).Pairwise (· < ·)) :
    let w := past.foldl step (new rate burst start)
    (w.Late rate now → (w.bucket.acquire now).2 = true) ↔ (w.Late rate now → 1000 ≤ w.funds rate now) := by
  obtain ⟨hsound, hnow⟩ := (sound_new hrate hburst hstart).foldl hclock
  intro w
  rw [hsound.acquire_eq hnow]
  grind

end Run

theorem acquire_late_second :
    let w := [1, 400000001].foldl step (new 1 1 0)
    w.Late 1 1001000001 ∧ (w.bucket.acquire 1001000001).2 = true :=
  have hlate : ([1, 400000001].foldl step (new 1 1 0)).Late 1 1001000001 := by
    unfold Late; decide
  ⟨hlate, (acquire_late_iff (by decide) (by decide) (by decide) (by decide)).2 (fun _ => by decide) hlate⟩

/-- After two hours and a half at a thousand tokens a second the refill wraps, and the `Acquire` fails. -/
theorem not_acquire_late_wrapped :
    let w := [1].foldl step (new 1000 1 0)
    w.Late 1000 9223372036856 ∧ (w.bucket.acquire 9223372036856).2 = false := by
  unfold Late; decide

end Watched
end LingVoice.Tokenbucket

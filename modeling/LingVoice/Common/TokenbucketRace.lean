import Mathlib.Algebra.Order.BigOperators.Group.List
import Mathlib.Algebra.Order.Ring.Int
import Mathlib.Tactic.Ring
import LingVoice.Common.Tokenbucket

/-!
# TokenbucketRace — `Acquire` from several goroutines

Nothing is locked: between any two atomic operations of a call, others may come.  A goroutine that has moved the clock
reading on owes the bucket the refill of that time until it has added it, and a failed compare-and-swap takes nothing.
So the tokens, those that are owed and those that were taken never come to more than the time has paid for.
-/

namespace LingVoice.Tokenbucket

/-! ## The operations -/

/-- Where a goroutine stands in `Acquire`, with its local variables. -/
inductive Goroutine
  | clock
  | loadLast (now : Int64)
  | swapLast (now last : Int64)
  | addTokens (refill : Int64)
  | cap (newTokens : Int64)
  | loadTokens
  | swapTokens (t : Int64)

/-- The next atomic operation: the bucket and the goroutine after it, and whether it got a token.  A goroutine that
returns may call again. -/
def Goroutine.step (b : AtomicBucket) (reading : Int64) : Goroutine → AtomicBucket × Goroutine × Bool
  | clock => (b, loadLast reading, false)
  | loadLast now => (b, swapLast now b.lastNano, false)
  | swapLast now last =>
    let elapsed := now - last
    if 0 < elapsed ∧ b.lastNano = last then
      let refill := elapsed * b.rate / 1000000000
      ({ b with lastNano := now }, if 0 < refill then addTokens refill else loadTokens, false)
    else
      (b, loadTokens, false)
  | addTokens refill =>
    let newTokens := b.tokens + refill
    ({ b with tokens := newTokens }, if b.burst < newTokens then cap newTokens else loadTokens, false)
  | cap newTokens => (if b.tokens = newTokens then { b with tokens := b.burst } else b, loadTokens, false)
  | loadTokens => (b, if b.tokens < 1000 then clock else swapTokens b.tokens, false)
  | swapTokens t => if b.tokens = t then ({ b with tokens := t - 1000 }, clock, true) else (b, loadTokens, false)

structure Contended where
  bucket : AtomicBucket
  goroutines : List Goroutine
  granted : Nat := 0

/-- The goroutine that is next, and what the clock says then. -/
def Contended.step (s : Contended) (a : Nat × Int64) : Contended :=
  match s.goroutines[a.1]? with
  | none => s
  | some g =>
    let r := g.step s.bucket a.2
    ⟨r.1, s.goroutines.set a.1 r.2.1, s.granted + if r.2.2 then 1 else 0⟩

/-! ## What one operation keeps -/

/-- A refill that the clock has paid for and that is not in the bucket yet. -/
def Goroutine.owed : Goroutine → Int
  | addTokens refill => refill.toInt
  | _ => 0

/-- What can be taken while the clock stands still, less what the clock has paid.  Additions that wrap leave a negative
number of tokens. -/
def AtomicBucket.funds (b : AtomicBucket) : Int :=
  max b.tokens.toInt 0 * 10 ^ 9 - b.lastNano.toInt * b.rate.toInt

section Step

variable (rate burst : Int64) (latest : Int)

def Goroutine.Ready : Goroutine → Prop
  | loadLast now => 0 ≤ now.toInt ∧ now.toInt ≤ latest
  | swapLast now _ => 0 ≤ now.toInt ∧ now.toInt ≤ latest
  | addTokens refill => 0 < refill
  | cap newTokens => burst < newTokens
  | swapTokens t => 1000 ≤ t.toInt
  | _ => True

structure AtomicBucket.Ready (b : AtomicBucket) : Prop where
  rate : b.rate = rate
  burst : b.burst = burst
  lastNano : 0 ≤ b.lastNano.toInt ∧ b.lastNano.toInt ≤ latest

variable {rate burst latest} {b : AtomicBucket} {g : Goroutine}

theorem Goroutine.Ready.owed_nonneg (hg : g.Ready burst latest) : 0 ≤ g.owed := by
  cases g with
  | addTokens refill => exact Int.le_of_lt (Int64.lt_iff_toInt_lt.1 hg)
  | _ => exact le_rfl

/-- The product only wraps downwards, and the quotient is rounded down. -/
theorem toInt_refill_le {elapsed : Int64} (helapsed : 0 < elapsed.toInt) (hrate : 0 ≤ rate.toInt)
    (hpos : 0 < elapsed * rate / 1000000000) :
    (elapsed * rate / 1000000000).toInt * 10 ^ 9 ≤ elapsed.toInt * rate.toInt := by
  have hproduct := Int.mul_nonneg helapsed.le hrate
  have hwrapped : (elapsed * rate).toInt ≤ elapsed.toInt * rate.toInt := by
    rw [Int64.toInt_mul, Int.bmod_def]
    omega
  have hdiv : (elapsed * rate / 1000000000).toInt = (elapsed * rate).toInt.tdiv 1000000000 :=
    Int64.toInt_div_of_ne_right _ _ (by decide)
  have hrounded := Int.tmod_add_mul_tdiv (elapsed * rate).toInt 1000000000
  have hmod := Int.lt_tmod_of_pos (elapsed * rate).toInt (by decide : (0 : Int) < 1000000000)
  have hmod' := @Int.tmod_nonneg (elapsed * rate).toInt 1000000000
  rw [Int64.lt_iff_toInt_lt, hdiv, Int64.toInt_zero] at hpos
  omega

/-- What is in the bucket and owed to it pays for the token that is taken. -/
theorem Goroutine.Ready.step (hg : g.Ready burst latest) (hb : b.Ready rate burst latest) (hrate : 0 ≤ rate.toInt)
    {reading : Int64} (hreading : 0 ≤ reading.toInt ∧ reading.toInt ≤ latest) :
    let r := g.step b reading
    r.2.1.Ready burst latest ∧ r.1.Ready rate burst latest ∧
      r.1.funds + (r.2.1.owed + if r.2.2 then 1000 else 0) * 10 ^ 9 ≤ b.funds + g.owed * 10 ^ 9 := by
  obtain ⟨rfl, rfl, hlast⟩ := hb
  simp only [AtomicBucket.funds]
  cases g with
  | clock => exact ⟨hreading, ⟨rfl, rfl, hlast⟩, le_rfl⟩
  | loadLast now => exact ⟨hg, ⟨rfl, rfl, hlast⟩, le_rfl⟩
  | swapLast now last =>
    by_cases hswap : 0 < now - last ∧ b.lastNano = last
    · -- the reading that was loaded is still the bucket's, so the time since is paid for once
      obtain ⟨hpos, rfl⟩ := hswap
      have helapsed : (now - b.lastNano).toInt = now.toInt - b.lastNano.toInt := by
        have := now.toInt_lt
        have := b.lastNano.toInt_lt
        have : 0 ≤ now.toInt := hg.1
        rw [Int64.toInt_sub]
        exact Int.bmod_eq_of_le (by omega) (by omega)
      rw [Int64.lt_iff_toInt_lt, Int64.toInt_zero] at hpos
      have hrefill := toInt_refill_le hpos hrate
      have hproduct := Int.mul_nonneg hpos.le hrate
      rw [helapsed, Int.sub_mul] at hrefill hproduct
      grind [Goroutine.step, Goroutine.Ready, owed, AtomicBucket.Ready]
    · simp only [Goroutine.step, if_neg hswap]
      exact ⟨trivial, ⟨rfl, rfl, hlast⟩, le_rfl⟩
  | addTokens refill =>
    have hadd : max (b.tokens + refill).toInt 0 ≤ max b.tokens.toInt 0 + refill.toInt := by
      have := b.tokens.le_toInt
      have hpos : 0 < refill.toInt := Int64.lt_iff_toInt_lt.1 hg
      rw [Int64.toInt_add, Int.bmod_def]
      omega
    grind [Goroutine.step, Goroutine.Ready, owed, AtomicBucket.Ready]
  | cap newTokens =>
    have hcap := Int64.lt_iff_toInt_lt.1 hg
    grind [Goroutine.step, Goroutine.Ready, owed, AtomicBucket.Ready]
  | loadTokens =>
    have henough := @Int64.lt_iff_toInt_lt b.tokens 1000
    grind [Goroutine.step, Goroutine.Ready, owed, AtomicBucket.Ready]
  | swapTokens t =>
    have henough : 1000 ≤ t.toInt := hg
    have htaken : (t - 1000).toInt = t.toInt - 1000 := by
      have := t.toInt_lt
      rw [Int64.toInt_sub]
      exact Int.bmod_eq_of_le (by simp; omega) (by simp; omega)
    grind [Goroutine.step, Goroutine.Ready, owed, AtomicBucket.Ready]

end Step

/-! ## Whole runs -/

namespace Contended

/-- The tokens that were taken are covered by the bucket at the beginning and the time since. -/
structure Covered (b : AtomicBucket) (latest : Int) (s : Contended) : Prop where
  bucket : s.bucket.Ready b.rate b.burst latest
  goroutines : ∀ g ∈ s.goroutines, g.Ready b.burst latest
  granted : s.bucket.funds + ((s.goroutines.map Goroutine.owed).sum + s.granted * 1000) * 10 ^ 9 ≤ b.funds

variable {b : AtomicBucket} {latest : Int}

theorem Covered.step {s : Contended} (h : s.Covered b latest) (hrate : 0 ≤ b.rate.toInt) {a : Nat × Int64}
    (hreading : 0 ≤ a.2.toInt ∧ a.2.toInt ≤ latest) : (s.step a).Covered b latest := by
  unfold Contended.step
  split
  · exact h
  · next g hg =>
    obtain ⟨hi, hget⟩ := List.getElem?_eq_some_iff.1 hg
    obtain ⟨hready, hbucket, hfunds⟩ := (h.goroutines g (List.mem_of_getElem? hg)).step h.bucket hrate hreading
    refine ⟨hbucket, fun g' hg' => ?_, ?_⟩
    · rcases List.mem_or_eq_of_mem_set hg' with hold | rfl
      · exact h.goroutines g' hold
      · exact hready
    · have hgranted := h.granted
      rw [List.map_set, List.sum_set', dif_pos (by simpa using hi), List.getElem_map, hget]
      grind

/-- Whatever the interleaving, the calls that succeed until a time `latest` take no more than the tokens that were in
the bucket, when nobody was in a call, and those of the time since. -/
theorem granted_le (hrate : 0 ≤ b.rate.toInt) (hlast : 0 ≤ b.lastNano.toInt ∧ b.lastNano.toInt ≤ latest) (callers : Nat)
    {steps : List (Nat × Int64)} (hclock : ∀ a ∈ steps, 0 ≤ a.2.toInt ∧ a.2.toInt ≤ latest) :
    (steps.foldl step ⟨b, List.replicate callers .clock, 0⟩).granted * 1000 * 10 ^ 9 ≤
      max b.tokens.toInt 0 * 10 ^ 9 + (latest - b.lastNano.toInt) * b.rate.toInt := by
  have hcovered : (steps.foldl step ⟨b, List.replicate callers .clock, 0⟩).Covered b latest := by
    refine List.foldlRecOn steps step ⟨⟨rfl, rfl, hlast⟩, fun g hg => ?_, ?_⟩ fun s h a ha => h.step hrate (hclock a ha)
    · rw [List.eq_of_mem_replicate hg]
      trivial
    · simp [Goroutine.owed]
  obtain ⟨⟨hsame, -, -, hlater⟩, hready, hgranted⟩ := hcovered
  -- neither what is owed nor what is left is negative
  have howed := List.sum_nonneg (List.forall_mem_map.2 fun g hg => (hready g hg).owed_nonneg)
  have htime := Int.mul_le_mul_of_nonneg_right hlater hrate
  rw [AtomicBucket.funds, AtomicBucket.funds, hsame] at hgranted
  grind

/-- Two goroutines take their steps in turn and race for one token. -/
theorem granted_le_race :
    let b := newAtomic 1 1 0
    let s := ((List.range 12).map fun i => (i % 2, (5 : Int64))).foldl step ⟨b, List.replicate 2 .clock, 0⟩
    s.granted = 1 ∧ s.granted * 1000 * 10 ^ 9 ≤ max b.tokens.toInt 0 * 10 ^ 9 + (5 - b.lastNano.toInt) * b.rate.toInt :=
  ⟨by decide +kernel, granted_le (by decide) (by decide) 2 (by decide)⟩

end Contended
end LingVoice.Tokenbucket

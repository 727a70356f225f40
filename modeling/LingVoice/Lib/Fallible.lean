import LingVoice.Lib.ByteReader
import Mathlib.Data.List.Induction

/-!
# Fallible — machines that answer every input or fail

A machine is a function `step : σ → ι → Except ε (σ × ο)`.  `run` feeds a list of inputs until one of them
fails.  A machine without answers, `f : σ → ι → Except ε σ`, is run by `List.foldlM`.
-/

namespace LingVoice.Lib

namespace Fallible

variable {ε σ τ ι ο : Type}

/-- Feed the inputs in order; the last state and the answers, or the first failure. -/
def run (step : σ → ι → Except ε (σ × ο)) : σ → List ι → Except ε (σ × List ο)
  | s, [] => .ok (s, [])
  | s, i :: rest => do
      let (s, o) ← step s i
      let (s, os) ← run step s rest
      return (s, o :: os)

variable {step : σ → ι → Except ε (σ × ο)}

@[simp] theorem run_nil (s : σ) : run step s [] = .ok (s, []) :=
  rfl

variable {s s' : σ} {i : ι} {os : List ο} {before : List ι}

theorem run_cons_eq_ok {rest : List ι} :
    run step s (i :: rest) = .ok (s', os) ↔
      ∃ s₁ o os', step s i = .ok (s₁, o) ∧ run step s₁ rest = .ok (s', os') ∧ os = o :: os' := by
  rw [run, bind_eq_ok]
  constructor
  · rintro ⟨⟨s₁, o⟩, hone, hrest⟩
    rcases bind_eq_ok.1 hrest with ⟨⟨s₂, os'⟩, hrun, hpure⟩
    obtain ⟨rfl, rfl⟩ : s₂ = s' ∧ o :: os' = os := by
      simpa [pure, Except.pure] using hpure
    exact ⟨s₁, o, os', hone, hrun, rfl⟩
  · rintro ⟨s₁, o, os', hone, hrun, rfl⟩
    exact ⟨(s₁, o), hone, bind_eq_ok.2 ⟨(s', os'), hrun, rfl⟩⟩

theorem run_append_eq_ok {after : List ι} :
    run step s (before ++ after) = .ok (s', os) ↔
      ∃ s₁ os₁ os₂, run step s before = .ok (s₁, os₁) ∧ run step s₁ after = .ok (s', os₂) ∧ os = os₁ ++ os₂ := by
  induction before generalizing s os with
  | nil =>
    constructor
    · intro h
      exact ⟨s, [], os, rfl, h, rfl⟩
    · rintro ⟨s₁, os₁, os₂, hnil, h, rfl⟩
      obtain ⟨rfl, rfl⟩ : s = s₁ ∧ [] = os₁ := by simpa using hnil
      exact h
  | cons i before ih =>
    rw [List.cons_append, run_cons_eq_ok]
    constructor
    · rintro ⟨s₁, o, os', hone, hrest, rfl⟩
      rcases ih.1 hrest with ⟨s₂, os₁, os₂, hbefore, hafter, rfl⟩
      exact ⟨s₂, o :: os₁, os₂, run_cons_eq_ok.2 ⟨s₁, o, os₁, hone, hbefore, rfl⟩, hafter, rfl⟩
    · rintro ⟨s₂, os₁, os₂, hbefore, hafter, rfl⟩
      rcases run_cons_eq_ok.1 hbefore with ⟨s₁, o, os', hone, hrest, rfl⟩
      exact ⟨s₁, o, os' ++ os₂, hone, ih.2 ⟨s₂, os', os₂, hrest, hafter, rfl⟩, rfl⟩

theorem run_concat_eq_ok :
    run step s (before ++ [i]) = .ok (s', os) ↔
      ∃ s₁ os₁ o, run step s before = .ok (s₁, os₁) ∧ step s₁ i = .ok (s', o) ∧ os = os₁ ++ [o] := by
  rw [run_append_eq_ok]
  constructor
  · rintro ⟨s₁, os₁, os₂, hbefore, hlast, rfl⟩
    rcases run_cons_eq_ok.1 hlast with ⟨s₂, o, os', hone, hnil, rfl⟩
    obtain ⟨rfl, rfl⟩ : s₂ = s' ∧ [] = os' := by simpa using hnil
    exact ⟨s₁, os₁, o, hbefore, hone, rfl⟩
  · rintro ⟨s₁, os₁, o, hbefore, hone, rfl⟩
    exact ⟨s₁, os₁, [o], hbefore, run_cons_eq_ok.2 ⟨s', o, [], hone, rfl, rfl⟩, rfl⟩

/-- What every step keeps of the inputs so far and the state, holds at the end of a run. -/
@[elab_as_elim] theorem run_history {Inv : List ι → σ → Prop}
    (hstep : ∀ past i s s' o, Inv past s → step s i = .ok (s', o) → Inv (past ++ [i]) s')
    {s s' : σ} (hs : Inv [] s) {inputs : List ι} {os : List ο} (hrun : run step s inputs = .ok (s', os)) :
    Inv inputs s' := by
  induction inputs using List.reverseRecOn generalizing s' os with
  | nil =>
    obtain ⟨rfl, _⟩ : s = s' ∧ [] = os := by simpa using hrun
    exact hs
  | append_singleton past i ih =>
    rcases run_concat_eq_ok.1 hrun with ⟨s₁, os₁, o, hpast, hone, -⟩
    exact hstep past i s₁ s' o (ih hpast) hone

/-- The rule for a fact about the state alone. -/
@[elab_as_elim] theorem run_invariant {Inv : σ → Prop} (hstep : ∀ i s s' o, Inv s → step s i = .ok (s', o) → Inv s')
    {s s' : σ} (hs : Inv s) {inputs : List ι} {os : List ο} (hrun : run step s inputs = .ok (s', os)) : Inv s' := by
  exact run_history (fun _ i s s' o (hs : Inv s) hone => hstep i s s' o hs hone) hs hrun

/-- A machine with history variables goes along with the machine that it forgets them for. -/
theorem run_map {step' : τ → ι → Except ε (τ × ο)} (forget : τ → σ)
    (hstep : ∀ t i, (step' t i).map (Prod.map forget id) = step (forget t) i) (t : τ) (inputs : List ι) :
    (run step' t inputs).map (Prod.map forget id) = run step (forget t) inputs := by
  induction inputs generalizing t with
  | nil => rfl
  | cons i rest ih =>
    have hone := hstep t i
    rw [run, run, ← hone]
    cases hnext : step' t i with
    | error e => rfl
    | ok next =>
      have hrest := ih next.1
      simp only [bind, Except.bind, Except.map, Prod.map, id]
      rw [← hrest]
      cases run step' next.1 rest with
      | error e | ok last => rfl

/-! ## Folds -/

section Fold

variable {f : σ → ι → Except ε σ} {Inv : List ι → σ → Prop} {s s' : σ} {inputs : List ι}

theorem foldlM_concat_eq_ok {i : ι} :
    (inputs ++ [i]).foldlM f s = .ok s' ↔ ∃ s₁, inputs.foldlM f s = .ok s₁ ∧ f s₁ i = .ok s' := by
  rw [List.foldlM_append, bind_eq_ok]
  simp

/-- What every step keeps of the inputs so far and the state, holds at the end of a fold that has not failed. -/
@[elab_as_elim] theorem foldlM_history (hstep : ∀ past i s s', Inv past s → f s i = .ok s' → Inv (past ++ [i]) s') (hs : Inv [] s)
    (h : inputs.foldlM f s = .ok s') : Inv inputs s' := by
  induction inputs using List.reverseRecOn generalizing s' with
  | nil =>
    obtain rfl : s = s' := by simpa [pure, Except.pure] using h
    exact hs
  | append_singleton past i ih =>
    obtain ⟨s₁, hpast, hone⟩ := foldlM_concat_eq_ok.1 h
    exact hstep past i s₁ s' (ih hpast) hone

end Fold

end Fallible
end LingVoice.Lib

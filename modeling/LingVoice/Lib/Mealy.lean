import Mathlib.Data.List.Induction

/-!
# Mealy — machines that answer every input

A machine is a function `step : σ → ι → σ × ο`.  `run` feeds a list of inputs and collects the answers.
-/

namespace LingVoice.Lib.Mealy

variable {σ ι ο : Type}

/-- Feed the inputs in order; the last state and the answers. -/
def run (step : σ → ι → σ × ο) : σ → List ι → σ × List ο
  | s, [] => (s, [])
  | s, i :: rest => ((run step (step s i).1 rest).1, (step s i).2 :: (run step (step s i).1 rest).2)

section Run

variable (step : σ → ι → σ × ο)

@[simp] theorem run_nil (s : σ) : run step s [] = (s, []) :=
  rfl

@[simp] theorem run_cons (s : σ) (i : ι) (rest : List ι) :
    run step s (i :: rest) = ((run step (step s i).1 rest).1, (step s i).2 :: (run step (step s i).1 rest).2) :=
  rfl

theorem run_append (s : σ) (before after : List ι) :
    run step s (before ++ after) =
      ((run step (run step s before).1 after).1,
        (run step s before).2 ++ (run step (run step s before).1 after).2) := by
  induction before generalizing s with
  | nil => rfl
  | cons i rest ih => simp only [List.cons_append, run_cons, ih]

theorem length_run (s : σ) (inputs : List ι) : (run step s inputs).2.length = inputs.length := by
  induction inputs generalizing s with
  | nil => rfl
  | cons i rest ih => rw [run_cons, List.length_cons, ih, List.length_cons]

theorem run_map_inputs {κ : Type} (f : κ → ι) (s : σ) (inputs : List κ) :
    run step s (inputs.map f) = run (fun s i => step s (f i)) s inputs := by
  induction inputs generalizing s with
  | nil => rfl
  | cons i rest ih => rw [List.map_cons, run_cons, run_cons, ih]

end Run

variable {step : σ → ι → σ × ο}

/-- What every step keeps of the inputs so far and the state, holds at every point of a run. -/
theorem run_history {Inv : List ι → σ → Prop} {inputs : List ι}
    (hstep : ∀ past i after s, inputs = past ++ i :: after → Inv past s → Inv (past ++ [i]) (step s i).1)
    {s : σ} (hs : Inv [] s) (past after : List ι) (hinputs : inputs = past ++ after) :
    Inv past (run step s past).1 := by
  induction past using List.reverseRecOn generalizing after with
  | nil => exact hs
  | append_singleton past i ih =>
    rw [List.append_assoc, List.singleton_append] at hinputs
    rw [run_append]
    exact hstep past i after _ hinputs (ih (i :: after) hinputs)

/-- What every step keeps of the answers so far and the state, holds after every run. -/
@[elab_as_elim] theorem run_answers {Inv : List ο → σ → Prop}
    (hstep : ∀ past s i, Inv past s → Inv (past ++ [(step s i).2]) (step s i).1) {s : σ} (hs : Inv [] s)
    (inputs : List ι) : Inv (run step s inputs).2 (run step s inputs).1 := by
  induction inputs using List.reverseRecOn with
  | nil => exact hs
  | append_singleton inputs i ih =>
    rw [run_append]
    exact hstep _ _ i ih

/-- A machine whose steps are those of another one, seen through `view`, runs as the other one does. -/
theorem run_map {τ : Type} {step' : τ → ι → τ × ο} (view : τ → σ)
    (hstep : ∀ t i, step (view t) i = (view (step' t i).1, (step' t i).2)) (t : τ) (inputs : List ι) :
    run step (view t) inputs = (view (run step' t inputs).1, (run step' t inputs).2) := by
  induction inputs generalizing t with
  | nil => rfl
  | cons i rest ih => rw [run_cons, run_cons, hstep t i, ih (step' t i).1]

section Past

variable {step : σ → ι → σ} {s : σ} {I P : σ → Prop} {G : σ → ι → Prop}

/-- What holds at every point of a run, when behind a step it holds exactly if the step is a good one. -/
theorem forall_past_iff (hinit : I s) (hsound : ∀ s, I s → P s) (hkeep : ∀ s i, I s → G s i → I (step s i))
    (hneed : ∀ s i, I s → P (step s i) → G s i) (inputs : List ι) :
    (∀ past, past <+: inputs → P (past.foldl step s)) ↔
      ∀ past i, past ++ [i] <+: inputs → G (past.foldl step s) i := by
  have hbefore {past : List ι} {i : ι} (h : past ++ [i] <+: inputs) : past <+: inputs :=
    (List.prefix_append past [i]).trans h
  have hrun (hgood : ∀ past i, past ++ [i] <+: inputs → I (past.foldl step s) → G (past.foldl step s) i)
      (past : List ι) (hpast : past <+: inputs) : I (past.foldl step s) := by
    induction past using List.reverseRecOn with
    | nil => exact hinit
    | append_singleton past i ih =>
      rw [List.foldl_append]
      exact hkeep _ i (ih (hbefore hpast)) (hgood past i hpast (ih (hbefore hpast)))
  constructor
  · intro h
    have hgood (past : List ι) (i : ι) (hpast : past ++ [i] <+: inputs) (hinv : I (past.foldl step s)) :
        G (past.foldl step s) i := hneed _ i hinv (by simpa using h _ hpast)
    exact fun past i hpast => hgood past i hpast (hrun hgood past (hbefore hpast))
  · intro h past hpast
    exact hsound _ (hrun (fun past i hpast _ => h past i hpast) past hpast)

end Past

end LingVoice.Lib.Mealy

import LingVoice.LmStream.Simulcast

/-!
# Dynacast — which layers are turned on

A layer should be on when some subscriber selects it and the bandwidths of those who do are worth it.  The calls that
add, remove or switch a subscriber decide anew for every layer; a new bandwidth does not, though it changes what is
wanted. The sum of the bandwidths is taken modulo `2 ^ 64`.
-/

namespace LingVoice.LmStream.SimulcastStreamV1

open List Function

variable {σ : Type}

/-! ## What is wanted -/

def bandwidths (s : SimulcastStreamV1 σ) (tier : SimulcastTier) : List Nat :=
  (s.subscribers.filter fun entry => s.selected entry = tier).map fun entry => entry.estimatedBandwidthKbps.toNat

/-- Some subscriber selects the layer, and the sum of their bandwidths is not known, has no bitrate to compare with,
or is greater than half of the bitrate. -/
def Wanted (s : SimulcastStreamV1 σ) (tier : SimulcastTier) : Prop :=
  (∃ entry ∈ s.subscribers, s.selected entry = tier) ∧
    ((s.bandwidths tier).sum = 0 ∨ (s.cost tier).toNat = 0 ∨ (s.cost tier).toNat < 2 * (s.bandwidths tier).sum)

/-- The sum of the bandwidths overflows and what is left of it looks too small. -/
def Misjudged (s : SimulcastStreamV1 σ) (tier : SimulcastTier) : Prop :=
  2 ^ 64 ≤ (s.bandwidths tier).sum ∧ 0 < (s.bandwidths tier).sum % 2 ^ 64 ∧
    2 * ((s.bandwidths tier).sum % 2 ^ 64) ≤ (s.cost tier).toNat

/-! ## What is decided -/

variable (s : SimulcastStreamV1 σ) (tier : SimulcastTier)

theorem demand_eq :
    (s.demand.1 tier).toNat = (s.bandwidths tier).sum % 2 ^ 64 ∧ s.demand.2 tier = (s.bandwidths tier).length := by
  unfold demand bandwidths
  induction s.subscribers using List.reverseRecOn with
  | nil => exact ⟨rfl, rfl⟩
  | append_singleton subs sub ih =>
    rw [foldl_append, filter_append, map_append, sum_append, length_append]
    obtain ⟨hsum, hcount⟩ := ih
    -- the subscriber counts for the layer it selects and for no other
    by_cases hlayer : s.selected sub = tier
    · subst hlayer
      simp only [foldl_cons, foldl_nil, update_self, UInt64.toNat_add, hsum, hcount,
        filter_cons, decide_true, if_true, filter_nil, map_cons, map_nil, sum_cons,
        sum_nil, length_singleton, Nat.add_zero, Nat.mod_add_mod, and_self]
    · have htier : tier ≠ s.selected sub := Ne.symm hlayer
      simp only [foldl_cons, foldl_nil, update_of_ne htier, hsum, hcount, filter_cons,
        hlayer, decide_false, Bool.false_eq_true, if_false, filter_nil, map_nil, sum_nil,
        length_nil, Nat.add_zero, and_self]

theorem length_bandwidths_eq_zero_iff :
    (s.bandwidths tier).length = 0 ↔ ¬ ∃ entry ∈ s.subscribers, s.selected entry = tier := by
  rw [bandwidths, length_map, length_eq_zero_iff, filter_eq_nil_iff]
  simp

theorem layerEnabled_updateDynacast : s.updateDynacast.layerEnabled tier = s.shouldEnable tier := by
  -- a layer is set only if it changes, which makes no difference
  have hset (enabled : SimulcastTier → Bool) (t : SimulcastTier) :
      (if enabled t ≠ s.shouldEnable t then update enabled t (s.shouldEnable t) else enabled) =
        update enabled t (s.shouldEnable t) := by
    split
    · rfl
    · rename_i hsame
      rw [← not_not.1 hsame, update_eq_self]
  unfold updateDynacast
  simp only [hset, foldl_cons, foldl_nil]
  cases tier with
  | low | mid | high => rfl

/-- Halving the bitrate in integers loses nothing. -/
theorem shouldEnable_eq_true_iff :
    s.shouldEnable tier = true ↔
      (∃ entry ∈ s.subscribers, s.selected entry = tier) ∧
        ((s.bandwidths tier).sum % 2 ^ 64 = 0 ∨ (s.cost tier).toNat = 0 ∨
          (s.cost tier).toNat < 2 * ((s.bandwidths tier).sum % 2 ^ 64)) := by
  obtain ⟨hsum, hcount⟩ := s.demand_eq tier
  have hzero (n : UInt64) : n = 0 ↔ n.toNat = 0 := by
    rw [← UInt64.toNat_inj]
    rfl
  have hhalf : s.cost tier / 2 < s.demand.1 tier ↔ (s.cost tier).toNat / 2 < (s.demand.1 tier).toNat :=
    UInt64.lt_iff_toNat_lt
  unfold shouldEnable
  dsimp only
  split
  · rename_i hlength
    rw [hcount, length_bandwidths_eq_zero_iff] at hlength
    simp [hlength]
  · rename_i hlength
    rw [hcount, length_bandwidths_eq_zero_iff, not_not] at hlength
    simp only [hlength, true_and]
    split
    · -- no bandwidth or no bitrate is known
      rename_i hunknown
      rw [hzero, hzero, hsum] at hunknown
      simp only [true_iff]
      omega
    · rename_i hknown
      rw [hzero, hzero, hsum] at hknown
      rw [decide_eq_true_eq, hhalf, hsum]
      omega

/-- The decision is right unless the sum is misjudged. -/
theorem shouldEnable_iff_wanted : (s.shouldEnable tier = true ↔ s.Wanted tier) ↔ ¬ s.Misjudged tier := by
  have hcost : (s.cost tier).toNat < 2 ^ 64 := (s.cost tier).toNat_lt
  rw [shouldEnable_eq_true_iff, Wanted, Misjudged]
  by_cases hsome : ∃ entry ∈ s.subscribers, s.selected entry = tier
  · simp only [hsome, true_and]
    omega
  · -- nobody selects the layer, so there is nothing to add up
    have hnil := length_eq_zero_iff.1 ((s.length_bandwidths_eq_zero_iff tier).2 hsome)
    simp [hsome, hnil]

/-! ## Runs -/

/-- The calls that decide anew. -/
def Refreshes (s : SimulcastStreamV1 σ) : Control σ → Prop
  | .addSubscriber _ _ | .removeSubscriber _ => True
  | .switchLayer sink _ => ∃ entry ∈ s.subscribers, entry.sink = sink
  | .addLayer _ _ | .updateSubscriberBandwidth _ _ => False

/-- The calls after which the layers should be up to date. -/
def Checked (s : SimulcastStreamV1 σ) : Control σ → Prop
  | .updateSubscriberBandwidth sink _ => ∃ entry ∈ s.subscribers, entry.sink = sink
  | c => s.Refreshes c

variable {c : Control σ} {s : SimulcastStreamV1 σ}

theorem Refreshes.checked (h : s.Refreshes c) : s.Checked c := by
  cases c with
  | addLayer layer info | addSubscriber sink policy | removeSubscriber sink | switchLayer sink newLayer => exact h
  | updateSubscriberBandwidth sink bandwidthKbps => exact h.elim

theorem subscribers_ne_nil_of_checked (h : s.Checked c) (hrefreshes : ¬ s.Refreshes c) : s.subscribers ≠ [] := by
  cases c with
  | addLayer layer info => exact absurd h hrefreshes
  | addSubscriber sink policy => exact absurd h hrefreshes
  | removeSubscriber sink => exact absurd h hrefreshes
  | updateSubscriberBandwidth sink bandwidthKbps =>
    obtain ⟨entry, hentry, -⟩ := h
    exact ne_nil_of_mem hentry
  | switchLayer sink newLayer => exact absurd h hrefreshes

variable [DecidableEq σ]

instance (s : SimulcastStreamV1 σ) (c : Control σ) : Decidable (s.Refreshes c) :=
  match c with
  | .addSubscriber _ _ | .removeSubscriber _ => .isTrue trivial
  | .switchLayer sink _ => inferInstanceAs (Decidable (∃ entry ∈ s.subscribers, entry.sink = sink))
  | .addLayer _ _ | .updateSubscriberBandwidth _ _ => .isFalse id

theorem layerEnabled_of_refreshes (h : s.Refreshes c)
    (tier : SimulcastTier) : (s.control c).layerEnabled tier = (s.control c).shouldEnable tier := by
  -- the decision does not depend on what was decided before
  have hdecided (s : SimulcastStreamV1 σ) :
      s.updateDynacast.layerEnabled tier = s.updateDynacast.shouldEnable tier :=
    s.layerEnabled_updateDynacast tier
  cases c with
  | addLayer layer info | updateSubscriberBandwidth sink bandwidthKbps => exact h.elim
  | addSubscriber sink policy | removeSubscriber sink => exact hdecided _
  | switchLayer sink newLayer =>
    have hfound : (s.subscribers.any fun entry => entry.sink = sink) = true := by
      simpa [Refreshes] using h
    rw [control, switchLayer]
    rw [if_pos hfound]
    exact hdecided _

theorem layerEnabled_of_not_refreshes (h : ¬ s.Refreshes c) : (s.control c).layerEnabled = s.layerEnabled := by
  cases c with
  | addLayer layer info | updateSubscriberBandwidth sink bandwidthKbps => rfl
  | addSubscriber sink policy | removeSubscriber sink => exact absurd trivial h
  | switchLayer sink newLayer =>
    have hmissing : ¬ (s.subscribers.any fun entry => entry.sink = sink) = true := by
      simpa [Refreshes] using h
    rw [control, switchLayer]
    rw [if_neg hmissing]

def controls (s : SimulcastStreamV1 σ) (cs : List (Control σ)) : SimulcastStreamV1 σ :=
  cs.foldl control s

theorem controls_snoc (cs : List (Control σ)) (c : Control σ) : s.controls (cs ++ [c]) = (s.controls cs).control c := by
  rw [controls, foldl_append]
  rfl

/-- The stream as it was after the last call that decided anew. -/
def lastRefreshed : SimulcastStreamV1 σ → SimulcastStreamV1 σ → List (Control σ) → SimulcastStreamV1 σ
  | last, _, [] => last
  | last, s, c :: rest => lastRefreshed (if s.Refreshes c then s.control c else last) (s.control c) rest

theorem lastRefreshed_snoc (last s : SimulcastStreamV1 σ) (cs : List (Control σ)) (c : Control σ) :
    lastRefreshed last s (cs ++ [c]) =
      if (s.controls cs).Refreshes c then s.controls (cs ++ [c]) else lastRefreshed last s cs := by
  induction cs generalizing last s with
  | nil => rfl
  | cons c' rest ih => exact ih _ _

/-- The decision is kept until the next. -/
theorem layerEnabled_controls (cs : List (Control σ)) :
    (s.controls cs).layerEnabled = (lastRefreshed s s cs).layerEnabled := by
  induction cs using List.reverseRecOn with
  | nil => rfl
  | append_singleton cs c ih =>
    rw [lastRefreshed_snoc]
    split
    · rfl
    · rename_i hnot
      rw [controls_snoc, layerEnabled_of_not_refreshes hnot, ih]

theorem subscribers_of_not_refreshes (h : ¬ s.Refreshes c)
    (hnone : s.subscribers = []) : (s.control c).subscribers = [] := by
  cases c with
  | addLayer layer info => exact hnone
  | addSubscriber sink policy | removeSubscriber sink => exact absurd trivial h
  | updateSubscriberBandwidth sink bandwidthKbps =>
    rw [control, updateSubscriberBandwidth, hnone]
    rfl
  | switchLayer sink newLayer =>
    rw [control, switchLayer, hnone]
    rfl

/-- Where there is a subscriber, something has been decided. -/
theorem exists_refreshed (codec : LmCore.CodecType) (cs : List (Control σ)) :
    ((new codec).controls cs).subscribers = [] ∨
      ∃ past c, past ++ [c] <+: cs ∧ ((new codec).controls past).Refreshes c ∧
        lastRefreshed (new codec) (new codec) cs = (new codec).controls (past ++ [c]) := by
  induction cs using List.reverseRecOn with
  | nil => exact .inl rfl
  | append_singleton cs c ih =>
    by_cases hrefreshes : ((new codec).controls cs).Refreshes c
    · refine .inr ⟨cs, c, prefix_rfl, hrefreshes, ?_⟩
      rw [lastRefreshed_snoc, if_pos hrefreshes]
    · rcases ih with hnone | ⟨past, c', hpast, hrefreshes', hlast⟩
      · rw [controls_snoc]
        exact .inl (subscribers_of_not_refreshes hrefreshes hnone)
      · refine .inr ⟨past, c', hpast.trans (prefix_append cs [c]), hrefreshes', ?_⟩
        rw [lastRefreshed_snoc, if_neg hrefreshes, hlast]

def UpToDate (s : SimulcastStreamV1 σ) : Prop :=
  ∀ tier, s.layerEnabled tier = true ↔ s.Wanted tier

/-- What is asked of a call: that a decision adds the bandwidths up without misjudging them, and that a new bandwidth
leaves what is wanted as it was at the last decision. -/
def KeepsUp (codec : LmCore.CodecType) (past : List (Control σ)) (c : Control σ) : Prop :=
  if ((new codec).controls past).Refreshes c then
    ∀ tier, ¬ ((new codec).controls (past ++ [c])).Misjudged tier
  else
    ∀ tier, ((new codec).controls (past ++ [c])).Wanted tier ↔
      (lastRefreshed (new codec) (new codec) past).Wanted tier

section Run

variable {codec : LmCore.CodecType} {past : List (Control σ)} {c : Control σ}

theorem upToDate_iff_keepsUp_of_refreshes (h : ((new codec).controls past).Refreshes c) :
    ((new codec).controls (past ++ [c])).UpToDate ↔ KeepsUp codec past c := by
  rw [KeepsUp, if_pos h, controls_snoc]
  refine forall_congr' fun tier => ?_
  rw [layerEnabled_of_refreshes h, shouldEnable_iff_wanted]

/-- One call, where the decisions before it were right. -/
theorem upToDate_iff_keepsUp
    (hdecisions : ∀ past' c', past' ++ [c'] <+: past → ((new codec).controls past').Refreshes c' →
      ((new codec).controls (past' ++ [c'])).UpToDate)
    (hchecked : ((new codec).controls past).Checked c) :
    ((new codec).controls (past ++ [c])).UpToDate ↔ KeepsUp codec past c := by
  by_cases hrefreshes : ((new codec).controls past).Refreshes c
  · exact upToDate_iff_keepsUp_of_refreshes hrefreshes
  · have hsome := subscribers_ne_nil_of_checked hchecked hrefreshes
    obtain ⟨past', c', hpast, hrefreshes', hlast⟩ := (exists_refreshed codec past).resolve_left hsome
    have hright := hdecisions past' c' hpast hrefreshes'
    rw [← hlast] at hright
    rw [KeepsUp, if_neg hrefreshes]
    refine forall_congr' fun tier => ?_
    rw [controls_snoc, layerEnabled_of_not_refreshes hrefreshes, layerEnabled_controls, hright tier]
    exact iff_comm

end Run

/-- The layers are up to date over a run exactly where every call keeps up. -/
theorem upToDate_run_iff (codec : LmCore.CodecType) (cs : List (Control σ)) :
    (∀ past c, past ++ [c] <+: cs → ((new codec).controls past).Checked c →
        ((new codec).controls (past ++ [c])).UpToDate) ↔
      ∀ past c, past ++ [c] <+: cs → ((new codec).controls past).Checked c → KeepsUp codec past c := by
  constructor
  · intro h past c hpast hchecked
    refine (upToDate_iff_keepsUp ?_ hchecked).1 (h past c hpast hchecked)
    intro past' c' hpast' hrefreshes
    exact h past' c' (hpast'.trans ((prefix_append past [c]).trans hpast)) hrefreshes.checked
  · intro h past c hpast hchecked
    refine (upToDate_iff_keepsUp ?_ hchecked).2 (h past c hpast hchecked)
    intro past' c' hpast' hrefreshes
    exact (upToDate_iff_keepsUp_of_refreshes hrefreshes).2
      (h past' c' (hpast'.trans ((prefix_append past [c]).trans hpast)) hrefreshes.checked)

/-- An adaptive subscriber whose bandwidth turns out to be low: the high layer stays on and the low one off. -/
theorem not_upToDate_low_bandwidth : let past : List (Control Nat) :=
      [.addLayer .low ⟨1, 100⟩, .addLayer .high ⟨2, 1000⟩, .addSubscriber 5 .adaptive]
    ((new .vp8).controls past).Checked (.updateSubscriberBandwidth 5 200) ∧
      ¬ ((new .vp8).controls (past ++ [.updateSubscriberBandwidth 5 200])).UpToDate := by
  intro past
  constructor
  · exact ⟨⟨5, .adaptive, 0, .high⟩, by decide, rfl⟩
  · intro h
    have hwanted : ((new .vp8).controls (past ++ [.updateSubscriberBandwidth 5 200])).Wanted .low :=
      ⟨⟨⟨5, .adaptive, 200, .low⟩, by decide, rfl⟩, by decide⟩
    have henabled := (h .low).2 hwanted
    revert henabled
    decide

end LingVoice.LmStream.SimulcastStreamV1

import LingVoice.Lib.Herald

/-!
# ForwardTable — SSRCs of tracks (`lm-router/src/lib.rs`)

The table keeps the key of every SSRC and one SSRC of every track.  To forget an SSRC takes away the SSRC of its track,
also where that is another one by now; and an SSRC that is learned for another track stays with the old one.
-/

namespace LingVoice.LmRouter

open Lib.Herald List Function

abbrev TrackId := String

structure ForwardKey where
  publisher : String
  trackId : TrackId
  deriving DecidableEq

structure ForwardTable where
  ssrcIndex : UInt32 → Option ForwardKey := fun _ => none
  trackSsrc : TrackId → Option UInt32 := fun _ => none

/-- A track id belongs to one publisher, so that it tells the key. -/
inductive SsrcCall
  | learn (ssrc : UInt32) (track : TrackId)
  | forget (ssrc : UInt32)

namespace ForwardTable

variable (table : ForwardTable)

def learnSsrc (ssrc : UInt32) (key : ForwardKey) : ForwardTable where
  trackSsrc := update table.trackSsrc key.trackId (some ssrc)
  ssrcIndex := update table.ssrcIndex ssrc (some key)

def forgetSsrc (ssrc : UInt32) : ForwardTable :=
  match table.ssrcIndex ssrc with
  | none => table
  | some key =>
    { ssrcIndex := update table.ssrcIndex ssrc none
      trackSsrc := update table.trackSsrc key.trackId none }

def ssrcForTrack (track : TrackId) : Option UInt32 :=
  table.trackSsrc track

variable (publisherOf : TrackId → String)

def call : SsrcCall → ForwardTable
  | .learn ssrc track => table.learnSsrc ssrc ⟨publisherOf track, track⟩
  | .forget ssrc => table.forgetSsrc ssrc

def run (calls : List SsrcCall) : ForwardTable :=
  calls.foldl (call · publisherOf) {}

/-- The SSRCs of a track after a call. -/
def learnedAfter (ssrcs : TrackId → List UInt32) : SsrcCall → TrackId → List UInt32
  | .learn ssrc track, t => (if t = track then [ssrc] else []) ++ (ssrcs t).filter (· ≠ ssrc)
  | .forget ssrc, t => (ssrcs t).filter (· ≠ ssrc)

/-- The SSRCs that were learned for a track and neither forgotten nor learned for another one since, the last one
first. -/
def learned (calls : List SsrcCall) : TrackId → List UInt32 :=
  calls.foldl learnedAfter fun _ => []

/-- The SSRC of every track is the one that was learned last, and has its key. -/
def Exact (calls : List SsrcCall) : Prop :=
  ∀ track, (run publisherOf calls).ssrcForTrack track = (learned calls track).head? ∧
    ∀ ssrc, (run publisherOf calls).ssrcForTrack track = some ssrc →
      (run publisherOf calls).ssrcIndex ssrc = some ⟨publisherOf track, track⟩

/-- An SSRC is learned that is not the current one of another track, or forgotten that is the only one of its track. -/
def Fits (past : List SsrcCall) : SsrcCall → Prop
  | .learn ssrc track => ∀ t, t ≠ track → (learned past t).head? ≠ some ssrc
  | .forget ssrc => ∀ t, ssrc ∈ learned past t → ∀ other ∈ learned past t, other = ssrc

variable {publisherOf} {past : List SsrcCall}

theorem run_concat (c : SsrcCall) : run publisherOf (past ++ [c]) = (run publisherOf past).call publisherOf c := by
  simp [run]

theorem learned_concat (c : SsrcCall) : learned (past ++ [c]) = learnedAfter (learned past) c := by
  simp [learned]

theorem ssrcIndex_run (calls : List SsrcCall) (ssrc : UInt32) (key : ForwardKey) :
    (run publisherOf calls).ssrcIndex ssrc = some key ↔
      key.publisher = publisherOf key.trackId ∧ ssrc ∈ learned calls key.trackId := by
  induction calls using reverseRecOn generalizing ssrc key with
  | nil => simp [run, learned]
  | append_singleton past c ih =>
    rw [run_concat, learned_concat]
    obtain ⟨publisher, track⟩ := key
    cases c with
    | learn s t =>
      by_cases hs : ssrc = s
      · simp [call, learnSsrc, learnedAfter, hs]
        grind
      · simp [call, learnSsrc, learnedAfter, hs, ih]
    | forget s =>
      simp only [call, forgetSsrc, learnedAfter]
      split
      · grind
      · grind

theorem head?_filter_ne {l : List UInt32} {s : UInt32} (h : l.head? ≠ some s) : (l.filter (· ≠ s)).head? = l.head? := by
  cases l with
  | nil => rfl
  | cons a l => grind

theorem exact_concat_iff (h : Exact publisherOf past) (c : SsrcCall) :
    Exact publisherOf (past ++ [c]) ↔ Fits past c := by
  have hindex := @ssrcIndex_run publisherOf past
  simp only [Exact, ssrcForTrack] at h ⊢
  rw [run_concat, learned_concat]
  cases c with
  | learn s t =>
    simp only [call, learnSsrc, learnedAfter, Fits]
    constructor
    · intro hexact t' ht' hhead
      have := (hexact t').1
      grind
    · intro hfits t'
      by_cases ht' : t' = t
      · grind
      · have := hfits t' ht'
        have := head?_filter_ne this
        grind
  | forget s =>
    have hmem (t : TrackId) :
        s ∈ learned past t ↔ (run publisherOf past).ssrcIndex s = some ⟨publisherOf t, t⟩ := by simp [hindex]
    have hfilter (t : TrackId) (ht : s ∉ learned past t) : (learned past t).filter (· ≠ s) = learned past t := by
      rw [filter_eq_self]
      grind
    simp only [call, forgetSsrc, learnedAfter, Fits]
    split
    · next hnone =>
      have hnot (t : TrackId) : s ∉ learned past t := by simp [hmem, hnone]
      simp only [hfilter _ (hnot _)]
      exact iff_of_true h fun t ht => absurd ht (hnot t)
    · next key hkey =>
      constructor
      · intro hexact t ht other hother
        have := (hexact t).1
        rw [hmem] at ht
        grind
      · intro hfits t
        have := hfits t
        have := hfilter t
        have := hmem t
        grind

/-- The SSRCs of the tracks are right all the time exactly when every call fits. -/
theorem ssrcs_exact_iff (publisherOf : TrackId → String) (calls : List SsrcCall) :
    (∀ past, past <+: calls → Exact publisherOf past) ↔ AtEvery Fits calls := by
  refine @iff_atEvery _ Fits (fun calls => ∀ past, past <+: calls → Exact publisherOf past) ?_ (fun past c => ?_) calls
  · simp [Exact, run, learned, ssrcForTrack]
  · simp only [prefix_concat_iff, forall_eq_or_imp]
    rw [and_comm]
    refine and_congr_right fun h => exact_concat_iff (h past prefix_rfl) c

/-- The track goes on with its second SSRC and the first one is forgotten. -/
theorem ssrcForTrack_forgotten :
    (run (fun _ => "p") [.learn 1 "t", .learn 2 "t", .forget 1]).ssrcForTrack "t" = none ∧
      learned [.learn 1 "t", .learn 2 "t", .forget 1] "t" = [2] := by
  decide

end ForwardTable
end LingVoice.LmRouter

import LingVoice.Lib.Saturation
import LingVoice.LmMixer.Mixer
import LingVoice.Media.Mixer
import Mathlib.Tactic.Ring

/-!
# SaturatedMix — mixing against the clamped sum

All three mixers lay the frames over each other and saturate after each addition.  So a sample of the mix is the
clamped sum of its column, whatever the order of the frames, exactly when the column is `Settled`: it does not leave
the range on one side and come back from there.
-/

namespace LingVoice.SaturatedMix

open Lib Lib.Columns Lib.Saturation List

def samplesAt (frames : List (List Int16)) (i : Nat) : List Int :=
  (column frames i).map Int16.toInt

/-- The sum of the frames, clamped once at each position. -/
def saturatedSum (n : Nat) (frames : List (List Int16)) : List Int16 :=
  (List.range n).map fun i => Int16.ofInt (clamp (-32768) 32767 (samplesAt frames i).sum)

/-- No position leaves the range on one side and has samples of the other sign. -/
def SettledFrames (n : Nat) (frames : List (List Int16)) : Prop :=
  ∀ i < n, Settled (-32768) 32767 (samplesAt frames i)

/-! ## Saturating additions of samples -/

def Saturates (add : Int16 → Int16 → Int16) : Prop :=
  ∀ acc sample, add acc sample = Int16.ofInt (satAdd (-32768) 32767 acc.toInt sample.toInt)

theorem toInt_ofInt_clamp (x : Int) : (Int16.ofInt (clamp (-32768) 32767 x)).toInt = clamp (-32768) 32767 x := by
  unfold clamp
  apply Int16.toInt_ofInt_of_le
  · omega
  · omega

variable {add : Int16 → Int16 → Int16}

theorem toInt_foldl (hadd : Saturates add) (samples : List Int16) (acc : Int16) :
    (samples.foldl add acc).toInt = (samples.map Int16.toInt).foldl (satAdd (-32768) 32767) acc.toInt := by
  induction samples generalizing acc with
  | nil => rfl
  | cons sample samples ih =>
    rw [foldl_cons, ih, map_cons, foldl_cons, hadd, satAdd, toInt_ofInt_clamp]

/-- The frames laid over each other give the clamped sum in every order exactly when they are settled. -/
theorem forall_perm_overlay_iff (hadd : Saturates add) (n : Nat) (frames : List (List Int16)) :
    (∀ order : List (List Int16), order.Perm frames →
        order.foldl (overlay add) (replicate n 0) = saturatedSum n frames) ↔ SettledFrames n frames := by
  have hposition : ∀ (order : List (List Int16)) (i : Nat),
      (column order i).foldl add 0 = Int16.ofInt (clamp (-32768) 32767 (samplesAt frames i).sum) ↔
        satSum (-32768) 32767 (samplesAt order i) = clamp (-32768) 32767 (samplesAt frames i).sum := by
    intro order i
    rw [← Int16.toInt_inj, toInt_foldl hadd, toInt_ofInt_clamp]
    rfl
  have horder : ∀ order : List (List Int16),
      order.foldl (overlay add) (replicate n 0) = saturatedSum n frames ↔
        ∀ i < n, satSum (-32768) 32767 (samplesAt order i) = clamp (-32768) 32767 (samplesAt frames i).sum := by
    intro order
    rw [foldl_overlay_eq, saturatedSum, map_inj_left]
    simp only [mem_range, hposition]
  simp only [horder]
  constructor
  · intro h i hi
    refine (forall_perm_satSum_iff (by decide) (by decide) _).1 fun l hl => ?_
    -- an order of the column comes from an order of the frames
    have hsamples : samplesAt frames i = frames.filterMap fun frame => frame[i]?.map Int16.toInt := by
      rw [samplesAt, column, map_filterMap]
    rw [hsamples] at hl
    obtain ⟨order, hperm, rfl⟩ := exists_perm_of_perm_filterMap hl
    have hsum := h order hperm i hi
    rwa [samplesAt, column, map_filterMap] at hsum
  · intro h order hperm i hi
    refine (forall_perm_satSum_iff (by decide) (by decide) _).2 (h i hi) _ ?_
    exact (hperm.filterMap _).map _

theorem settledFrames_nil (n : Nat) : SettledFrames n [] := by
  intro i _
  exact ⟨.inr rfl, .inr rfl⟩

/-! ## Unit gains -/

theorem truncate_intCast (x : Int) : (x : ℚ).num.tdiv (x : ℚ).den = x := by
  exact Int.tdiv_one x

theorem saturates_mixSample : Saturates (LmMixer.mixSample 1) := by
  intro acc sample
  have hsum : (acc.toInt + sample.toInt * 1 : ℚ) = ((acc.toInt + sample.toInt : Int) : ℚ) := by
    push_cast
    ring
  rw [LmMixer.mixSample, hsum, LmMixer.toI16, truncate_intCast]
  rfl

theorem saturates_go_mixSample : Saturates (Media.ConferenceMixer.mixSample 1) := by
  intro acc sample
  obtain ⟨x, hx⟩ : ∃ x, acc.toInt + sample.toInt = x := ⟨_, rfl⟩
  have hsum : (acc.toInt + sample.toInt * 1 : ℚ) = (x : ℚ) := by
    rw [← hx]
    push_cast
    ring
  have hclamp : (if (32767 : ℚ) < x then 32767 else if (x : ℚ) < -32768 then -32768 else (x : ℚ)) =
      ((clamp (-32768) 32767 x : Int) : ℚ) := by
    have hover : (32767 : ℚ) < x ↔ 32767 < x := by exact_mod_cast Iff.rfl
    have hunder : (x : ℚ) < -32768 ↔ x < -32768 := by exact_mod_cast Iff.rfl
    simp only [hover, hunder, clamp]
    split
    · rw [show max (-32768) (min 32767 x) = 32767 by omega]
      rfl
    · split
      · rw [show max (-32768) (min 32767 x) = -32768 by omega]
        rfl
      · rw [show max (-32768) (min 32767 x) = x by omega]
  unfold Media.ConferenceMixer.mixSample
  rw [hsum]
  dsimp only
  rw [hclamp, truncate_intCast, satAdd, hx]

/-! ## `AudioMixer::mix` -/

section AudioMixer

open LmMixer

/-- The frames all have the length of the first one. -/
def EquallyLong (frames : List (List Int16)) : Prop :=
  ∀ frame ∈ frames, frame.length = (frames.headD []).length

variable {frames : List (List Int16)}

theorem foldl_zip_replicate {n : Nat} (h : ∀ frame ∈ frames, frame.length = n) (output : List Int16) :
    (frames.zip (replicate frames.length (1 : ℚ))).foldl (fun output (frame, gain) =>
        if frame.length ≠ n then output else overlay (mixSample gain) output frame) output =
      frames.foldl (overlay (mixSample 1)) output := by
  induction frames generalizing output with
  | nil => rfl
  | cons frame frames ih =>
    obtain ⟨hframe, hframes⟩ := forall_mem_cons.1 h
    rw [length_cons, replicate_succ, zip_cons_cons, foldl_cons, ih hframes, foldl_cons]
    simp [hframe]

theorem mix_eq (h : EquallyLong frames) :
    AudioMixer.mix frames (replicate frames.length 1) =
      frames.foldl (overlay (mixSample 1)) (replicate (frames.headD []).length 0) := by
  unfold AudioMixer.mix
  by_cases hnil : frames = []
  · rw [hnil]
    rfl
  · rw [if_neg (by simp [hnil])]
    exact foldl_zip_replicate h _

theorem EquallyLong.perm {order : List (List Int16)} (h : EquallyLong frames) (hperm : order.Perm frames) :
    EquallyLong order ∧ (order.headD []).length = (frames.headD []).length := by
  have hhead : (order.headD []).length = (frames.headD []).length := by
    cases order with
    | nil => rw [nil_perm.1 hperm]
    | cons frame order => exact h frame (hperm.subset (mem_cons_self ..))
  refine ⟨fun frame hframe => ?_, hhead⟩
  rw [hhead]
  exact h frame (hperm.subset hframe)

theorem forall_perm_mix_iff (h : EquallyLong frames) :
    (∀ order : List (List Int16), order.Perm frames → AudioMixer.mix order (replicate order.length 1) =
        saturatedSum (frames.headD []).length frames) ↔ SettledFrames (frames.headD []).length frames := by
  rw [← forall_perm_overlay_iff saturates_mixSample]
  refine forall_congr' fun order => forall_congr' fun hperm => ?_
  obtain ⟨hlong, hhead⟩ := h.perm hperm
  rw [mix_eq hlong, hhead]

end AudioMixer

/-! ## The conference mixer in Rust -/

section ConferenceMixer

open LmMixer LmMixer.ConferenceMixer
open LmCore (AudioFrame)

def others (participants : List ParticipantAudio) (pid : ParticipantId) : List (List Int16) :=
  participants.filterMap fun p => if p.id = pid ∨ p.muted then none else p.input.getLast?.map (·.samples)

def nMinusOne (ctx : MixingLoopContext) (participants : List ParticipantAudio) (pid : ParticipantId) :
    Option AudioFrame :=
  if others participants pid = [] then none
  else some ⟨saturatedSum ctx.frameSize (others participants pid), ctx.sampleRate, 0⟩

def rowsFor (audio : List (ParticipantId × AudioFrame)) (pid : ParticipantId) : List (List Int16) :=
  audio.filterMap fun entry => if entry.1 = pid then none else some entry.2.samples

theorem rowsFor_collect (participants : List ParticipantAudio) (pid : ParticipantId) :
    rowsFor (collect participants) pid = others participants pid := by
  rw [rowsFor, collect, others, filterMap_filterMap]
  refine filterMap_congr fun p _ => ?_
  cases p.muted with
  | true => simp
  | false =>
    cases p.input.getLast? with
    | none | some frame => simp

/-- Lists of answers with a name to each agree when all answers do. -/
theorem filterMap_eq_filterMap_iff {ρ φ : Type} {name : ρ → ParticipantId} {f g : ρ → Option φ} {l : List ρ}
    (hnone : ∀ r ∈ l, f r = none ↔ g r = none) :
    (l.filterMap fun r => (f r).map (name r, ·)) = (l.filterMap fun r => (g r).map (name r, ·)) ↔
      ∀ r ∈ l, f r = g r := by
  induction l with
  | nil => simp
  | cons r l ih =>
    obtain ⟨hr, hl⟩ := forall_mem_cons.1 hnone
    rw [forall_mem_cons, ← ih hl]
    cases hf : f r with
    | none => simp [hf, hr.1 hf]
    | some a =>
      cases hg : g r with
      | none =>
        rw [hr.2 hg] at hf
        cases hf
      | some b => simp [hf, hg]

/-- The frames of the others, in whatever order they are visited. -/
theorem rowsFor_visit_perm (audioOrder : VisitOrder (ParticipantId × AudioFrame))
    {order participants : List ParticipantAudio} (hperm : order.Perm participants) (pid : ParticipantId) :
    (rowsFor (audioOrder.visit (collect order)) pid).Perm (others participants pid) := by
  have hvisit : (rowsFor (audioOrder.visit (collect order)) pid).Perm (rowsFor (collect order) pid) :=
    (audioOrder.perm _).filterMap _
  rw [rowsFor_collect] at hvisit
  exact hvisit.trans (hperm.filterMap _)

section Tick

variable {ctx : MixingLoopContext} (hall : ctx.maxSpeakers = 0) (rmsEnergy : List Int16 → ℚ)
  (speakerOrder : VisitOrder ParticipantId) (audioOrder : VisitOrder (ParticipantId × AudioFrame)) (s : Speakers)

include hall

/-- What a pass offers to the outputs, whether or not anything was collected. -/
theorem tick_eq (participants : List ParticipantAudio) :
    (tick ctx rmsEnergy speakerOrder audioOrder s participants).2 = participants.filterMap fun p =>
      (mixFor ctx ((collect participants).map (·.1)) (audioOrder.visit (collect participants)) p.id).map (p.id, ·) := by
  unfold tick
  by_cases hnil : collect participants = []
  · have hvisit : audioOrder.visit [] = [] := perm_nil.1 (audioOrder.perm [])
    simp [hnil, hvisit, mixFor]
  · simp [hnil, hall]

variable (hunit : ∀ src dst, routeGain ctx src dst = 1)

include hunit

theorem mixFor_eq (active : List ParticipantId) (audio : List (ParticipantId × AudioFrame)) (pid : ParticipantId) :
    mixFor ctx active audio pid = if rowsFor audio pid = [] then none else
      some ⟨(rowsFor audio pid).foldl (overlay (mixSample 1)) (replicate ctx.frameSize 0),
        ctx.sampleRate, 0⟩ := by
  have hinputs : ∀ input, (∀ entry, input entry = if entry.1 = pid then none else some (entry.2.samples, (1 : ℚ))) →
      audio.filterMap input = (rowsFor audio pid).map (·, (1 : ℚ)) := by
    intro input hinput
    rw [rowsFor, map_filterMap]
    refine filterMap_congr fun entry _ => ?_
    rw [hinput]
    split
    · rfl
    · rfl
  unfold mixFor
  rw [hinputs _ fun entry => by simp [hall, hunit]]
  simp only [map_eq_nil_iff, foldl_map]

/-- A pass is right exactly when the overlay is the clamped sum for everyone who hears something. -/
theorem tick_eq_iff {order participants : List ParticipantAudio} (hperm : order.Perm participants) :
    (tick ctx rmsEnergy speakerOrder audioOrder s order).2 =
        (order.filterMap fun p => (nMinusOne ctx participants p.id).map (p.id, ·)) ↔
      ∀ p ∈ participants, others participants p.id ≠ [] →
        (rowsFor (audioOrder.visit (collect order)) p.id).foldl (overlay (mixSample 1))
          (replicate ctx.frameSize 0) = saturatedSum ctx.frameSize (others participants p.id) := by
  have hempty (pid : ParticipantId) :
      rowsFor (audioOrder.visit (collect order)) pid = [] ↔ others participants pid = [] := by
    rw [← length_eq_zero_iff, (rowsFor_visit_perm audioOrder hperm pid).length_eq, length_eq_zero_iff]
  rw [tick_eq hall, filterMap_eq_filterMap_iff]
  · simp only [mixFor_eq hall hunit, nMinusOne, hempty, hperm.mem_iff]
    refine forall₂_congr fun p _ => ?_
    by_cases hnil : others participants p.id = []
    · simp [hnil]
    · simp [hnil]
  · simp [mixFor_eq hall hunit, nMinusOne, hempty]

theorem forall_tick_iff (participants : List ParticipantAudio) :
    (∀ order : List ParticipantAudio, order.Perm participants → ∀ speakerOrder audioOrder,
        (tick ctx rmsEnergy speakerOrder audioOrder s order).2 =
          order.filterMap fun p => (nMinusOne ctx participants p.id).map (p.id, ·)) ↔
      ∀ p ∈ participants, SettledFrames ctx.frameSize (others participants p.id) := by
  constructor
  · intro h p hp
    by_cases hnil : others participants p.id = []
    · rw [hnil]
      exact settledFrames_nil _
    · refine (forall_perm_overlay_iff saturates_mixSample _ _).1 fun rows hrows => ?_
      -- an order of the frames comes from an order of the participants
      obtain ⟨order, hperm, rfl⟩ := exists_perm_of_perm_filterMap hrows
      have htick := h order hperm ⟨fun ids => ids, fun _ => .refl _⟩ ⟨fun entries => entries, fun _ => .refl _⟩
      have hmix := (tick_eq_iff hall rmsEnergy _ _ s hunit hperm).1 htick p hp hnil
      rwa [rowsFor_collect] at hmix
  · intro h order hperm speakerOrder audioOrder
    refine (tick_eq_iff hall rmsEnergy speakerOrder audioOrder s hunit hperm).2 fun p hp _ => ?_
    exact (forall_perm_overlay_iff saturates_mixSample _ _).2 (h p hp) _ (rowsFor_visit_perm audioOrder hperm p.id)

end Tick

end ConferenceMixer

/-! ## The conference mixer in Go -/

section GoConferenceMixer

open Media Media.ConferenceMixer

theorem bytes_or (x : BitVec 16) :
    (x.setWidth 8).setWidth 16 ||| ((x.sshiftRight 8).setWidth 8).setWidth 16 <<< 8 = x := by
  ext i hi
  simp only [BitVec.getElem_or, BitVec.getElem_setWidth, BitVec.getElem_shiftLeft, BitVec.getLsbD_setWidth,
    BitVec.getLsbD_sshiftRight]
  by_cases hlow : i < 8
  · simp [hlow]
    rfl
  · have hhigh : i - 8 < 8 := by omega
    have hplace : 8 + (i - 8) = i := by omega
    have hsmall : ¬ 16 ≤ i - 8 := by omega
    simp [hlow, hhigh, hplace, hsmall, hi]

theorem bytesToInt16_int16ToBytes (s : List Int16) : bytesToInt16 (int16ToBytes s) = s := by
  induction s with
  | nil => rfl
  | cons v s ih =>
    have hbytes : int16ToBytes (v :: s) =
        v.toUInt16.toUInt8 :: (v >>> 8).toUInt16.toUInt8 :: int16ToBytes s := rfl
    have hsample : (v.toUInt16.toUInt8.toUInt16 ||| (v >>> 8).toUInt16.toUInt8.toUInt16 <<< 8).toInt16 = v :=
      Int16.toBitVec_inj.1 (bytes_or v.toBitVec)
    rw [hbytes, bytesToInt16, ih, hsample]

theorem int16ToBytes_inj {s t : List Int16} : int16ToBytes s = int16ToBytes t ↔ s = t := by
  refine ⟨fun h => ?_, fun h => by rw [h]⟩
  rw [← bytesToInt16_int16ToBytes s, h, bytesToInt16_int16ToBytes]

def goOthers (participants : List MixerParticipant) (id : String) : List (List Int16) :=
  participants.filterMap fun p => if p.id = id then none else (readFrame p).map (·.samples)

/-- What is to be heard: nothing if nobody has sent a frame, and the sum of the others otherwise. -/
def goNMinusOne (m : Media.ConferenceMixer) (participants listeners : List MixerParticipant) :
    List (String × Bytes) :=
  if participants.filterMap readFrame = [] then []
  else listeners.map fun p => (p.id, int16ToBytes (saturatedSum m.frameSize (goOthers participants p.id)))

theorem readFrame_eq_some {p : MixerParticipant} {f : FrameData} (h : readFrame p = some f) :
    f.id = p.id ∧ f.gain = p.gain := by
  unfold readFrame at h
  split at h
  · split at h
    · obtain rfl := Option.some.inj h
      exact ⟨rfl, rfl⟩
    · cases h
  · cases h

variable {participants : List MixerParticipant} (m : Media.ConferenceMixer)

theorem go_mixFor_eq (hunit : ∀ p ∈ participants, p.gain = 1) (id : String) :
    m.mixFor (participants.filterMap readFrame) id =
      (goOthers participants id).foldl (overlay (mixSample 1)) (replicate m.frameSize 0) := by
  unfold mixFor
  generalize replicate m.frameSize (0 : Int16) = mixed
  induction participants generalizing mixed with
  | nil => rfl
  | cons p participants ih =>
    obtain ⟨hp, hparticipants⟩ := forall_mem_cons.1 hunit
    cases hframe : readFrame p with
    | none =>
      have hothers : goOthers (p :: participants) id = goOthers participants id := by simp [goOthers, hframe]
      rw [filterMap_cons_none hframe, hothers]
      exact ih hparticipants mixed
    | some f =>
      obtain ⟨hid, hgain⟩ := readFrame_eq_some hframe
      rw [filterMap_cons_some hframe, foldl_cons, ih hparticipants]
      by_cases hself : p.id = id
      · simp [goOthers, hid, hself]
      · simp [goOthers, hid, hself, hframe, hgain, hp]

/-- A pass is right exactly when the overlay is the clamped sum for everyone. -/
theorem go_tick_eq_iff {first second : List MixerParticipant}
    (hunit : ∀ p ∈ participants, p.gain = 1) (hfirst : first.Perm participants) (hsecond : second.Perm participants)
    (hframes : participants.filterMap readFrame ≠ []) :
    m.tick first second = goNMinusOne m participants second ↔ ∀ p ∈ participants,
      (goOthers first p.id).foldl (overlay (mixSample 1)) (replicate m.frameSize 0) =
        saturatedSum m.frameSize (goOthers participants p.id) := by
  have hsome : first.filterMap readFrame ≠ [] := by
    intro hnil
    exact hframes (nil_perm.1 (hnil ▸ hfirst.filterMap readFrame))
  have hgain : ∀ p ∈ first, p.gain = 1 := fun p hp => hunit p (hfirst.subset hp)
  unfold Media.ConferenceMixer.tick goNMinusOne
  rw [if_neg hframes]
  simp only [if_neg hsome, map_inj_left, Prod.mk.injEq, true_and, int16ToBytes_inj, go_mixFor_eq m hgain,
    hsecond.mem_iff]

theorem forall_go_tick_iff (hunit : ∀ p ∈ participants, p.gain = 1) :
    (∀ first second : List MixerParticipant, first.Perm participants → second.Perm participants →
        m.tick first second = goNMinusOne m participants second) ↔
      ∀ p ∈ participants, SettledFrames m.frameSize (goOthers participants p.id) := by
  by_cases hframes : participants.filterMap readFrame = []
  · refine iff_of_true (fun first second hfirst _ => ?_) fun p _ => ?_
    · have hnone : first.filterMap readFrame = [] :=
        perm_nil.1 (hframes ▸ hfirst.filterMap readFrame)
      simp [Media.ConferenceMixer.tick, goNMinusOne, hframes, hnone]
    · rw [filterMap_eq_nil_iff] at hframes
      have hothers : goOthers participants p.id = [] := filterMap_eq_nil_iff.2 fun q hq => by simp [hframes q hq]
      rw [hothers]
      exact settledFrames_nil _
  · constructor
    · intro h p hp
      refine (forall_perm_overlay_iff saturates_go_mixSample _ _).1 fun rows hrows => ?_
      obtain ⟨first, hfirst, rfl⟩ := exists_perm_of_perm_filterMap hrows
      exact (go_tick_eq_iff m hunit hfirst (.refl _) hframes).1 (h first participants hfirst (.refl _)) p hp
    · intro h first second hfirst hsecond
      refine (go_tick_eq_iff m hunit hfirst hsecond hframes).2 fun p hp => ?_
      exact (forall_perm_overlay_iff saturates_go_mixSample _ _).2 (h p hp) _ (hfirst.filterMap _)

end GoConferenceMixer

/-! ## The theorem -/

/-- With unit gains each of the mixers gives the clamped sum in every order exactly when the frames it mixes are
settled. -/
theorem mix_eq_saturatedSum_iff (frames : List (List Int16)) (hlong : EquallyLong frames)
    (ctx : LmMixer.MixingLoopContext) (hall : ctx.maxSpeakers = 0)
    (hroutes : ∀ src dst, LmMixer.ConferenceMixer.routeGain ctx src dst = 1) (rmsEnergy : List Int16 → ℚ)
    (s : LmMixer.Speakers) (participants : List LmMixer.ParticipantAudio) (m : Media.ConferenceMixer)
    (members : List Media.MixerParticipant) (hgains : ∀ p ∈ members, p.gain = 1) :
    ((∀ order : List (List Int16), order.Perm frames →
        LmMixer.AudioMixer.mix order (List.replicate order.length 1) =
          saturatedSum (frames.headD []).length frames) ↔ SettledFrames (frames.headD []).length frames) ∧
    ((∀ order : List LmMixer.ParticipantAudio, order.Perm participants → ∀ speakerOrder audioOrder,
        (LmMixer.ConferenceMixer.tick ctx rmsEnergy speakerOrder audioOrder s order).2 =
          order.filterMap fun p => (nMinusOne ctx participants p.id).map (p.id, ·)) ↔
      ∀ p ∈ participants, SettledFrames ctx.frameSize (others participants p.id)) ∧
    ((∀ first second : List Media.MixerParticipant, first.Perm members → second.Perm members →
        m.tick first second = goNMinusOne m members second) ↔
      ∀ p ∈ members, SettledFrames m.frameSize (goOthers members p.id)) :=
  ⟨forall_perm_mix_iff hlong, forall_tick_iff hall rmsEnergy s hroutes participants, forall_go_tick_iff m hgains⟩

/-- Three quiet speakers, for the Rust mixer and for the Go one. -/
def quiet : List LmMixer.ParticipantAudio :=
  [⟨"a", [⟨[100], 8000, 0⟩], false⟩, ⟨"b", [⟨[-200], 8000, 0⟩], false⟩, ⟨"c", [⟨[300], 8000, 0⟩], false⟩]

def quietMembers : List Media.MixerParticipant :=
  [⟨"a", [.audio [100, 0]], 1⟩, ⟨"b", [.audio [56, 255]], 1⟩, ⟨"c", [.audio [44, 1]], 1⟩]

def backwards {α : Type} : LmMixer.VisitOrder α :=
  ⟨List.reverse, List.reverse_perm⟩

theorem settledFrames_quiet :
    ∀ frames ∈ [[[100], [-200], [300]], [[-200], [300]], [[100], [300]], [[100], [-200]]], SettledFrames 1 frames := by
  intro frames hframes i hi
  obtain rfl : i = 0 := by omega
  revert frames
  decide

/-- The speakers are visited in other orders than they are listed in. -/
theorem mix_quiet_eq_saturatedSum :
    LmMixer.AudioMixer.mix [[300], [100], [-200]] [1, 1, 1] = saturatedSum 1 [[100], [-200], [300]] ∧
      (LmMixer.ConferenceMixer.tick ⟨1, 8000, [], 0⟩ (fun _ => 0) backwards backwards {} quiet.reverse).2 =
        quiet.reverse.filterMap (fun p => (nMinusOne ⟨1, 8000, [], 0⟩ quiet p.id).map (p.id, ·)) ∧
      Media.ConferenceMixer.tick ⟨1⟩ quietMembers.reverse quietMembers = goNMinusOne ⟨1⟩ quietMembers quietMembers := by
  have hlong : EquallyLong [[100], [-200], [300]] := by
    unfold EquallyLong
    decide
  have hgains : ∀ p ∈ quietMembers, p.gain = 1 := by simp [quietMembers]
  have hall := mix_eq_saturatedSum_iff _ hlong ⟨1, 8000, [], 0⟩ rfl (fun _ _ => rfl) (fun _ => 0) {} quiet ⟨1⟩
    quietMembers hgains
  have hquiet := settledFrames_quiet
  simp only [forall_mem_cons] at hquiet
  refine ⟨hall.1.2 hquiet.1 _ (by decide), hall.2.1.2 ?_ _ quiet.reverse_perm _ _,
    hall.2.2.2 ?_ _ _ quietMembers.reverse_perm (.refl _)⟩
  · simp only [quiet, forall_mem_cons]
    exact ⟨hquiet.2.1, hquiet.2.2.1, hquiet.2.2.2.1, by simp⟩
  · simp only [quietMembers, forall_mem_cons]
    exact ⟨hquiet.2.1, hquiet.2.2.1, hquiet.2.2.2.1, by simp⟩

/-- The sum is 30000, but two loud samples saturate before the third one is added. -/
theorem mix_loud_ne_saturatedSum :
    LmMixer.AudioMixer.mix [[30000], [30000], [-30000]] [1, 1, 1] ≠
      saturatedSum 1 [[30000], [30000], [-30000]] := by
  decide +kernel

end LingVoice.SaturatedMix

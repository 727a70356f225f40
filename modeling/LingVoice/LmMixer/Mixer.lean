import Mathlib.Data.Rat.Defs
import LingVoice.Lib.Columns
import LingVoice.LmCore.Media

/-!
# Mixer — audio mixing (`lm-mixer/src/lib.rs`)

`AudioMixer::mix` mixes frames, and one pass of `ConferenceMixer::mixing_loop` gives every participant the mix of the
others.  Gains are rational numbers here, so that `f32` arithmetic is exact; with unit gains it is.

A hash map is the list of its entries.  Where the code iterates over a map that it has built, the order is given by a
`VisitOrder`; the participants are listed in the order in which their map is visited.
-/

namespace LingVoice.LmMixer

open Lib.Columns
open LmCore (AudioFrame)

/-- `as i16`: towards zero, and into the range. -/
def toI16 (x : ℚ) : Int16 :=
  Int16.ofInt (max (-32768) (min 32767 (x.num.tdiv x.den)))

/-- The sample of the sum; the `clamp` behind the conversion changes nothing. -/
def mixSample (gain : ℚ) (output sample : Int16) : Int16 :=
  toI16 (output.toInt + sample.toInt * gain)

namespace AudioMixer

def mix (frames : List (List Int16)) (gains : List ℚ) : List Int16 :=
  if frames = [] ∨ gains.length ≠ frames.length then
    []
  else
    let frameLen := (frames.headD []).length
    (frames.zip gains).foldl (fun output (frame, gain) =>
      if frame.length ≠ frameLen then output else overlay (mixSample gain) output frame)
      (List.replicate frameLen 0)

end AudioMixer

abbrev ParticipantId := String

/-- The order in which a hash map with these entries is visited. -/
structure VisitOrder (α : Type) where
  visit : List α → List α
  perm : ∀ entries, (visit entries).Perm entries

structure ParticipantAudio where
  id : ParticipantId
  input : List AudioFrame
  muted : Bool
  deriving DecidableEq, Repr

structure MixingLoopContext where
  frameSize : Nat
  sampleRate : UInt32
  /-- From whom to whom, and the gain. -/
  routeGains : List ((ParticipantId × ParticipantId) × ℚ)
  /-- 0 mixes everyone. -/
  maxSpeakers : Nat
  deriving DecidableEq, Repr

/-- The speakers that are selected, and for how many passes they are held. -/
structure Speakers where
  current : List ParticipantId := []
  hold : List (ParticipantId × Nat) := []
  deriving DecidableEq, Repr

namespace ConferenceMixer

def holdFrames : Nat := 15

/-- The channel is drained and the last frame is kept, unless the participant is muted. -/
def collect (participants : List ParticipantAudio) : List (ParticipantId × AudioFrame) :=
  participants.filterMap fun p => if p.muted then none else p.input.getLast?.map (p.id, ·)

/-- `sort_by` on falling energy, which is stable, and the first of them. -/
def loudest (k : Nat) (energies : List (ParticipantId × ℚ)) : List ParticipantId :=
  ((energies.mergeSort fun a b => decide (b.2 ≤ a.2)).take k).map (·.1)

/-- A held speaker that is no candidate is held one pass less; at zero it is let go. -/
def decay (candidates : List ParticipantId) (held : ParticipantId × Nat) : Option (ParticipantId × Nat) :=
  if held.1 ∈ candidates then some held
  else if held.2 - 1 = 0 then none
  else some (held.1, held.2 - 1)

/-- The selection of the loudest speakers; `visit` is for the set of the current ones. -/
def selectSpeakers (visit : VisitOrder ParticipantId) (k : Nat) (energies : List (ParticipantId × ℚ)) (s : Speakers) :
    Speakers :=
  let candidates := loudest k energies
  let held := s.hold.filter (·.1 ∉ candidates) ++ candidates.map (·, holdFrames)
  let joined := s.current ++ candidates.filter (· ∉ s.current)
  let hold := held.filterMap (decay candidates)
  let current := joined.filter fun pid => ¬ (pid ∈ held.map (·.1) ∧ pid ∉ hold.map (·.1))
  if k < current.length then
    let kept := loudest k ((visit.visit current).map fun pid => (pid, (energies.lookup pid).getD 0))
    ⟨kept, hold.filter (·.1 ∈ kept)⟩
  else
    ⟨current, hold⟩

def routeGain (ctx : MixingLoopContext) (src dst : ParticipantId) : ℚ :=
  (ctx.routeGains.lookup (src, dst)).getD 1

def mixFor (ctx : MixingLoopContext) (active : List ParticipantId) (audio : List (ParticipantId × AudioFrame))
    (outputPid : ParticipantId) : Option AudioFrame :=
  let inputs := audio.filterMap fun (inputPid, frame) =>
    if inputPid = outputPid then none
    else if 0 < ctx.maxSpeakers ∧ inputPid ∉ active then none
    else if 0 < routeGain ctx inputPid outputPid then some (frame.samples, routeGain ctx inputPid outputPid)
    else none
  if inputs = [] then
    none
  else
    some {
      samples := inputs.foldl (fun buffer (samples, gain) => overlay (mixSample gain) buffer samples)
        (List.replicate ctx.frameSize 0)
      sampleRate := ctx.sampleRate
      timestamp := 0 }

/-- One pass of the mixing loop: what is offered to the output channels.  The energy of a frame is any function of its
samples. -/
def tick (ctx : MixingLoopContext) (rmsEnergy : List Int16 → ℚ) (speakerOrder : VisitOrder ParticipantId)
    (audioOrder : VisitOrder (ParticipantId × AudioFrame)) (s : Speakers) (participants : List ParticipantAudio) :
    Speakers × List (ParticipantId × AudioFrame) :=
  let collected := collect participants
  if collected = [] then
    (s, [])
  else
    let energies := collected.map fun (pid, frame) => (pid, rmsEnergy frame.samples)
    let next := if 0 < ctx.maxSpeakers then selectSpeakers speakerOrder ctx.maxSpeakers energies s else s
    let active := if 0 < ctx.maxSpeakers then next.current else collected.map (·.1)
    (next, participants.filterMap fun p =>
      (mixFor ctx active (audioOrder.visit collected) p.id).map (p.id, ·))

end ConferenceMixer
end LingVoice.LmMixer

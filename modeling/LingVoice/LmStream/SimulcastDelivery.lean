import LingVoice.LmStream.Simulcast
import Mathlib.Data.List.Nodup

/-!
# SimulcastDelivery — who receives the frames of a layer

A frame that is complete on a layer should go once to every subscriber whose policy and bandwidth select the layer,
and to nobody else.  It goes to the sinks that have subscribed while the layer was selected, as often as they have:
switching, removing and a change of bandwidth do not touch the sinks of the layers.
-/

namespace LingVoice.LmStream.SimulcastStreamV1

open LmCore LmDepacketizer List Function

variable {σ : Type}

def sinks (s : SimulcastStreamV1 σ) (tier : SimulcastTier) : List σ :=
  ((s.layers tier).map MediaStream.sourceSinks).getD []

/-- The packet completes a frame on the layer. -/
def Completes (s : SimulcastStreamV1 σ) (order : List SimulcastTier) (pkt : RtpPacket) (tier : SimulcastTier)
    (frame : MediaFrame) : Prop :=
  s.route order pkt = some tier ∧ s.layerEnabled tier = true ∧
    ∃ stream, s.layers tier = some stream ∧ (assemble stream.depacketizer pkt).2 = some frame

theorem pushPacket_deliveries {s : SimulcastStreamV1 σ} {order : List SimulcastTier} {pkt : RtpPacket}
    {tier : SimulcastTier} {frame : MediaFrame} (h : s.Completes order pkt tier frame) :
    (s.pushPacket order pkt).2.2 = (s.sinks tier).map fun sink => (sink, frame) := by
  obtain ⟨hroute, henabled, stream, hstream, hframe⟩ := h
  simp only [pushPacket, hroute, henabled, hstream, Bool.not_true, Bool.false_eq_true, if_false, sinks,
    MediaStream.pushPacket_deliveries, hframe]
  simp

/-! ## How the sinks of a layer change -/

variable (s : SimulcastStreamV1 σ)

variable [DecidableEq σ]

def calls (s : SimulcastStreamV1 σ) (cs : List (Call σ)) : SimulcastStreamV1 σ :=
  cs.foldl call s

end LingVoice.LmStream.SimulcastStreamV1

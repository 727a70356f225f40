import LingVoice.LmDepacketizer.RoundTrip
import LingVoice.LmStream.LateJoin

/-!
# Delivery — from the packetizer of a publisher to a sink

The frames of a publisher go through a VP9 packetizer, the network and the stream.  A sink may join at any time, also in
the middle of a frame.
-/

namespace LingVoice.LmStream

open LmCore LmDepacketizer List GopCache

/-- A packet of the publisher as the transport hands it to the stream. -/
def rtpPacket (ssrc : UInt32) (rid : String) (packet : UInt16 × RtpPacketOut) : RtpPacket :=
  ⟨ssrc, packet.1, packet.2.timestamp, packet.2.marker, packet.2.payload, rid⟩

def stamped (ssrc : UInt32) (rid : String) (frame : MediaFrame) : MediaFrame :=
  { frame with ssrc := ssrc, rid := rid }

/-- A frame of the publisher as the stream hands it on. -/
def sentFrame (ssrc : UInt32) (rid : String) (frame : EncodedFrame) : MediaFrame :=
  stamped ssrc rid (Vp9Depacketizer.mediaFrame frame.keyframe frame.timestamp frame.frameData)

variable {ssrc : UInt32} {rid : String}

/-- In the box the depacketizer receives as it does on its own. -/
theorem assemble_rtpPacket (d : Vp9Depacketizer) (packet : UInt16 × RtpPacketOut) :
    assemble (.vp9 d) (rtpPacket ssrc rid packet) =
      (.vp9 (receivePacket d packet).1, (receivePacket d packet).2.frame.map (stamped ssrc rid)) := by
  unfold assemble receivePacket rtpPacket
  dsimp only [BoxedDepacketizer.pushPacket, Depacketizer.pushPacket]
  obtain ⟨d', result⟩ := d.pushPacket packet.2.payload packet.2.marker packet.1 packet.2.timestamp
  cases result with
  | frameComplete | needMore | error message => rfl

theorem completed_rtpPackets (d : Vp9Depacketizer) (packets : List (UInt16 × RtpPacketOut)) :
    completed (.vp9 d) (packets.map (rtpPacket ssrc rid)) =
      ((receiveAll d packets).2.filterMap Reply.frame).map (stamped ssrc rid) := by
  induction packets generalizing d with
  | nil => rfl
  | cons packet rest ih =>
    rw [map_cons, completed_cons, assemble_rtpPacket, ih]
    unfold receiveAll
    rw [Lib.Mealy.run_cons, filterMap_cons]
    cases (receivePacket d packet).2.frame with
    | none | some frame => rfl

/-- One frame comes out for all packets of a frame. -/
theorem filterMap_replies {sent : List (List RtpPacketOut)} {media : List MediaFrame} (h : sent.length = media.length) :
    (zipWith frameReplies sent media).flatten.filterMap Reply.frame = media := by
  induction sent generalizing media with
  | nil => exact (length_eq_zero_iff.1 h.symm).symm
  | cons packets sent ih =>
    cases media with
    | nil => cases h
    | cons frame media =>
      rw [zipWith_cons_cons, flatten_cons, filterMap_append, ih (Nat.succ.inj h)]
      simp [frameReplies, Lib.answers, Reply.needMore, Reply.complete]

namespace MediaStream

variable {σ : Type} [DecidableEq σ]

/-- A sink that joins receives the frames of the publisher from some frame on, each once and in order: of those that
were complete when it joined at most 2000, and the last one in any case. -/
theorem received_sent {frames : List EncodedFrame} (hne : ∀ frame ∈ frames, frame.frameData ≠ []) (n : Nat) {sink : σ}
    {before after : List (Call σ)} (hspares : ∀ c ∈ before ++ after, Spares sink c)
    (hsent : packets (before ++ after) =
      (deliverAll n (packetizeAll Vp9Packetizer.new frames).flatten).map (rtpPacket ssrc rid)) :
    let joined := (completed (createDepacketizer .vp9) (packets before)).length
    ∃ k ≤ joined, joined ≤ k + 2000 ∧ (0 < joined → k < joined) ∧
      received sink ((new .vp9 .video).calls (before ++ .addSourceSink sink :: after)).2.flatten =
        (frames.map (sentFrame ssrc rid)).drop k := by
  have hround := vp9_roundTrip frames hne n
  have hlength : (packetizeAll Vp9Packetizer.new frames).length = frames.length := Lib.Mealy.length_run ..
  have hcompleted : completed (createDepacketizer .vp9) (packets (before ++ after)) =
      frames.map (sentFrame ssrc rid) := by
    rw [hsent, createDepacketizer, completed_rtpPackets, hround.replies,
      filterMap_replies (by rw [hlength, length_map]), map_map]
    rfl
  rw [forall_mem_append] at hspares
  rw [received_join .vp9 hspares.1 hspares.2, ← hcompleted, packets_append, completed_append]
  generalize completed (createDepacketizer .vp9) (packets before) = saved
  -- what is not in the cache any more is what the sink misses
  obtain ⟨gops, heq, ⟨old, rfl⟩, hnil, -, hshort, -⟩ :=
    caches_foldl_save (by decide : 1 ≤ 1) (by decide : 1 ≤ 2000) saved
  have hbound := (single_foldl_save (old ++ gops.flatMap Gop.frames)).length_replay_le
  have hreplay : replay ⟨1, 2000, gops⟩ = gops.flatMap Gop.frames := rfl
  rw [heq, hreplay] at hbound ⊢
  rw [length_append]
  refine ⟨old.length, by omega, by omega, fun hpos => ?_, by rw [append_assoc, drop_left]⟩
  cases gops with
  | nil => exact absurd rfl (hnil (ne_nil_of_length_pos (by simpa using hpos)))
  | cons gop rest =>
    have := length_pos_of_ne_nil (hshort gop mem_cons_self).1
    rw [flatMap_cons, length_append]
    omega

/-- Two frames over the wrap of the numbers; the sink joins between them. -/
theorem received_sent_second :
    let frames : List EncodedFrame := [⟨[1, 2], 0, true⟩, ⟨[3], 3000, false⟩]
    let sent : List (Call Nat) :=
      (deliverAll 65535 (packetizeAll Vp9Packetizer.new frames).flatten).map fun p => .pushPacket (rtpPacket 7 "" p)
    ∃ k < 1, received 1 ((new .vp9 .video).calls (sent.take 1 ++ .addSourceSink 1 :: sent.drop 1)).2.flatten =
      (frames.map (sentFrame 7 "")).drop k := by
  intro frames sent
  obtain ⟨k, -, -, hlast, hreceived⟩ := @received_sent 7 "" Nat _ frames (by decide) 65535 1 (sent.take 1) (sent.drop 1)
    (by decide) (by decide)
  exact ⟨k, hlast (by decide), hreceived⟩

end MediaStream
end LingVoice.LmStream

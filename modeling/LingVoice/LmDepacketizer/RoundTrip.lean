import LingVoice.LmDepacketizer.H264
import LingVoice.LmDepacketizer.Vp8
import LingVoice.LmDepacketizer.Vp9

/-!
# RoundTrip — packetizer to depacketizer, over whole runs

Frames sent one after the other, packets numbered from any place on and all delivered.
-/

namespace LingVoice.LmDepacketizer

open LmCore Vp9Depacketizer

theorem vp8_roundTrip (frames : List EncodedFrame) (hne : ∀ frame ∈ frames, frame.frameData ≠ []) (n : Nat) :
    RoundTrip Vp8Packetizer.new Vp8Depacketizer.new frames
      (frames.map fun frame => Vp8Depacketizer.mediaFrame frame.timestamp frame.frameData) n := by
  refine roundTrip_of_frame (fun p : Vp8Packetizer => p.mtu = rtpMtu) (fun frame => frame.frameData ≠ [])
    Vp8Depacketizer.Ready ?_ frames hne _ rfl n _ (Vp8Depacketizer.ready_new n)
  intro p frame n d hp hframe hd
  have hmtu : p.mtu = 1200 := hp
  obtain ⟨hpos, hout, hdone⟩ := Vp8Depacketizer.receiveAll_packetize hframe hd p (fun _ => true)
    (by omega) (fun _ _ => rfl)
  refine ⟨?_, hpos, ?_, hout, hdone.ready⟩
  · exact (congrArg (·.1.mtu) (p.packetize_eq frame hframe)).trans hp
  · intro packet hpacket
    obtain ⟨-, -, -, hlength⟩ := p.exists_piece_of_mem (by omega) frame hframe hpacket
    exact hlength.trans hmtu.le

theorem vp9_roundTrip (frames : List EncodedFrame) (hne : ∀ frame ∈ frames, frame.frameData ≠ []) (n : Nat) :
    RoundTrip Vp9Packetizer.new new frames
      (frames.map fun frame =>
        mediaFrame frame.keyframe frame.timestamp frame.frameData) n := by
  refine roundTrip_of_frame (fun p : Vp9Packetizer => p.mtu = rtpMtu) (fun frame => frame.frameData ≠ [])
    Ready ?_ frames hne _ rfl n _ (ready_new n)
  intro p frame n d hp hframe hd
  have hmtu : p.mtu = 1200 := hp
  obtain ⟨hpos, hout, hdone⟩ := receiveAll_packetize hframe hd p (fun _ => true)
    (by omega) (fun _ _ => rfl)
  refine ⟨(p.packetize_mtu frame).trans hp, hpos, ?_, hout, hdone.ready⟩
  intro packet hpacket
  obtain ⟨-, -, -, hlength⟩ := p.exists_piece_of_mem (by omega) frame hframe hpacket
  exact hlength.trans hmtu.le

/-- Both codecs give every frame back with its last packet, in packets within the MTU. -/
theorem vp8_vp9_roundTrip (frames : List EncodedFrame) (hne : ∀ frame ∈ frames, frame.frameData ≠ [])
    (n : Nat) :
    RoundTrip Vp8Packetizer.new Vp8Depacketizer.new frames
        (frames.map fun frame => Vp8Depacketizer.mediaFrame frame.timestamp frame.frameData) n ∧
      RoundTrip Vp9Packetizer.new Vp9Depacketizer.new frames
        (frames.map fun frame =>
          Vp9Depacketizer.mediaFrame frame.keyframe frame.timestamp frame.frameData) n :=
  ⟨vp8_roundTrip frames hne n, vp9_roundTrip frames hne n⟩

/-- A frame of three packets and one of a single packet. -/
def keyAndDelta : List EncodedFrame :=
  [⟨List.replicate 3000 0x5A, 3000, true⟩, ⟨[0x31], 6000, false⟩]

/-- The packets of the first frame are numbered over the wrap. -/
theorem vp8_vp9_roundTrip_wrap :
    (keyAndDelta.map fun frame => (Packetizer.packetize Vp8Packetizer.new frame).2.length) = [3, 1] ∧
      (keyAndDelta.map fun frame => (Packetizer.packetize Vp9Packetizer.new frame).2.length) = [3, 1] ∧
      RoundTrip Vp8Packetizer.new Vp8Depacketizer.new keyAndDelta
        (keyAndDelta.map fun frame => Vp8Depacketizer.mediaFrame frame.timestamp frame.frameData) 65535 ∧
      RoundTrip Vp9Packetizer.new Vp9Depacketizer.new keyAndDelta
        (keyAndDelta.map fun frame =>
          Vp9Depacketizer.mediaFrame frame.keyframe frame.timestamp frame.frameData) 65535 :=
  ⟨by decide +kernel, by decide +kernel, vp8_vp9_roundTrip _ (by decide) 65535⟩

/-! ## H.264 -/

namespace H264Depacketizer

structure Ready (n : Nat) (d : H264Depacketizer) : Prop where
  timely : Timely n d.lastSeq
  stopped : d.frameStarted = false

variable {n : Nat} {d : H264Depacketizer}

/-- A packet then begins a frame, whatever its timestamp. -/
theorem Ready.atNalu (h : Ready n d) (timestamp : UInt32) : AtNalu timestamp [] true n d := by
  refine ⟨h.timely, ?_, fun _ => rfl⟩
  rw [openFrame, h.stopped]
  rfl

theorem AfterNalu.ready {timestamp : UInt32} {fu : Bool} {data : Bytes}
    (h : AfterNalu true timestamp fu n data d) : Ready n d :=
  ⟨h.justBefore.timely, h.frame⟩

end H264Depacketizer

def h264Media (frame : EncodedFrame) : MediaFrame :=
  H264Depacketizer.mediaFrame frame.timestamp
    (H264Depacketizer.annexbData (splitAnnexbNalus frame.frameData))

theorem h264Media_encoded (frame : AccessUnit) : h264Media frame.encoded = frame.media := by
  simp only [h264Media, AccessUnit.encoded, splitAnnexbNalus_assemble]
  rfl

theorem map_h264Media (frames : List AccessUnit) :
    (frames.map AccessUnit.encoded).map h264Media = frames.map AccessUnit.media := by
  rw [List.map_map]
  exact List.map_congr_left fun frame _ => h264Media_encoded frame

/-- Every Annex B frame comes back with its last packet, its units behind long start codes. -/
theorem h264_roundTrip (frames : List AccessUnit) (n : Nat) :
    RoundTrip H264Packetizer.new H264Depacketizer.new (frames.map AccessUnit.encoded)
      (frames.map AccessUnit.media) n := by
  rw [← map_h264Media]
  refine roundTrip_of_frame (fun p : H264Packetizer => p.mtu = rtpMtu)
    (fun frame => ∃ unit : AccessUnit, frame = unit.encoded) H264Depacketizer.Ready ?_ _ ?_ _ rfl n _
    ⟨timely_none n, rfl⟩
  · rintro p _ n d hp ⟨unit, rfl⟩ hd
    have hmtu : p.mtu = 1200 := hp
    have hpackets : Packetizer.packetize p unit.encoded =
        (p, H264Packetizer.packetizeNalus p.mtu unit.timestamp unit.nalus) := unit.packetize_encoded p
    obtain ⟨hpos, hout, hafter⟩ := H264Depacketizer.receiveAll_packetizeNalus
      (show 2 < p.mtu by omega) unit.nalus unit.nalus_single unit.nalus_ne_nil (hd.atNalu unit.timestamp)
      (fun _ => true) rfl (fun _ _ => rfl)
    rw [hpackets, h264Media_encoded]
    refine ⟨hp, hpos, ?_, hout, hafter.ready⟩
    intro packet hpacket
    exact (H264Packetizer.payload_length_le (by omega) hpacket).trans hmtu.le
  · exact List.forall_mem_map.mpr fun unit _ => ⟨unit, rfl⟩

end LingVoice.LmDepacketizer

import LingVoice.Lib.Stream
import LingVoice.LmProtocol.Rtsp

/-!
# RtspStream — the RTSP demuxer does not see how the stream is cut

The loop of `push_data` takes one item after the other off the buffer, a packet or a byte to skip, and an item does
not depend on the bytes behind it.  So the demuxer is a machine of `Lib.Stream`.
-/

namespace LingVoice.LmProtocol

open Lib (byteAt u16At)
open LmCore List Lib Stream

namespace RtspDemuxer

variable {δ : Type} [Depacketizer δ]

/-- One turn of the loop: a channel and RTP data, or a byte that begins no packet. -/
def nextItem (buffer : Bytes) : Option (Option (UInt8 × Bytes) × Bytes) :=
  if 4 ≤ buffer.length then
    if byteAt buffer 0 ≠ 0x24 then
      some (none, buffer.drop 1)
    else if buffer.length < 4 + (u16At buffer 2).toNat then
      none
    else
      some (some (byteAt buffer 1, (buffer.take (4 + (u16At buffer 2).toNat)).drop 4),
        buffer.drop (4 + (u16At buffer 2).toNat))
  else
    none

def handleItem (d : RtspDemuxer δ) : Option (UInt8 × Bytes) → RtspDemuxer δ × List MediaFrame
  | none => (d, [])
  | some (channel, rtpData) => d.handlePacket channel rtpData

theorem nextItem_cases {buffer rest : Bytes} {item : Option (UInt8 × Bytes)}
    (h : nextItem buffer = some (item, rest)) :
    4 ≤ buffer.length ∧
      ((byteAt buffer 0 ≠ 0x24 ∧ item = none ∧ rest = buffer.drop 1) ∨
        (byteAt buffer 0 = 0x24 ∧ 4 + (u16At buffer 2).toNat ≤ buffer.length ∧
          item = some (byteAt buffer 1, (buffer.take (4 + (u16At buffer 2).toNat)).drop 4) ∧
          rest = buffer.drop (4 + (u16At buffer 2).toNat))) := by
  rw [nextItem] at h
  split at h
  · rename_i hlen
    refine ⟨hlen, ?_⟩
    split at h
    · rename_i hskip
      cases h
      exact .inl ⟨hskip, rfl, rfl⟩
    · rename_i hdollar
      split at h
      · cases h
      · rename_i hfits
        cases h
        exact .inr ⟨Decidable.not_not.1 hdollar, Nat.le_of_not_lt hfits, rfl, rfl⟩
  · cases h

theorem nextItem_prompt : Prompt nextItem := by
  constructor
  · intro buffer item rest h
    rcases nextItem_cases h with ⟨hlen, ⟨_, _, rfl⟩ | ⟨_, _, _, rfl⟩⟩
    · rw [length_drop]
      omega
    · rw [length_drop]
      omega
  · intro buffer item rest more h
    rcases nextItem_cases h with ⟨hlen, hitem⟩
    -- the four bytes before a packet are read from the buffer alone
    obtain ⟨h0, h1, h2⟩ : byteAt (buffer ++ more) 0 = byteAt buffer 0 ∧ byteAt (buffer ++ more) 1 = byteAt buffer 1 ∧
        u16At (buffer ++ more) 2 = u16At buffer 2 := by
      match buffer, hlen with
      | _ :: _ :: _ :: _ :: _, _ => exact ⟨rfl, rfl, rfl⟩
    have hlonger : 4 ≤ (buffer ++ more).length := by
      rw [length_append]
      omega
    rw [nextItem, if_pos hlonger, h0, h1, h2]
    rcases hitem with ⟨hskip, rfl, rfl⟩ | ⟨hdollar, hfits, rfl, rfl⟩
    · rw [if_pos hskip, drop_append_of_le_length (by omega)]
    · have hroom : ¬ (buffer ++ more).length < 4 + (u16At buffer 2).toNat := by
        rw [length_append]
        omega
      rw [if_neg (not_not.2 hdollar), if_neg hroom, take_append_of_le_length hfits, drop_append_of_le_length hfits]

/-- The buffer is not looked at by the body of the loop. -/
theorem handlePacket_buffer (d : RtspDemuxer δ) (buffer : Bytes) (channel : UInt8) (rtpData : Bytes) :
    handlePacket { d with buffer := buffer } channel rtpData =
      ({ (d.handlePacket channel rtpData).1 with buffer := buffer }, (d.handlePacket channel rtpData).2) := by
  rw [handlePacket, handlePacket]
  by_cases hlen : 12 ≤ rtpData.length
  · rw [if_pos hlen, if_pos hlen]
    by_cases hchannel : channel = 0
    · rw [if_pos hchannel, if_pos hchannel]
    · rw [if_neg hchannel, if_neg hchannel]
  · rw [if_neg hlen, if_neg hlen]

/-- The loop of the source is the machine that drains the buffer. -/
theorem demuxLoop_eq (fuel : Nat) (d : RtspDemuxer δ) (buffer : Bytes) :
    demuxLoop fuel { d with buffer := buffer } =
      ({ (drain nextItem handleItem fuel d buffer).1.1 with
          buffer := (drain nextItem handleItem fuel d buffer).1.2 },
        (drain nextItem handleItem fuel d buffer).2) := by
  induction fuel generalizing d buffer with
  | zero => rfl
  | succ fuel ih =>
    rw [demuxLoop]
    cases hnext : nextItem buffer with
    | none =>
      rw [drain_of_none hnext]
      rw [nextItem] at hnext
      split at hnext
      · rename_i hlen
        rw [if_pos hlen]
        split at hnext
        · cases hnext
        · rename_i hdollar
          rw [if_neg hdollar]
          split at hnext
          · rename_i hshort
            dsimp only
            rw [if_pos hshort]
          · cases hnext
      · rename_i hlen
        rw [if_neg hlen]
    | some next =>
      rw [drain_of_some hnext]
      rcases nextItem_cases hnext with ⟨hlen, ⟨hskip, hitem, hrest⟩ | ⟨hdollar, hfits, hitem, hrest⟩⟩
      · rw [if_pos hlen, if_pos hskip, hitem, hrest]
        exact ih d (buffer.drop 1)
      · rw [if_pos hlen, if_neg (not_not.2 hdollar), hitem, hrest]
        dsimp only
        rw [if_neg (Nat.not_lt.2 hfits), handlePacket_buffer]
        dsimp only
        rw [ih]
        rfl

def withBuffer (st : RtspDemuxer δ × Bytes) : RtspDemuxer δ :=
  { st.1 with buffer := st.2 }

theorem pushData_withBuffer (st : RtspDemuxer δ × Bytes) (data : Bytes) :
    (withBuffer st).pushData data =
      (withBuffer (push nextItem handleItem st data).1,
        (push nextItem handleItem st data).2) := by
  exact demuxLoop_eq _ st.1 (st.2 ++ data)

theorem run_withBuffer {st : RtspDemuxer δ × Bytes} (hst : nextItem st.2 = none) (slices : List Bytes) :
    (Mealy.run pushData (withBuffer st) slices).2.flatten =
        (push nextItem handleItem st slices.flatten).2 ∧
      (Mealy.run pushData (withBuffer st) slices).1 =
        withBuffer (push nextItem handleItem st slices.flatten).1 := by
  rcases @run_push _ _ _ _ nextItem handleItem nextItem_prompt st hst slices with ⟨hstate, hframes⟩
  rw [Mealy.run_map withBuffer pushData_withBuffer]
  constructor
  · exact hframes
  · rw [hstate]

/-- However a byte string is cut into slices, the frames that come out are those of the whole string in one call,
and the demuxer, its buffer included, is left in the same state. -/
theorem run_pushData (createDepacketizer : CodecType → δ) (videoCodec audioCodec : CodecType)
    (slices : List Bytes) :
    (Lib.Mealy.run pushData (new createDepacketizer videoCodec audioCodec) slices).2.flatten =
        (pushData (new createDepacketizer videoCodec audioCodec) slices.flatten).2 ∧
      (Lib.Mealy.run pushData (new createDepacketizer videoCodec audioCodec) slices).1 =
        (pushData (new createDepacketizer videoCodec audioCodec) slices.flatten).1 := by
  have hnew : new createDepacketizer videoCodec audioCodec =
      withBuffer (new createDepacketizer videoCodec audioCodec, []) := rfl
  rw [hnew, pushData_withBuffer]
  exact run_withBuffer rfl slices

end RtspDemuxer

end LingVoice.LmProtocol

import LingVoice.Lib.Mpegts
import LingVoice.LmProtocol.Ts

/-!
# TsPacket — what the two packet builders of the muxer put into a packet

`makeTsPacket` and `makeVideoTsPacket` are taken apart once: header bytes, adaptation field, payload.
-/

namespace LingVoice.LmProtocol

open Lib LmCore List Nat Mpegts

/-! ## Header bytes -/

def pidByte (start : Bool) (pid : UInt16) : UInt8 :=
  false.toUInt8 <<< 7 ||| start.toUInt8 <<< 6 ||| false.toUInt8 <<< 5 ||| ((pid >>> 8).toUInt8 &&& 0x1F)

variable {pid : UInt16} {data payload : Bytes} (start : Bool)

def Used (pid : UInt16) : Prop :=
  pid = patPid ∨ pid = pmtPid ∨ pid = videoPid ∨ pid = audioPid

/-- Header bytes 1 and 2 give the start flag and the PID back. -/
theorem pidByte_fields (hpid : Used pid) :
    (pidByte start pid &&& 0x40 != 0) = start ∧
      (pidByte start pid &&& 0x1F).toUInt16 <<< 8 ||| ((pid &&& 0xFF).toUInt8).toUInt16 = pid := by
  rcases hpid with rfl | rfl | rfl | rfl
  all_goals
    cases start with
    | true | false => decide

def controlByte (control cc : UInt8) : UInt8 :=
  (((0 : UInt8) &&& 0x03) <<< 6) ||| ((control &&& 0x03) <<< 4) ||| ((cc &&& 0x0F) &&& 0x0F)

theorem controlByte_fields (cc : UInt8) : ∀ control ∈ [0, 1, 3],
    (controlByte control cc >>> 4) &&& 0x03 = control ∧ controlByte control cc &&& 0x0F = cc &&& 0x0F := by
  revert cc
  refine forall_byte ?_
  decide +kernel

/-- Patching byte 3 announces an adaptation field and keeps the counter. -/
theorem controlByte_both (cc : UInt8) : (controlByte 0 cc &&& 0x0F) ||| 0x30 = controlByte 3 cc := by
  revert cc
  refine forall_byte ?_
  decide +kernel

def headerBytes (start : Bool) (pid : UInt16) (control cc : UInt8) : Bytes :=
  [0x47, pidByte start pid, (pid &&& 0xFF).toUInt8, controlByte control cc]

@[simp] theorem length_headerBytes (pid : UInt16) (control cc : UInt8) :
    (headerBytes start pid control cc).length = 4 := rfl

/-! ## Stuffing -/

def stuffing (n : Nat) : Bytes :=
  if 2 ≤ n then [UInt8.ofNat (n - 1), 0x00] ++ List.replicate (n - 1 - 1) 0xFF else [0x00]

theorem length_stuffing {n : Nat} (hn : 0 < n) : (stuffing n).length = n := by
  unfold stuffing
  split
  · simp
    omega
  · simp
    omega

theorem stuffing_eq_cons (n : Nat) : ∃ body, stuffing n = UInt8.ofNat body.length :: body := by
  by_cases htwo : 2 ≤ n
  · refine ⟨0x00 :: replicate (n - 1 - 1) 0xFF, ?_⟩
    have hlen : (0x00 :: replicate (n - 1 - 1) (0xFF : UInt8)).length = n - 1 := by
      simp
      omega
    rw [hlen, stuffing, if_pos htwo]
    rfl
  · refine ⟨[], ?_⟩
    rw [stuffing, if_neg htwo]
    rfl

theorem fill_eq {packet : Bytes} (h : packet.length = 188) :
    (packet ++ replicate (tsPacketSize - packet.length) 0xFF).take tsPacketSize = packet := by
  simp [tsPacketSize, h]

theorem carries_packet {pid : UInt16} (hpid : Used pid) (start : Bool) (cc : UInt8) {control : UInt8}
    {field data : Bytes} (hfill : field.length + data.length = 184) (hne : data ≠ [])
    (hfield : (control = 3 ∧ ∃ body, field = UInt8.ofNat body.length :: body) ∨
      ((control = 0 ∨ control = 1) ∧ field = [])) :
    Carries (headerBytes start pid control cc ++ field ++ data) start pid control (cc &&& 0x0F) data := by
  rcases pidByte_fields start hpid with ⟨hstart, hid⟩
  have hcontrol : control ∈ [0, 1, 3] := by
    rcases hfield with ⟨rfl, -⟩ | ⟨rfl | rfl, -⟩
    · decide
    · decide
    · decide
  rcases controlByte_fields cc control hcontrol with ⟨hafc, hcc⟩
  have hparts := @carries_of_parts (pidByte start pid) (pid &&& 0xFF).toUInt8 (controlByte control cc) field data
    hfill hne
  -- the control bits of the header are those of the field
  rw [hstart, hid, hafc, hcc] at hparts
  exact hparts hfield

/-! ## `make_ts_packet` -/

/-- A payload shorter than a packet is put behind stuffing, a longer one is cut off. -/
theorem makeTsPacket_eq (pid : UInt16) (start : Bool) (cc : UInt8)
    (hpayload : (if start then 0x00 :: data else data) = payload) :
    (makeTsPacket pid start data cc).1 =
      if payload.length < 184 then
        headerBytes start pid 3 cc ++ stuffing (184 - payload.length) ++ payload
      else
        headerBytes start pid 1 cc ++ [] ++ payload.take 184 := by
  by_cases hshort : payload.length < 184
  · have hstuff : 0 < 184 - payload.length := by
      omega
    have hmin : min payload.length (tsPacketSize - 4) = payload.length := by
      simp only [tsPacketSize]
      omega
    have hlen : (headerBytes start pid 3 cc ++ stuffing (184 - payload.length) ++ payload).length = 188 := by
      simp only [length_append, length_headerBytes, length_stuffing hstuff]
      omega
    -- the two ways of the source to write the field are the two cases of `stuffing`
    have hbody : (if 2 ≤ tsPacketSize - 4 - payload.length then
          headerBytes start pid 3 cc ++ [UInt8.ofNat (tsPacketSize - 4 - payload.length - 1), 0x00] ++
            replicate (tsPacketSize - 4 - payload.length - 1 - 1) 0xFF
        else
          headerBytes start pid 3 cc ++ [0x00]) =
        headerBytes start pid 3 cc ++ stuffing (184 - payload.length) := by
      have hsize : tsPacketSize - 4 - payload.length = 184 - payload.length := rfl
      rw [hsize, stuffing]
      split
      · rw [append_assoc]
      · rfl
    have hlt : payload.length < tsPacketSize - 4 := hshort
    rw [if_pos hshort, ← fill_eq hlen, ← hbody]
    simp only [makeTsPacket, hpayload, hmin, if_pos hlt, take_length]
    rfl
  · have hmin : min payload.length (tsPacketSize - 4) = 184 := by
      simp only [tsPacketSize]
      omega
    have hge : ¬ (184 < tsPacketSize - 4) := by decide
    have hlen : (headerBytes start pid 1 cc ++ [] ++ payload.take 184).length = 188 := by
      simp only [length_append, length_headerBytes, length_nil, length_take]
      omega
    rw [if_neg hshort, ← fill_eq hlen]
    simp only [makeTsPacket, hpayload, hmin, if_neg hge]
    rfl

theorem makeTsPacket_carries (hpid : Used pid) (start : Bool) (cc : UInt8)
    (hpayload : (if start then 0x00 :: data else data) = payload) (hne : payload ≠ []) :
    Carries (makeTsPacket pid start data cc).1 start pid
      (if payload.length < 184 then 3 else 1) (cc &&& 0x0F) (payload.take 184) := by
  rw [makeTsPacket_eq pid start cc hpayload]
  split
  · have hstuff : 0 < 184 - payload.length := by
      omega
    rw [take_of_length_le (by omega)]
    refine @carries_packet pid hpid start cc 3 _ payload ?_ hne (.inl ⟨rfl, stuffing_eq_cons _⟩)
    rw [length_stuffing hstuff]
    omega
  · refine @carries_packet pid hpid start cc 1 [] (payload.take 184) ?_ ?_ (.inr ⟨.inr rfl, rfl⟩)
    · simp
      omega
    · simp [hne]

/-- A unit that starts in a packet of its own, behind a pointer field. -/
theorem makeTsPacket_start (hpid : Used pid) (data : Bytes) (cc : UInt8) :
    ∃ control, (control = 1 ∨ control = 3) ∧
      Carries (makeTsPacket pid true data cc).1 true pid control (cc &&& 0x0F) ((0x00 :: data).take 184) := by
  refine ⟨_, ?_, makeTsPacket_carries hpid true cc rfl (by simp)⟩
  split
  · exact .inr rfl
  · exact .inl rfl

/-! ## `make_video_ts_packet` -/

/-- The adaptation field with the PCR and `n` bytes of stuffing behind it. -/
def pcrField (pts : UInt64) (n : Nat) : Bytes :=
  [UInt8.ofNat (7 + n), 0x10] ++ (Pcr.fromTimestamp90khz pts).toBytes ++ List.replicate n 0xFF

theorem length_pcrField (pts : UInt64) (n : Nat) : (pcrField pts n).length = 8 + n := by
  simp [pcrField, Pcr.toBytes]
  omega

theorem pcrField_eq_cons (pts : UInt64) (n : Nat) : ∃ body, pcrField pts n = UInt8.ofNat body.length :: body := by
  refine ⟨0x10 :: ((Pcr.fromTimestamp90khz pts).toBytes ++ replicate n 0xFF), ?_⟩
  have hlen : (0x10 :: ((Pcr.fromTimestamp90khz pts).toBytes ++ replicate n (0xFF : UInt8))).length = 7 + n := by
    simp [Pcr.toBytes]
    omega
  rw [hlen]
  rfl

namespace TsMuxer

variable (m : TsMuxer) {data : Bytes}

theorem setBothControl_headerBytes (pid : UInt16) (cc : UInt8) :
    setBothControl (headerBytes start pid 0 cc) = headerBytes start pid 3 cc := by
  rw [headerBytes, headerBytes, ← controlByte_both]
  rfl

theorem addStuffing_eq (pid : UInt16) (cc : UInt8) {n : Nat} (hpos : 0 < n) (hle : n ≤ 184) :
    addStuffing (headerBytes start pid 0 cc) n = headerBytes start pid 3 cc ++ stuffing n := by
  -- the length is kept as a byte, which has room for it
  have hbyte : (UInt8.ofNat (n - 1)).toNat = n - 1 := by
    rw [UInt8.toNat_ofNat', mod_eq_of_lt (by omega)]
  unfold addStuffing stuffing
  rw [setBothControl_headerBytes]
  split
  · rename_i htwo
    have hlt : 0 < UInt8.ofNat (n - 1) := by
      rw [UInt8.lt_iff_toNat_lt, hbyte]
      exact Nat.sub_pos_of_lt htwo
    have hone : (UInt8.ofNat (n - 1) - 1).toNat = n - 1 - 1 := by
      have hle : 1 ≤ UInt8.ofNat (n - 1) := by
        rw [UInt8.le_iff_toNat_le, hbyte]
        exact le_sub_one_of_lt htwo
      rw [UInt8.toNat_sub_of_le _ _ hle, hbyte]
      rfl
    simp only [if_pos hlt, hone, append_assoc, cons_append, nil_append]
  · rfl

/-- The first packet of a frame: PCR, stuffing if the data ends in it, data. -/
theorem makeVideoTsPacket_start_eq (pts : UInt64) :
    (m.makeVideoTsPacket true data (some pts)).2 =
      headerBytes true videoPid 3 m.videoCc ++ pcrField pts (176 - min data.length 176) ++ data.take 176 := by
  have hlen : (headerBytes true videoPid 3 m.videoCc ++ pcrField pts (176 - min data.length 176) ++
      data.take 176).length = 188 := by
    simp only [length_append, length_headerBytes, length_pcrField, length_take]
    omega
  -- the steps of the builder on a packet whose first bytes are known
  have hsteps : (m.makeVideoTsPacket true data (some pts)).2 =
      (let packet := (if min data.length 176 < 176 then
          setBothControl (headerBytes true videoPid 0 m.videoCc) ++
            pcrField pts (176 - min data.length 176)
        else
          setBothControl (headerBytes true videoPid 0 m.videoCc) ++ pcrField pts 0) ++
          data.take (min data.length 176)
      (packet ++ replicate (tsPacketSize - packet.length) 0xFF).take tsPacketSize) := rfl
  have htake : data.take (min data.length 176) = data.take 176 := by
    rw [min_comm, ← take_take, take_length]
  rw [hsteps, setBothControl_headerBytes, htake]
  by_cases hshort : min data.length 176 < 176
  · rw [if_pos hshort]
    exact fill_eq hlen
  · have hzero : 176 - min data.length 176 = 0 := by
      omega
    rw [hzero] at hlen ⊢
    rw [if_neg hshort]
    exact fill_eq hlen

/-- It has room for 176 bytes behind the PCR. -/
theorem makeVideoTsPacket_start (pts : UInt64) (hne : data ≠ []) :
    Carries (m.makeVideoTsPacket true data (some pts)).2 true videoPid 3 (m.videoCc &&& 0x0F)
      (data.take 176) := by
  rw [makeVideoTsPacket_start_eq]
  refine @carries_packet videoPid (.inr (.inr (.inl rfl))) true m.videoCc 3 _ _ ?_ ?_
    (.inl ⟨rfl, pcrField_eq_cons pts _⟩)
  · rw [length_pcrField, length_take]
    omega
  · simp [hne]

/-- A further packet with a whole payload keeps the control bits `00`. -/
theorem makeVideoTsPacket_full (hfull : 184 ≤ data.length) :
    Carries (m.makeVideoTsPacket false data none).2 false videoPid 0 (m.videoCc &&& 0x0F) (data.take 184) := by
  have hlen : (headerBytes false videoPid 0 m.videoCc ++ [] ++ data.take 184).length = 188 := by
    simp only [length_append, length_headerBytes, length_nil, length_take]
    omega
  have hmin : min data.length (tsPacketSize - 4) = 184 := min_eq_right hfull
  have hge : ¬ (184 < tsPacketSize - 4) := by decide
  -- no PCR and no stuffing: the two places that would set the bits are both passed by
  have heq : (m.makeVideoTsPacket false data none).2 =
      headerBytes false videoPid 0 m.videoCc ++ [] ++ data.take 184 := by
    rw [← fill_eq hlen]
    simp only [makeVideoTsPacket, hmin, if_neg hge]
    rfl
  rw [heq]
  refine @carries_packet videoPid (.inr (.inr (.inl rfl))) false m.videoCc 0 [] _ ?_ ?_
    (.inr ⟨.inl rfl, rfl⟩)
  · simp
    omega
  · have hne : data ≠ [] := length_pos_iff.1 (by omega)
    simp [hne]

theorem makeVideoTsPacket_last (hne : data ≠ []) (hshort : data.length < 184) :
    Carries (m.makeVideoTsPacket false data none).2 false videoPid 3 (m.videoCc &&& 0x0F) data := by
  have hstuff : 0 < 184 - data.length := by omega
  have hlen : (headerBytes false videoPid 3 m.videoCc ++ stuffing (184 - data.length) ++ data).length = 188 := by
    simp only [length_append, length_headerBytes, length_stuffing hstuff]
    omega
  have hmin : min data.length (tsPacketSize - 4) = data.length := min_eq_left (le_of_lt hshort)
  have hlt : data.length < tsPacketSize - 4 := hshort
  have heq : (m.makeVideoTsPacket false data none).2 =
      headerBytes false videoPid 3 m.videoCc ++ stuffing (184 - data.length) ++ data := by
    have hstuffed := addStuffing_eq false videoPid m.videoCc hstuff (sub_le 184 data.length)
    rw [← fill_eq hlen, ← hstuffed]
    simp only [makeVideoTsPacket, hmin, if_pos hlt, take_length]
    rfl
  rw [heq]
  refine @carries_packet videoPid (.inr (.inr (.inl rfl))) false m.videoCc 3 _ _ ?_ hne
    (.inl ⟨rfl, stuffing_eq_cons _⟩)
  rw [length_stuffing hstuff]
  omega

end TsMuxer

end LingVoice.LmProtocol

import LingVoice.Lib.Field
import LingVoice.Lib.Records

/-!
# Box — boxes of the ISO base media file format

A box has a 32-bit size, which counts the header, a type of four bytes and a payload.  `boxes` walks along the size
fields to the end of the data.
-/

namespace LingVoice.Lib

open List

structure Box where
  boxType : Bytes
  payload : Bytes
  deriving DecidableEq, Repr

namespace Box

/-- The box at the front of the data, and what comes after it. -/
def readBox (data : Bytes) : Option (Box × Bytes) :=
  let size := beAt 4 data 0
  if 8 ≤ size ∧ size ≤ data.length then
    some (⟨(data.drop 4).take 4, (data.take size).drop 8⟩, data.drop size)
  else
    none

/-- All boxes, when the last one ends where the data end. -/
def boxes (data : Bytes) : Option (List Box) :=
  records readBox data

variable {data boxType payload : Bytes} {b : Box} {size : UInt32}

theorem readBox_eq_some {rest : Bytes} :
    readBox data = some (b, rest) ↔
      (8 ≤ beAt 4 data 0 ∧ beAt 4 data 0 ≤ data.length) ∧ b.boxType = (data.drop 4).take 4 ∧
        b.payload = (data.take (beAt 4 data 0)).drop 8 ∧ rest = data.drop (beAt 4 data 0) := by
  rw [readBox]
  by_cases h : 8 ≤ beAt 4 data 0 ∧ beAt 4 data 0 ≤ data.length
  · rw [if_pos h]
    constructor
    · intro hsome
      cases hsome
      exact ⟨h, rfl, rfl, rfl⟩
    · rintro ⟨_, htype, hpayload, rfl⟩
      rw [← htype, ← hpayload]
  · rw [if_neg h]
    constructor
    · intro hsome
      cases hsome
    · intro hsome
      exact absurd hsome.1 h

theorem length_lt_of_readBox (data : Bytes) (b : Box) (rest : Bytes) (h : readBox data = some (b, rest)) :
    rest.length < data.length := by
  rcases readBox_eq_some.1 h with ⟨hsize, _, _, rfl⟩
  rw [length_drop]
  omega

theorem readBox_append (hsize : size.toNat = 8 + payload.length) (htype : boxType.length = 4) (rest : Bytes) :
    readBox (be32 size ++ boxType ++ (payload ++ rest)) = some (⟨boxType, payload⟩, rest) := by
  have hbe : beAt 4 (be32 size ++ boxType ++ (payload ++ rest)) 0 = 8 + payload.length := by
    rw [← hsize, be32, append_assoc, beAt_front]
    exact Nat.mod_eq_of_lt size.toNat_lt
  have hheader : (be32 size ++ boxType).length = 8 := by
    rw [length_append, length_be32, htype]
  refine readBox_eq_some.2 ?_
  rw [hbe]
  refine ⟨⟨Nat.le_add_right _ _, ?_⟩, ?_, ?_, ?_⟩
  · rw [length_append, hheader, length_append]
    omega
  · rw [append_assoc, drop_left' (length_be32 size), take_left' htype]
  · rw [take_append, hheader, Nat.add_sub_cancel_left, take_left, take_of_length_le (by omega), drop_left' hheader]
  · rw [drop_append, hheader, Nat.add_sub_cancel_left, drop_left, drop_of_length_le (by omega), nil_append]

theorem exists_of_boxes_cons {bs : List Box} (h : boxes data = some (b :: bs)) :
    ∃ rest, readBox data = some (b, rest) ∧ boxes rest = some bs :=
  exists_of_records_cons length_lt_of_readBox h

end Box
end LingVoice.Lib

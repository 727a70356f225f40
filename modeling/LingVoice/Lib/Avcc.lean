import LingVoice.Lib.Field
import LingVoice.Lib.Records

/-!
# Avcc — units behind lengths of four bytes

The other way to put the units of an H.264 frame together.  `units` reads them; the length field holds the length of a
unit up to `2 ^ 32`.  The parameter sets stand in a record of their own, which `readConfig` reads.
-/

namespace LingVoice.Lib.Avcc

open List

def readUnit (data : Bytes) : Option (Bytes × Bytes) :=
  if data.length < 4 then
    none
  else
    let length := beAt 4 data 0
    let rest := data.drop 4
    if rest.length < length then none else some (rest.take length, rest.drop length)

def units (data : Bytes) : Option (List Bytes) :=
  records readUnit data

def encodeUnit (unit : Bytes) : Bytes :=
  be32 (UInt32.ofNat unit.length) ++ unit

theorem length_lt_of_readUnit (data unit rest : Bytes) (h : readUnit data = some (unit, rest)) :
    rest.length < data.length := by
  unfold readUnit at h
  split at h
  · cases h
  · dsimp only at h
    split at h
    · cases h
    · cases h
      simp only [length_drop]
      omega

/-- The reader takes as many bytes as the low 32 bits of the length say. -/
theorem readUnit_encodeUnit (unit rest : Bytes) :
    readUnit (encodeUnit unit ++ rest) =
      some ((unit ++ rest).take (unit.length % 2 ^ 32), (unit ++ rest).drop (unit.length % 2 ^ 32)) := by
  have hlength : ¬ (encodeUnit unit ++ rest).length < 4 := by simp [encodeUnit]
  have hfield : beAt 4 (encodeUnit unit ++ rest) 0 = unit.length % 2 ^ 32 := by
    have hmod : (UInt32.ofNat unit.length).toNat = unit.length % 2 ^ 32 := UInt32.toNat_ofNat'
    rw [encodeUnit, append_assoc, be32, beAt_front, hmod]
    exact Nat.mod_mod unit.length (2 ^ 32)
  have hdrop : (encodeUnit unit ++ rest).drop 4 = unit ++ rest := by
    rw [encodeUnit, append_assoc]
    exact drop_left' (length_be32 _)
  have hfits : ¬ (unit ++ rest).length < unit.length % 2 ^ 32 := by
    have hle := Nat.mod_le unit.length (2 ^ 32)
    rw [length_append]
    omega
  rw [readUnit, if_neg hlength]
  simp only [hfield, hdrop, if_neg hfits]

theorem units_encode_iff (list : List Bytes) :
    units (list.flatMap encodeUnit) = some list ↔ ∀ unit ∈ list, unit.length < 2 ^ 32 := by
  induction list with
  | nil => simp [units]
  | cons unit list ih =>
    have hstep := records_cons length_lt_of_readUnit (readUnit_encodeUnit unit (list.flatMap encodeUnit))
    rw [forall_mem_cons, ← ih, flatMap_cons]
    unfold units
    rw [hstep, Option.map_eq_some_iff]
    constructor
    · rintro ⟨later, hlater, heq⟩
      rw [List.cons.injEq] at heq
      -- the unit that is read has the length of the field
      have hshort : unit.length < 2 ^ 32 := by
        have hlen := congrArg List.length heq.1
        have hlt := Nat.mod_lt unit.length (Nat.two_pow_pos 32)
        rw [length_take, length_append] at hlen
        omega
      rw [Nat.mod_eq_of_lt hshort, drop_left, heq.2] at hlater
      exact ⟨hshort, hlater⟩
    · rintro ⟨hshort, hlater⟩
      rw [Nat.mod_eq_of_lt hshort, take_left, drop_left]
      exact ⟨list, hlater, rfl⟩

/-! ## The decoder configuration record -/

/-- The parameter sets of a decoder configuration with one of each. -/
def readConfig (config : Bytes) : Option (Bytes × Bytes) :=
  let spsLength := beAt 2 config 6
  let rest := config.drop (8 + spsLength)
  let ppsLength := beAt 2 rest 1
  if config.length < 8 + spsLength + 3 ∨ byteAt config 0 ≠ 1 ∨ byteAt config 5 &&& 0x1F ≠ 1 ∨ byteAt rest 0 ≠ 1 ∨
      rest.length ≠ 3 + ppsLength then
    none
  else
    some ((config.drop 8).take spsLength, rest.drop 3)

/-- The parameter sets of a record are read back exactly when their lengths fit in 16 bits. -/
theorem readConfig_record_iff {profile compatibility level : UInt8} {config sps pps : Bytes}
    (hconfig : config = [0x01, profile, compatibility, level, 0xFF, 0xE1] ++ (toBe 2 sps.length ++ (sps ++
      (0x01 :: (toBe 2 pps.length ++ pps))))) :
    readConfig config = some (sps, pps) ↔ sps.length < 2 ^ 16 ∧ pps.length < 2 ^ 16 := by
  -- the reader goes by the low 16 bits of the lengths
  have hsps : beAt 2 config 6 = sps.length % 2 ^ 16 := by
    rw [hconfig, beAt_append_right (Nat.le_refl 6)]
    exact beAt_front 2 sps.length _
  have hlength : config.length = 8 + sps.length + 3 + pps.length := by
    rw [hconfig]
    simp
    omega
  have hdrop : config.drop 8 = sps ++ (0x01 :: (toBe 2 pps.length ++ pps)) := by
    rw [hconfig, ← append_assoc]
    exact drop_left' (by simp)
  have hfirst : byteAt config 0 = 1 := by
    rw [hconfig]
    rfl
  have hcount : byteAt config 5 &&& 0x1F = 1 := by
    have hbyte : byteAt config 5 = 0xE1 := by
      rw [hconfig]
      rfl
    rw [hbyte]
    decide
  by_cases hshort : sps.length < 2 ^ 16
  · have hrest : config.drop (8 + sps.length) = 0x01 :: (toBe 2 pps.length ++ pps) := by
      rw [← drop_drop, hdrop, drop_left]
    have hpps : beAt 2 (0x01 :: (toBe 2 pps.length ++ pps)) 1 = pps.length % 2 ^ 16 := beAt_front 2 pps.length pps
    have hrestLength : (0x01 :: (toBe 2 pps.length ++ pps)).length = 3 + pps.length := by
      simp
      omega
    have hrestFirst : byteAt (0x01 :: (toBe 2 pps.length ++ pps)) 0 = 1 := rfl
    have hbehind : (0x01 :: (toBe 2 pps.length ++ pps)).drop 3 = pps := rfl
    have hfits : ¬ config.length < 8 + sps.length + 3 := by omega
    simp only [readConfig, hsps, Nat.mod_eq_of_lt hshort, hrest, hpps, hrestLength, hrestFirst, hfirst, hcount,
      hfits, hdrop, take_left, hbehind, ne_eq, not_true, false_or, hshort, true_and]
    split
    · rename_i hne
      simp only [false_iff, reduceCtorEq]
      omega
    · rename_i heq
      simp only [true_iff]
      omega
  · refine iff_of_false ?_ (fun h => hshort h.1)
    intro h
    unfold readConfig at h
    dsimp only at h
    split at h
    · cases h
    · rw [Option.some.injEq, Prod.mk.injEq, hsps] at h
      have hlen := congrArg length h.1
      rw [length_take] at hlen
      omega

end LingVoice.Lib.Avcc

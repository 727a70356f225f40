import LingVoice.Lib.Bytes
import Mathlib.Data.Nat.Bitwise

/-!
# Crc32 — checksums with the polynomial of CRC-32

Polynomial `0x04C11DB7`, most significant bit first, no final inversion.  Sections of MPEG-2 start with all ones,
pages of Ogg with zero.
-/

namespace LingVoice.Lib.Crc32

def crcBit (crc : UInt32) : UInt32 :=
  if crc &&& 0x80000000 ≠ 0 then (crc <<< 1) ^^^ 0x04C11DB7 else crc <<< 1

def crcByte (crc : UInt32) (byte : UInt8) : UInt32 :=
  let crc := crc ^^^ (byte.toUInt32 <<< 24)
  crcBit (crcBit (crcBit (crcBit (crcBit (crcBit (crcBit (crcBit crc)))))))

def mpeg2 (data : Bytes) : UInt32 :=
  data.foldl crcByte 0xFFFFFFFF

def ogg (data : Bytes) : UInt32 :=
  data.foldl crcByte 0

/-! ## By a table -/

theorem and_top_ne_zero_iff (crc : UInt32) : crc &&& 0x80000000 ≠ 0 ↔ crc.toNat.testBit 31 = true := by
  have htop : (crc &&& 0x80000000).toNat = (crc.toNat.testBit 31).toNat * 2 ^ 31 := by
    rw [UInt32.toNat_and, ← Nat.and_two_pow]
    rfl
  rw [Ne, ← UInt32.toNat_inj, htop]
  cases crc.toNat.testBit 31 <;> decide

/-- One bit is a shift, and the polynomial where the top bit was set. -/
theorem crcBit_eq (crc : UInt32) : crcBit crc = (crc <<< 1) ^^^ (if crc.toNat.testBit 31 then 0x04C11DB7 else 0) := by
  unfold crcBit
  simp only [and_top_ne_zero_iff]
  split
  · rfl
  · rw [UInt32.xor_zero]

theorem crcBit_xor (a b : UInt32) : crcBit (a ^^^ b) = crcBit a ^^^ crcBit b := by
  have hshift : (a ^^^ b) <<< 1 = a <<< 1 ^^^ b <<< 1 := UInt32.shiftLeft_xor
  have hpoly (p q : Bool) : (if p ^^ q then 0x04C11DB7 else 0 : UInt32) =
      (if p then 0x04C11DB7 else 0) ^^^ (if q then 0x04C11DB7 else 0) := by
    cases p <;> cases q <;> rfl
  rw [crcBit_eq, crcBit_eq, crcBit_eq, UInt32.toNat_xor, Nat.testBit_xor, hshift, hpoly]
  ac_rfl

theorem crcBit_of_lt {crc : UInt32} (h : crc.toNat < 2 ^ 31) :
    crcBit crc = crc <<< 1 ∧ (crcBit crc).toNat = 2 * crc.toNat := by
  have hbit : crc.toNat.testBit 31 = false := Nat.testBit_lt_two_pow h
  have hshift : crcBit crc = crc <<< 1 := by
    rw [crcBit_eq, hbit]
    exact UInt32.xor_zero
  refine ⟨hshift, ?_⟩
  rw [hshift, UInt32.toNat_shiftLeft]
  change (crc.toNat <<< 1) % 2 ^ 32 = _
  rw [Nat.shiftLeft_eq, Nat.mod_eq_of_lt (by omega)]
  omega

def crcBits (crc : UInt32) : UInt32 :=
  crcBit (crcBit (crcBit (crcBit (crcBit (crcBit (crcBit (crcBit crc)))))))

theorem crcBits_xor (a b : UInt32) : crcBits (a ^^^ b) = crcBits a ^^^ crcBits b := by
  simp only [crcBits, crcBit_xor]

theorem toNat_crcBits_of_lt {crc : UInt32} (h : crc.toNat < 2 ^ 24) : (crcBits crc).toNat = 2 ^ 8 * crc.toNat := by
  have step {n : Nat} {x : UInt32} (hx : x.toNat = 2 ^ n * crc.toNat) (hn : n < 8) :
      (crcBit x).toNat = 2 ^ (n + 1) * crc.toNat := by
    have hle : 2 ^ n * crc.toNat < 2 ^ 31 := by
      calc 2 ^ n * crc.toNat ≤ 2 ^ 7 * crc.toNat := Nat.mul_le_mul_right _ (Nat.pow_le_pow_right (by omega) (by omega))
        _ < 2 ^ 31 := by omega
    rw [(crcBit_of_lt (by omega)).2, hx, Nat.pow_succ, Nat.mul_comm (2 ^ n) 2, Nat.mul_assoc]
  have h0 : crc.toNat = 2 ^ 0 * crc.toNat := by omega
  exact step (step (step (step (step (step (step (step h0 (by omega)) (by omega)) (by omega)) (by omega)) (by omega))
    (by omega)) (by omega)) (by omega)

theorem split_top_byte {crc byte : Nat} (hcrc : crc < 2 ^ 32) (hbyte : byte < 2 ^ 8) :
    crc ^^^ byte <<< 24 = (crc &&& (2 ^ 24 - 1)) ^^^ ((crc >>> 24 ^^^ byte) &&& (2 ^ 8 - 1)) <<< 24 := by
  apply Nat.eq_of_testBit_eq
  intro i
  simp only [Nat.testBit_xor, Nat.testBit_and, Nat.testBit_shiftLeft, Nat.testBit_shiftRight,
    Nat.testBit_two_pow_sub_one]
  by_cases hi : i < 24
  · simp [hi, Nat.not_le.2 hi]
  · have hpos : 24 + (i - 24) = i := by omega
    by_cases htop : i - 24 < 8
    · simp [hi, htop, hpos, Nat.not_lt.1 hi]
    · -- both numbers end before the bit
      have hcrc' : crc.testBit i = false :=
        Nat.testBit_lt_two_pow (Nat.lt_of_lt_of_le hcrc (Nat.pow_le_pow_right (by omega) (by omega)))
      have hbyte' : byte.testBit (i - 24) = false :=
        Nat.testBit_lt_two_pow (Nat.lt_of_lt_of_le hbyte (Nat.pow_le_pow_right (by omega) (by omega)))
      simp [hi, htop, hcrc', hbyte']

/-- The usual way by a table of the 256 bytes. -/
theorem crcByte_eq_table (crc : UInt32) (byte : UInt8) :
    crcByte crc byte = (crc <<< 8) ^^^ crcBits ((((crc >>> 24) ^^^ byte.toUInt32) &&& 0xFF) <<< 24) := by
  -- the division is linear: the lower 24 bits are only shifted, the upper byte is what the table is for
  have hsplit : crc ^^^ (byte.toUInt32 <<< 24) =
      (crc &&& (0xFFFFFF : UInt32)) ^^^ ((((crc >>> 24) ^^^ byte.toUInt32) &&& 0xFF) <<< 24) := by
    have hbyte : byte.toUInt32.toNat < 2 ^ 8 := by
      rw [UInt8.toNat_toUInt32]
      exact byte.toNat_lt
    have hcrc : crc.toNat < 2 ^ 32 := crc.toNat_lt
    have hshift {n : Nat} (hn : n < 2 ^ 8) : n <<< 24 % 2 ^ 32 = n <<< 24 := by
      rw [Nat.shiftLeft_eq]
      omega
    have hand : (crc.toNat >>> 24 ^^^ byte.toUInt32.toNat) &&& (2 ^ 8 - 1) < 2 ^ 8 := by
      rw [Nat.and_two_pow_sub_one_eq_mod]
      exact Nat.mod_lt _ (by omega)
    rw [← UInt32.toNat_inj]
    simp only [UInt32.toNat_xor, UInt32.toNat_and, UInt32.toNat_shiftLeft, UInt32.toNat_shiftRight]
    change crc.toNat ^^^ byte.toUInt32.toNat <<< 24 % 2 ^ 32 = (crc.toNat &&& (2 ^ 24 - 1)) ^^^
      ((crc.toNat >>> 24 ^^^ byte.toUInt32.toNat) &&& (2 ^ 8 - 1)) <<< 24 % 2 ^ 32
    rw [hshift hbyte, hshift hand]
    exact split_top_byte hcrc hbyte
  have hlow : crcBits (crc &&& (0xFFFFFF : UInt32)) = crc <<< 8 := by
    have hmask : (crc &&& (0xFFFFFF : UInt32)).toNat = crc.toNat % 2 ^ 24 := by
      rw [UInt32.toNat_and]
      exact Nat.and_two_pow_sub_one_eq_mod _ 24
    rw [← UInt32.toNat_inj, toNat_crcBits_of_lt (by rw [hmask]; exact Nat.mod_lt _ (by omega)), hmask,
      UInt32.toNat_shiftLeft]
    change _ = (crc.toNat <<< 8) % 2 ^ 32
    rw [Nat.shiftLeft_eq]
    omega
  change crcBits (crc ^^^ (byte.toUInt32 <<< 24)) = _
  rw [hsplit, crcBits_xor, hlow]

end LingVoice.Lib.Crc32

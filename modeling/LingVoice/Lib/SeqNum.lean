import Mathlib.Algebra.Group.Nat.Defs

/-!
# SeqNum — sixteen-bit sequence numbers of an unbounded numbering

A sender numbers its packets `0, 1, 2, …` and writes `UInt16.ofNat n` into packet `n`.  A receiver
that sees two such numbers knows the distance of the packets modulo `2 ^ 16`, so as long as the
packets it compares are near each other it knows which is ahead and by how much.
-/

namespace LingVoice.Lib.SeqNum

theorem toNat_ofNat (n : Nat) : (UInt16.ofNat n).toNat = n % 2 ^ 16 :=
  UInt16.toNat_ofNat'

/-- The wrapped difference of two numbers is their distance modulo `2 ^ 16`. -/
theorem toNat_sub (m n : Nat) : (UInt16.ofNat n - UInt16.ofNat m).toNat = (n + (2 ^ 16 - m % 2 ^ 16)) % 2 ^ 16 := by
  rw [UInt16.toNat_sub, toNat_ofNat, toNat_ofNat]
  omega

variable {m n : Nat}

/-- Ahead by less than the range: the wrapped difference is the distance. -/
theorem toNat_sub_of_le (hle : m ≤ n) (hlt : n - m < 2 ^ 16) : (UInt16.ofNat n - UInt16.ofNat m).toNat = n - m := by
  rw [toNat_sub]
  omega

/-- Behind by less than the range: the wrapped difference is what the distance lacks to it. -/
theorem toNat_sub_of_lt (hlt : n < m) (hle : m - n < 2 ^ 16) :
    (UInt16.ofNat n - UInt16.ofNat m).toNat = 2 ^ 16 - (m - n) := by
  rw [toNat_sub]
  omega

/-- Seen as a signed number, the wrapped difference of packets near each other is the signed distance. -/
theorem toInt_sub_of_near (hmn : m < n + 2 ^ 15) (hnm : n < m + 2 ^ 15) :
    (UInt16.ofNat n - UInt16.ofNat m).toInt16.toInt = (n : Int) - m := by
  have hbits : (UInt16.ofNat n - UInt16.ofNat m).toInt16.toInt =
      (((UInt16.ofNat n - UInt16.ofNat m).toNat : Nat) : Int).bmod (2 ^ 16) := BitVec.toInt_eq_toNat_bmod _
  rw [hbits, toNat_sub, Int.bmod_def]
  split
  · omega
  · omega

/-- Numbers of packets that are near each other are told apart. -/
theorem ofNat_inj_of_near (hmn : m < n + 2 ^ 16) (hnm : n < m + 2 ^ 16) : UInt16.ofNat m = UInt16.ofNat n ↔ m = n := by
  rw [← UInt16.toNat_inj, toNat_ofNat, toNat_ofNat]
  omega

theorem ofNat_add_one (n : Nat) : UInt16.ofNat n + 1 = UInt16.ofNat (n + 1) := by
  rw [← UInt16.toNat_inj, UInt16.toNat_add, toNat_ofNat, toNat_ofNat]
  have hone : (1 : UInt16).toNat = 1 := rfl
  omega

end LingVoice.Lib.SeqNum

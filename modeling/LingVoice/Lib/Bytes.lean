/-!
# Bytes — byte strings
-/

namespace LingVoice

/-- A byte string; `[]byte` and `Vec<u8>` in the sources. -/
abbrev Bytes := List UInt8

namespace Lib

/-- A fact about every byte, from a table of its 256 values. -/
theorem forall_byte {P : UInt8 → Prop} (htable : ∀ n < 256, P (UInt8.ofNat n)) (b : UInt8) : P b := by
  have hb := htable b.toNat b.toNat_lt
  rw [UInt8.ofNat_toNat] at hb
  exact hb

end Lib
end LingVoice

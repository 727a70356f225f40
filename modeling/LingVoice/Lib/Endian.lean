import LingVoice.Lib.Bytes
import Mathlib.Data.List.Induction
import Mathlib.Tactic.Ring

/-!
# Endian — fixed-width numbers as byte strings

`toBe w n` writes the low `w` bytes of `n`, most significant byte first, and `ofBe` reads a byte
string back as a number.  The little-endian pair `toLe` / `ofLe` is the same reversed.
-/

namespace LingVoice.Lib

/-! ## Big-endian -/

/-- The low `w` bytes of `n`, most significant first. -/
def toBe : Nat → Nat → Bytes
  | 0, _ => []
  | w + 1, n => toBe w (n / 256) ++ [UInt8.ofNat n]

/-- The number a big-endian byte string stands for. -/
def ofBe (bs : Bytes) : Nat :=
  bs.foldl (fun acc b => acc * 256 + b.toNat) 0

variable (w n : Nat)

@[simp] theorem length_toBe : (toBe w n).length = w := by
  induction w generalizing n with
  | zero => rfl
  | succ w ih => simp [toBe, ih]

@[simp] theorem ofBe_nil : ofBe [] = 0 := rfl

variable (bs : Bytes)

@[simp] theorem ofBe_append_singleton (b : UInt8) : ofBe (bs ++ [b]) = ofBe bs * 256 + b.toNat := by
  simp [ofBe]

theorem toBe_succ_eq_cons : toBe (w + 1) n = UInt8.ofNat (n / 256 ^ w) :: toBe w n := by
  induction w generalizing n with
  | zero => simp [toBe]
  | succ w ih =>
    have hdiv : n / 256 / 256 ^ w = n / 256 ^ (w + 1) := by
      rw [Nat.div_div_eq_div_mul, Nat.pow_succ']
    have hstep : toBe (w + 1 + 1) n = toBe (w + 1) (n / 256) ++ [UInt8.ofNat n] := rfl
    rw [hstep, ih, hdiv]
    rfl

/-- Reading back what `toBe` wrote loses exactly the bytes above the width. -/
theorem ofBe_toBe : ofBe (toBe w n) = n % 256 ^ w := by
  induction w generalizing n with
  | zero => simp [toBe, Nat.mod_one]
  | succ w ih =>
    have hpow : (256 : Nat) ^ (w + 1) = 256 * 256 ^ w := by
      ring
    have hsplit : n % (256 * 256 ^ w) = n % 256 + 256 * (n / 256 % 256 ^ w) :=
      Nat.mod_mul
    -- the last byte is `n % 256`, and the bytes before it are those of `n / 256`
    rw [toBe, ofBe_append_singleton, ih, hpow, hsplit]
    simp
    ring

theorem ofBe_toBe_of_lt {w n : Nat} (h : n < 256 ^ w) : ofBe (toBe w n) = n := by
  rw [ofBe_toBe, Nat.mod_eq_of_lt h]

/-- Every byte string is written by the number it stands for. -/
theorem toBe_ofBe : toBe bs.length (ofBe bs) = bs := by
  induction bs using List.reverseRecOn with
  | nil => rfl
  | append_singleton bs b ih =>
    have hb := b.toNat_lt
    have hhigh : (ofBe bs * 256 + b.toNat) / 256 = ofBe bs := by omega
    have hlow : UInt8.ofNat (ofBe bs * 256 + b.toNat) = b := by
      apply UInt8.toNat_inj.1
      rw [UInt8.toNat_ofNat']
      omega
    rw [ofBe_append_singleton, List.length_append, List.length_singleton, toBe, hhigh, hlow, ih]

theorem ofBe_lt : ofBe bs < 256 ^ bs.length := by
  have hval := ofBe_toBe bs.length (ofBe bs)
  rw [toBe_ofBe] at hval
  rw [hval]
  exact Nat.mod_lt _ (Nat.pow_pos (by decide))

theorem toBe_eq_iff {w m n : Nat} : toBe w m = toBe w n ↔ m % 256 ^ w = n % 256 ^ w := by
  induction w generalizing m n with
  | zero => simp [toBe, Nat.mod_one]
  | succ w ih =>
    constructor
    · intro h
      -- equal bytes stand for equal numbers
      have hval := congrArg ofBe h
      simpa [ofBe_toBe] using hval
    · intro h
      have hpow : (256 : Nat) ^ (w + 1) = 256 * 256 ^ w := by
        ring
      rw [hpow, Nat.mod_mul, Nat.mod_mul] at h
      -- both remainders split into a last byte and the rest
      have hlow : m % 256 = n % 256 := by omega
      have hhigh : m / 256 % 256 ^ w = n / 256 % 256 ^ w := by omega
      have hbyte : UInt8.ofNat m = UInt8.ofNat n := by
        apply UInt8.toNat_inj.1
        simpa using hlow
      simp [toBe, ih.2 hhigh, hbyte]

/-- Dropping the leading bytes of a wide encoding leaves the narrow one. -/
theorem drop_toBe (k w n : Nat) : (toBe (k + w) n).drop k = toBe w n := by
  induction w generalizing n with
  | zero => simp [toBe]
  | succ w ih =>
    have hstep : toBe (k + (w + 1)) n = toBe (k + w) (n / 256) ++ [UInt8.ofNat n] := rfl
    have hlen : k ≤ (toBe (k + w) (n / 256)).length := by simp
    rw [hstep, List.drop_append_of_le_length hlen, ih, toBe]

/-! ## Little-endian -/

/-- The low `w` bytes of `n`, least significant first. -/
def toLe (w n : Nat) : Bytes :=
  (toBe w n).reverse

/-- The number a little-endian byte string stands for. -/
def ofLe (bs : Bytes) : Nat :=
  ofBe bs.reverse

@[simp] theorem length_toLe : (toLe w n).length = w := by
  simp [toLe]

theorem ofLe_toLe_of_lt {w n : Nat} (h : n < 256 ^ w) : ofLe (toLe w n) = n := by
  simp [ofLe, toLe, ofBe_toBe_of_lt h]

end LingVoice.Lib

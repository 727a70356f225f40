import Mathlib.Data.List.Basic
import Mathlib.Data.Nat.Bitwise

/-!
# Bitmap — the multi-word replay bitmap of `lm-srtp`

`bitmap_get`, `bitmap_set` and `bitmap_shift_left` work on a slice of 64-bit words.  The shift runs
in place, from the highest word down, so that a word is read before it is overwritten; the model
keeps that loop, and `bitmapGet_bitmapShiftLeft` says what it computes: bit `k` of the result is bit
`k - shift` of the argument.
-/

namespace LingVoice.LmSrtp

open List Nat

/-! ## The three operations -/

def bitmapGet (bitmap : List UInt64) (pos : Nat) : Bool :=
  let word := pos / 64
  let bit := pos % 64
  -- positions past the last word read as unset
  if bitmap.length ≤ word then
    false
  else
    ((bitmap.getD word 0) >>> UInt64.ofNat bit) &&& 1 == 1

def bitmapSet (bitmap : List UInt64) (pos : Nat) : List UInt64 :=
  let word := pos / 64
  let bit := pos % 64
  if word < bitmap.length then
    bitmap.set word (bitmap.getD word 0 ||| (1 <<< UInt64.ofNat bit))
  else
    bitmap

/-- The value the shift loop stores at word `i`, read from the words as they are then. -/
def shiftedWord (bitmap : List UInt64) (wordShift bitShift i : Nat) : UInt64 :=
  let lo :=
    if wordShift ≤ i then
      bitmap.getD (i - wordShift) 0 <<< UInt64.ofNat bitShift
    else
      0
  let hi :=
    if 0 < bitShift ∧ wordShift + 1 ≤ i then
      bitmap.getD (i - wordShift - 1) 0 >>> UInt64.ofNat (64 - bitShift)
    else
      0
  lo ||| hi

/-- `for i in (0..n).rev()`: words `n - 1, …, 0` are overwritten in this order. -/
def shiftWords (wordShift bitShift : Nat) : List UInt64 → Nat → List UInt64
  | bitmap, 0 => bitmap
  | bitmap, i + 1 =>
    shiftWords wordShift bitShift (bitmap.set i (shiftedWord bitmap wordShift bitShift i)) i

def bitmapShiftLeft (bitmap : List UInt64) (shift : Nat) : List UInt64 :=
  if shift = 0 ∨ bitmap = [] then
    bitmap
  else
    let nWords := bitmap.length
    let wordShift := shift / 64
    let bitShift := shift % 64
    -- every bit leaves the words
    if nWords ≤ wordShift then
      bitmap.map fun _ => 0
    else
      shiftWords wordShift bitShift bitmap nWords

/-! ## Bits of one word -/

def wordBit (w : UInt64) (i : Nat) : Bool :=
  w.toNat.testBit i

variable {i s k wordShift bitShift shift : Nat} {bitmap : List UInt64} (w : UInt64)

theorem wordBit_eq_false_of_le (h : 64 ≤ i) : wordBit w i = false := by
  apply testBit_eq_false_of_lt
  calc
    w.toNat < 2 ^ 64 := w.toNat_lt
    _ ≤ 2 ^ i := Nat.pow_le_pow_right (by decide) h

@[simp] theorem wordBit_zero (i : Nat) : wordBit 0 i = false := by
  simp [wordBit]

@[simp] theorem wordBit_or (a b : UInt64) (i : Nat) : wordBit (a ||| b) i = (wordBit a i || wordBit b i) := by
  simp [wordBit]

theorem toNat_ofNat_mod_bits (hs : s < 64) : (UInt64.ofNat s).toNat % 64 = s := by
  rw [UInt64.toNat_ofNat']
  omega

theorem wordBit_shiftLeft (hs : s < 64) (hi : i < 64) :
    wordBit (w <<< UInt64.ofNat s) i = (decide (s ≤ i) && wordBit w (i - s)) := by
  rw [wordBit, UInt64.toNat_shiftLeft, toNat_ofNat_mod_bits hs, testBit_mod_two_pow, testBit_shiftLeft]
  simp [wordBit, hi]

theorem wordBit_shiftRight (hs : s < 64) (i : Nat) : wordBit (w >>> UInt64.ofNat s) i = wordBit w (s + i) := by
  rw [wordBit, UInt64.toNat_shiftRight, toNat_ofNat_mod_bits hs, testBit_shiftRight, wordBit]

theorem wordBit_one_iff : wordBit 1 i = true ↔ i = 0 :=
  testBit_one_eq_true_iff_self_eq_zero

theorem wordBit_one_shiftLeft_iff (hs : s < 64) (hi : i < 64) : wordBit (1 <<< UInt64.ofNat s) i = true ↔ i = s := by
  rw [wordBit_shiftLeft 1 hs hi, Bool.and_eq_true, decide_eq_true_iff, wordBit_one_iff]
  omega

theorem and_one_beq_one : (w &&& 1 == 1) = wordBit w 0 := by
  have hval : (w &&& 1).toNat = w.toNat % 2 := by simp
  rw [wordBit, testBit_zero]
  by_cases hodd : w.toNat % 2 = 1
  · have heq : w &&& 1 = 1 := by
      apply UInt64.toNat_inj.1
      rw [hval, hodd]
      rfl
    simp [heq, hodd]
  · have hne : w &&& 1 ≠ 1 := by
      intro heq
      rw [heq] at hval
      exact hodd hval.symm
    simp [hne, hodd]

/-! ## Reading and setting a bit -/

/-- A position outside the words reads as an unset bit, so the bounds check can be dropped. -/
theorem bitmapGet_eq_wordBit (bitmap : List UInt64) (pos : Nat) :
    bitmapGet bitmap pos = wordBit (bitmap.getD (pos / 64) 0) (pos % 64) := by
  have hbit : pos % 64 < 64 := mod_lt _ (by decide)
  unfold bitmapGet
  by_cases hout : bitmap.length ≤ pos / 64
  · simp [hout]
  · simp only [hout, if_false]
    rw [and_one_beq_one, wordBit_shiftRight _ hbit, add_zero]

@[simp] theorem length_bitmapSet (bitmap : List UInt64) (pos : Nat) :
    (bitmapSet bitmap pos).length = bitmap.length := by
  simp only [bitmapSet]
  split <;> simp

theorem bitmapGet_bitmapSet {pos : Nat} (hk : k < 64 * bitmap.length) :
    bitmapGet (bitmapSet bitmap pos) k = true ↔ k = pos ∨ bitmapGet bitmap k = true := by
  have hkbit : k % 64 < 64 := mod_lt _ (by decide)
  have hpbit : pos % 64 < 64 := mod_lt _ (by decide)
  have hkword : k / 64 < bitmap.length := by omega
  rw [bitmapGet_eq_wordBit, bitmapGet_eq_wordBit]
  unfold bitmapSet
  by_cases hpword : pos / 64 < bitmap.length
  · simp only [hpword, if_true]
    -- inside the word that is written the other bits stay, other words are not touched
    by_cases hsame : k / 64 = pos / 64
    · have hget : (bitmap.set (pos / 64) (bitmap.getD (pos / 64) 0 ||| 1 <<< UInt64.ofNat (pos % 64))).getD
          (k / 64) 0 = bitmap.getD (k / 64) 0 ||| 1 <<< UInt64.ofNat (pos % 64) := by
        simp [hsame, getD_eq_getElem?_getD, hpword]
      have hpos : k % 64 = pos % 64 ↔ k = pos := by omega
      rw [hget, wordBit_or, Bool.or_eq_true, wordBit_one_shiftLeft_iff hpbit hkbit, hpos]
      exact or_comm
    · have hne : k ≠ pos := by
        intro heq
        exact hsame (by rw [heq])
      have hget : (bitmap.set (pos / 64) (bitmap.getD (pos / 64) 0 ||| 1 <<< UInt64.ofNat (pos % 64))).getD
          (k / 64) 0 = bitmap.getD (k / 64) 0 := by
        simp [getD_eq_getElem?_getD, Ne.symm hsame]
      rw [hget]
      simp [hne]
  · have hne : k ≠ pos := by
      intro heq
      rw [heq] at hkword
      exact hpword hkword
    simp [hpword, hne]

/-! ## The shift -/

@[simp] theorem length_shiftWords (wordShift bitShift : Nat) (bitmap : List UInt64) (n : Nat) :
    (shiftWords wordShift bitShift bitmap n).length = bitmap.length := by
  induction n generalizing bitmap with
  | zero => rfl
  | succ n ih => simp [shiftWords, ih]

@[simp] theorem length_bitmapShiftLeft (bitmap : List UInt64) (shift : Nat) :
    (bitmapShiftLeft bitmap shift).length = bitmap.length := by
  simp only [bitmapShiftLeft]
  split
  · rfl
  · split <;> simp

/-- The words read for position `j` lie at or below `j`, so overwriting a higher word is harmless. -/
theorem shiftedWord_set {j : Nat} (v : UInt64) (hj : j < i) :
    shiftedWord (bitmap.set i v) wordShift bitShift j = shiftedWord bitmap wordShift bitShift j := by
  have hlow : ∀ m, m ≤ j → (bitmap.set i v).getD m 0 = bitmap.getD m 0 := by
    intro m hm
    have hne : i ≠ m := by omega
    simp [getD_eq_getElem?_getD, hne]
  simp only [shiftedWord]
  rw [hlow (j - wordShift) (by omega), hlow (j - wordShift - 1) (by omega)]

/-- After the loop has run over words `n - 1, …, 0` these hold their new value, computed from the
original words, and the words above are untouched. -/
theorem getD_shiftWords {n : Nat} (hn : n ≤ bitmap.length) (j : Nat) :
    (shiftWords wordShift bitShift bitmap n).getD j 0 =
      if j < n then shiftedWord bitmap wordShift bitShift j else bitmap.getD j 0 := by
  induction n generalizing bitmap with
  | zero => simp [shiftWords]
  | succ i ih =>
    have hi : i ≤ (bitmap.set i (shiftedWord bitmap wordShift bitShift i)).length := by
      simp
      omega
    rw [shiftWords, ih hi]
    -- a word below `i` is still to be written, from words that the write at `i` left alone
    by_cases hlt : j < i
    · have hsucc : j < i + 1 := by
        omega
      simp only [hlt, hsucc, if_true]
      exact shiftedWord_set _ hlt
    · by_cases heq : j = i
      · have hilen : i < bitmap.length := by
          omega
        simp [heq, getD_eq_getElem?_getD, hilen]
      · have hge : ¬ j < i + 1 := by
          omega
        have hne : i ≠ j := Ne.symm heq
        simp [hlt, hge, getD_eq_getElem?_getD, hne]

/-- A bit of the shifted word comes from the low source word or, when the shift is not a whole
number of words, from the word below it. -/
theorem wordBit_shiftedWord {b : Nat} (hb : b < 64) :
    wordBit (shiftedWord bitmap (shift / 64) (shift % 64) i) b = true ↔
      shift ≤ 64 * i + b ∧ bitmapGet bitmap (64 * i + b - shift) = true := by
  have hbs : shift % 64 < 64 := mod_lt _ (by decide)
  simp only [shiftedWord, wordBit_or, Bool.or_eq_true]
  rw [bitmapGet_eq_wordBit]
  by_cases hcross : shift % 64 ≤ b
  · -- the bit stays inside its source word, and the word below contributes nothing
    have hhi : ∀ w : UInt64, wordBit (if 0 < shift % 64 ∧ shift / 64 + 1 ≤ i then
        w >>> UInt64.ofNat (64 - shift % 64) else 0) b = false := by
      intro w
      split
      · rename_i hcond
        rw [wordBit_shiftRight w (by omega)]
        exact wordBit_eq_false_of_le w (by omega)
      · exact wordBit_zero b
    rw [hhi]
    by_cases hword : shift / 64 ≤ i
    · have hle : shift ≤ 64 * i + b := by
        omega
      have hdiv : (64 * i + b - shift) / 64 = i - shift / 64 := by omega
      have hmod : (64 * i + b - shift) % 64 = b - shift % 64 := by omega
      simp only [hword, if_true, wordBit_shiftLeft _ hbs hb, hdiv, hmod]
      simp [hcross, hle]
    · have hgt : ¬ shift ≤ 64 * i + b := by
        omega
      simp [hword, hgt]
  · -- the bit crosses a word boundary: the low part is shifted out
    have hlo : ∀ w : UInt64, wordBit (if shift / 64 ≤ i then
        w <<< UInt64.ofNat (shift % 64) else 0) b = false := by
      intro w
      split
      · rw [wordBit_shiftLeft w hbs hb]
        simp [hcross]
      · exact wordBit_zero b
    rw [hlo]
    have hpos : 0 < shift % 64 := by omega
    by_cases hword : shift / 64 + 1 ≤ i
    · have hle : shift ≤ 64 * i + b := by
        omega
      have hdiv : (64 * i + b - shift) / 64 = i - shift / 64 - 1 := by omega
      have hmod : (64 * i + b - shift) % 64 = 64 - shift % 64 + b := by omega
      have hrs : 64 - shift % 64 < 64 := by omega
      simp only [hpos, hword, and_self, if_true, wordBit_shiftRight _ hrs, hdiv, hmod]
      simp [hle]
    · have hgt : ¬ shift ≤ 64 * i + b := by
        omega
      simp [hword, hgt]

/-- The shift moves every bit up by `shift` and drops what leaves the words. -/
theorem bitmapGet_bitmapShiftLeft (hk : k < 64 * bitmap.length) :
    bitmapGet (bitmapShiftLeft bitmap shift) k = true ↔ shift ≤ k ∧ bitmapGet bitmap (k - shift) = true := by
  have hkbit : k % 64 < 64 := mod_lt _ (by decide)
  have hsplit : 64 * (k / 64) + k % 64 = k := div_add_mod k 64
  unfold bitmapShiftLeft
  by_cases htriv : shift = 0 ∨ bitmap = []
  · have hshift : shift = 0 := by
      rcases htriv with hzero | hnil
      · exact hzero
      · simp [hnil] at hk
    simp [hshift]
  · simp only [htriv, if_false]
    -- a shift by whole bitmaps clears them; else bit `k` is bit `k % 64` of word `k / 64`
    by_cases hall : bitmap.length ≤ shift / 64
    · have hlt : ¬ shift ≤ k := by
        omega
      have hzero : (bitmap.map fun _ => (0 : UInt64)).getD (k / 64) 0 = 0 := by simp [getD_eq_getElem?_getD]
      simp only [hall, if_true]
      rw [bitmapGet_eq_wordBit, hzero]
      simp [hlt]
    · simp only [hall, if_false]
      have hword : k / 64 < bitmap.length := by omega
      rw [bitmapGet_eq_wordBit, getD_shiftWords le_rfl, if_pos hword, wordBit_shiftedWord hkbit, hsplit]

end LingVoice.LmSrtp

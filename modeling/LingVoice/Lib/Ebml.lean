import LingVoice.Lib.Endian
import LingVoice.Lib.Records

/-!
# Ebml — elements with variable-length ids and sizes (RFC 8794)

A variable-length number is as many bytes long as its first byte has leading zeros, plus one.  An element is an id, a
size and a body.  The id is the number with its marker bit, the size is without it; a size whose bits are all one says
that the size is unknown, and the content of the element are then the elements that follow.
-/

namespace LingVoice.Lib.Ebml

open List Nat

/-! ## Variable-length numbers -/

structure Vint where
  width : Nat
  /-- The number with the marker bit. -/
  raw : Nat
  deriving DecidableEq, Repr

namespace Vint

def value (v : Vint) : Nat :=
  v.raw % 2 ^ (7 * v.width)

/-- As a size, all ones stand for an unknown one. -/
def size (v : Vint) : Option Nat :=
  if v.value + 1 = 2 ^ (7 * v.width) then none else some v.value

end Vint

def readVint : Bytes → Option (Vint × Bytes)
  | [] => none
  | b :: data =>
    if b = 0 then none
    else
      let width := 8 - Nat.log2 b.toNat
      if data.length + 1 < width then none
      else some (⟨width, ofBe ((b :: data).take width)⟩, (b :: data).drop width)

def vintBytes (width value : Nat) : Bytes :=
  toBe width (2 ^ (7 * width) + value)

variable {w value : Nat} {data rest : Bytes}

/-- The first byte has its marker bit after `w` zeros. -/
theorem log2_head (hw : w < 8) (hvalue : value < 2 ^ (7 * (w + 1))) :
    0 < (2 ^ (7 * (w + 1)) + value) / 256 ^ w ∧ (2 ^ (7 * (w + 1)) + value) / 256 ^ w < 256 ∧
      log2 ((2 ^ (7 * (w + 1)) + value) / 256 ^ w) = 7 - w := by
  have hpos : 0 < 256 ^ w := Nat.pow_pos (by decide)
  -- the marker bit of the number is the bit `7 - w` of its first byte
  have hsplit : 2 ^ (7 * (w + 1)) = 2 ^ (7 - w) * 256 ^ w := by
    rw [show (256 : Nat) = 2 ^ 8 by rfl, ← pow_mul, ← pow_add]
    congr 1
    omega
  have hlow : 2 ^ (7 - w) ≤ (2 ^ (7 * (w + 1)) + value) / 256 ^ w := by
    rw [le_div_iff_mul_le hpos]
    omega
  have hhigh : (2 ^ (7 * (w + 1)) + value) / 256 ^ w < 2 ^ (7 - w + 1) := by
    rw [Nat.div_lt_iff_lt_mul hpos, Nat.pow_succ']
    have hdouble : 2 * 2 ^ (7 - w) * 256 ^ w = 2 * (2 ^ (7 - w) * 256 ^ w) := mul_assoc _ _ _
    omega
  have hhead : 0 < (2 ^ (7 * (w + 1)) + value) / 256 ^ w := Nat.lt_of_lt_of_le (Nat.two_pow_pos _) hlow
  have hbyte : 2 ^ (7 - w + 1) ≤ 2 ^ 8 := Nat.pow_le_pow_right (by decide) (by omega)
  refine ⟨hhead, lt_of_lt_of_le hhigh hbyte, ?_⟩
  exact (log2_eq_iff (ne_of_gt hhead)).2 ⟨hlow, hhigh⟩

theorem readVint_vintBytes (hw : w < 8) (hvalue : value < 2 ^ (7 * (w + 1))) (rest : Bytes) :
    readVint (vintBytes (w + 1) value ++ rest) = some (⟨w + 1, 2 ^ (7 * (w + 1)) + value⟩, rest) := by
  obtain ⟨hhead, hbyte, hlog⟩ := log2_head hw hvalue
  have hfits : 2 ^ (7 * (w + 1)) + value < 256 ^ (w + 1) := by
    have hpow : (256 : Nat) ^ (w + 1) = 2 ^ (8 * (w + 1)) := by
      rw [Nat.pow_mul]
    have hdouble : 2 ^ (7 * (w + 1) + 1) ≤ 2 ^ (8 * (w + 1)) := Nat.pow_le_pow_right (by decide) (by omega)
    rw [Nat.pow_succ] at hdouble
    omega
  have hlen : (vintBytes (w + 1) value).length = w + 1 := length_toBe _ _
  have hraw : ofBe (vintBytes (w + 1) value) = 2 ^ (7 * (w + 1)) + value := ofBe_toBe_of_lt hfits
  obtain ⟨b, bytes, hcons, hb⟩ : ∃ b bytes, vintBytes (w + 1) value = b :: bytes ∧
      b.toNat = (2 ^ (7 * (w + 1)) + value) / 256 ^ w := by
    refine ⟨_, _, toBe_succ_eq_cons _ _, ?_⟩
    rw [UInt8.toNat_ofNat', Nat.mod_eq_of_lt hbyte]
  have hne : b ≠ 0 := by
    rintro rfl
    rw [← hb] at hhead
    exact absurd hhead (by decide)
  have hwidth : 8 - Nat.log2 b.toNat = w + 1 := by
    rw [hb, hlog]
    omega
  rw [hcons] at hlen hraw ⊢
  have hlong : ¬ (bytes ++ rest).length + 1 < w + 1 := by
    simp at hlen ⊢
    omega
  have htake : (b :: (bytes ++ rest)).take (w + 1) = b :: bytes := by
    rw [← hlen, ← cons_append, take_left]
  have hdrop : (b :: (bytes ++ rest)).drop (w + 1) = rest := by
    rw [← hlen, ← cons_append, drop_left]
  simp only [cons_append, readVint, if_neg hne, hwidth, if_neg hlong, htake, hdrop, hraw]

theorem length_lt_of_readVint {v : Vint} (h : readVint data = some (v, rest)) : rest.length < data.length := by
  cases data with
  | nil => cases h
  | cons b data =>
    simp only [readVint] at h
    split at h
    · cases h
    · split at h
      · cases h
      · -- at least one byte is taken
        have hlog : log2 b.toNat < 8 := by
          rcases Nat.eq_zero_or_pos b.toNat with hzero | hpos
          · rw [hzero]
            decide
          · rw [log2_lt (by omega)]
            exact b.toNat_lt
        cases h
        rw [length_drop, length_cons]
        omega

theorem size_vint (hvalue : value < 2 ^ (7 * w)) :
    Vint.size ⟨w, 2 ^ (7 * w) + value⟩ = if value + 1 = 2 ^ (7 * w) then none else some value := by
  have hmod : Vint.value ⟨w, 2 ^ (7 * w) + value⟩ = value := by
    rw [Vint.value, add_mod_left, mod_eq_of_lt hvalue]
  simp only [Vint.size, hmod]

/-! ## Elements -/

structure Element where
  id : Nat
  /-- `none` for an element of unknown size. -/
  body : Option Bytes
  deriving DecidableEq, Repr

def readElement (data : Bytes) : Option (Element × Bytes) :=
  match readVint data with
  | none => none
  | some (id, data) =>
    if 4 < id.width then none
    else
      match readVint data with
      | none => none
      | some (size, data) =>
        match size.size with
        | none => some (⟨id.raw, none⟩, data)
        | some n => if data.length < n then none else some (⟨id.raw, some (data.take n)⟩, data.drop n)

theorem length_lt_of_readElement (data : Bytes) (e : Element) (rest : Bytes)
    (h : readElement data = some (e, rest)) : rest.length < data.length := by
  unfold readElement at h
  split at h
  · cases h
  · rename_i id data' hid
    have hlt := length_lt_of_readVint hid
    split at h
    · cases h
    · split at h
      · cases h
      · rename_i size data'' hsize
        have hlt' := length_lt_of_readVint hsize
        split at h
        · cases h
          omega
        · split at h
          · cases h
          · cases h
            rw [length_drop]
            omega

/-- An id of `wi + 1` bytes and a size of `ws + 1` bytes in front of some data. -/
theorem readElement_append {wi id ws size : Nat} (hwi : wi < 4) (hid : id < 2 ^ (7 * (wi + 1))) (hws : ws < 8)
    (hsize : size < 2 ^ (7 * (ws + 1))) (data : Bytes) :
    readElement (vintBytes (wi + 1) id ++ (vintBytes (ws + 1) size ++ data)) =
      if size + 1 = 2 ^ (7 * (ws + 1)) then some (⟨2 ^ (7 * (wi + 1)) + id, none⟩, data)
      else if data.length < size then none
      else some (⟨2 ^ (7 * (wi + 1)) + id, some (data.take size)⟩, data.drop size) := by
  have hshort : ¬ 4 < wi + 1 := by omega
  rw [readElement, readVint_vintBytes (by omega) hid]
  dsimp only
  rw [if_neg hshort, readVint_vintBytes hws hsize]
  dsimp only
  rw [size_vint hsize]
  by_cases hones : size + 1 = 2 ^ (7 * (ws + 1))
  · simp only [if_pos hones]
  · simp only [if_neg hones]

/-! ## Files -/

variable {σ β : Type}

/-- What the elements say, one after the other, to a reader with a state. -/
def walk (step : σ → Element → Option (σ × List β)) : σ → List Element → Option (List β)
  | _, [] => some []
  | s, e :: es => (step s e).bind fun next => (walk step next.1 es).map (next.2 ++ ·)

def parse (step : σ → Element → Option (σ × List β)) (s : σ) (data : Bytes) : Option (List β) :=
  (records readElement data).bind (walk step s)

@[simp] theorem parse_nil (step : σ → Element → Option (σ × List β)) (s : σ) : parse step s [] = some [] := rfl

theorem parse_cons (step : σ → Element → Option (σ × List β)) (s : σ) {e : Element}
    (h : readElement data = some (e, rest)) :
    parse step s data = (step s e).bind fun next => (parse step next.1 rest).map (next.2 ++ ·) := by
  rw [parse, records_cons length_lt_of_readElement h]
  cases hrest : records readElement rest with
  | none =>
    -- nothing is read, whatever the first element says
    cases hstep : step s e with
    | none => rfl
    | some next => simp [parse, hrest]
  | some es => simp [parse, hrest, walk]

end LingVoice.Lib.Ebml

import LingVoice.Lib.Endian
import Mathlib.Algebra.Order.BigOperators.Group.List

/-!
# Field — fixed-width big-endian fields at offsets

Writers append fields, readers index into the whole string.  Fields that stand at an offset one after the other are
told apart by `standsAt_append`, and each of them is read back.
-/

namespace LingVoice.Lib

open List Nat

/-- The number in the `w` bytes at `offset`. -/
def beAt (w : Nat) (data : Bytes) (offset : Nat) : Nat :=
  ofBe ((data.drop offset).take w)

/-- The byte at `i`, behind a check of the length. -/
def byteAt (data : Bytes) (i : Nat) : UInt8 :=
  data.getD i 0

variable {w offset : Nat} {front : Bytes}

theorem beAt_append_right (h : front.length ≤ offset)
    (rest : Bytes) : beAt w (front ++ rest) offset = beAt w rest (offset - front.length) := by
  rw [beAt, beAt, drop_append, drop_eq_nil_of_le h, nil_append]

theorem beAt_append_left (h : offset + w ≤ front.length)
    (rest : Bytes) : beAt w (front ++ rest) offset = beAt w front offset := by
  rw [beAt, beAt, drop_append_of_le_length (by omega), take_append_of_le_length (by rw [length_drop]; omega)]

theorem beAt_front (w n : Nat) (rest : Bytes) : beAt w (toBe w n ++ rest) 0 = n % 256 ^ w := by
  rw [beAt_append_left (by simp), beAt, drop_zero, take_of_length_le (by simp), ofBe_toBe]

/-! ## Words -/

def u16At (data : Bytes) (offset : Nat) : UInt16 :=
  UInt16.ofNat (beAt 2 data offset)

def u32At (data : Bytes) (offset : Nat) : UInt32 :=
  UInt32.ofNat (beAt 4 data offset)

def u64At (data : Bytes) (offset : Nat) : UInt64 :=
  UInt64.ofNat (beAt 8 data offset)

def be16 (x : UInt16) : Bytes :=
  toBe 2 x.toNat

def be32 (x : UInt32) : Bytes :=
  toBe 4 x.toNat

def be64 (x : UInt64) : Bytes :=
  toBe 8 x.toNat

@[simp] theorem length_be16 (x : UInt16) : (be16 x).length = 2 := length_toBe 2 _

@[simp] theorem length_be32 (x : UInt32) : (be32 x).length = 4 := length_toBe 4 _

@[simp] theorem length_be64 (x : UInt64) : (be64 x).length = 8 := length_toBe 8 _

theorem be16_ofNat (n : Nat) : be16 (UInt16.ofNat n) = toBe 2 n := by
  have hmod : (UInt16.ofNat n).toNat = n % 2 ^ 16 := UInt16.toNat_ofNat'
  rw [be16, hmod, toBe_eq_iff]
  exact mod_mod n _

theorem u16At_front (x : UInt16) (rest : Bytes) : u16At (be16 x ++ rest) 0 = x := by
  have hlt : x.toNat < 256 ^ 2 := x.toNat_lt
  rw [u16At, be16, beAt_front, mod_eq_of_lt hlt, UInt16.ofNat_toNat]

theorem be16_bytes (x : UInt16) : ∃ hi lo, be16 x = [hi, lo] ∧ u16At [hi, lo] 0 = x := by
  obtain ⟨hi, lo, hbytes⟩ := length_eq_two.mp (length_be16 x)
  have hread := u16At_front x []
  rw [append_nil, hbytes] at hread
  exact ⟨hi, lo, hbytes, hread⟩

theorem u32At_front (x : UInt32) (rest : Bytes) : u32At (be32 x ++ rest) 0 = x := by
  have hlt : x.toNat < 256 ^ 4 := x.toNat_lt
  rw [u32At, be32, beAt_front, mod_eq_of_lt hlt, UInt32.ofNat_toNat]

theorem u64At_front (x : UInt64) (rest : Bytes) : u64At (be64 x ++ rest) 0 = x := by
  have hlt : x.toNat < 256 ^ 8 := x.toNat_lt
  rw [u64At, be64, beAt_front, mod_eq_of_lt hlt, UInt64.ofNat_toNat]

/-- Three bytes cut out of a word by shifts. -/
theorem bytes_uint24 (x : UInt32) : [(x >>> 16).toUInt8, (x >>> 8).toUInt8, x.toUInt8] = toBe 3 x.toNat := by
  have h16 : (x >>> 16).toUInt8 = UInt8.ofNat (x.toNat / 256 / 256) := by
    apply UInt8.toNat_inj.1
    simp [Nat.shiftRight_eq_div_pow, Nat.div_div_eq_div_mul]
  have h8 : (x >>> 8).toUInt8 = UInt8.ofNat (x.toNat / 256) := by
    apply UInt8.toNat_inj.1
    simp [shiftRight_eq_div_pow]
  have h0 : x.toUInt8 = UInt8.ofNat x.toNat := by
    apply UInt8.toNat_inj.1
    simp
  rw [h16, h8, h0]
  rfl

/-! ## What stands at an offset -/

def StandsAt (data : Bytes) (offset : Nat) (bytes : Bytes) : Prop :=
  bytes <+: data.drop offset

section StandsAt

variable {data front back : Bytes} {offset : Nat}

theorem standsAt_append :
    StandsAt data offset (front ++ back) ↔ StandsAt data offset front ∧ StandsAt data (offset + front.length) back := by
  unfold StandsAt
  constructor
  · rintro ⟨tail, htail⟩
    rw [append_assoc] at htail
    refine ⟨⟨back ++ tail, htail⟩, tail, ?_⟩
    rw [← drop_drop, ← htail, drop_left]
  · rintro ⟨⟨tail, htail⟩, hback⟩
    rw [← drop_drop, ← htail, drop_left] at hback
    rw [← htail]
    exact (prefix_append_right_inj front).2 hback

theorem standsAt_cons {b : UInt8} :
    StandsAt data offset (b :: back) ↔ StandsAt data offset [b] ∧ StandsAt data (offset + 1) back :=
  @standsAt_append data [b] back offset

theorem StandsAt.take (h : StandsAt data offset front) : (data.drop offset).take front.length = front :=
  (prefix_iff_eq_take.1 h).symm

theorem StandsAt.offset_add_length_le (h : StandsAt data offset front) (hne : front ≠ []) :
    offset + front.length ≤ data.length := by
  have hle := h.length_le
  have hpos := length_pos_of_ne_nil hne
  rw [length_drop] at hle
  omega

theorem StandsAt.beAt {w n : Nat} (h : StandsAt data offset (toBe w n)) : beAt w data offset = n % 256 ^ w := by
  have htake := h.take
  rw [length_toBe] at htake
  rw [Lib.beAt, htake, ofBe_toBe]

theorem StandsAt.u16At {x : UInt16} (h : StandsAt data offset (be16 x)) : u16At data offset = x := by
  obtain ⟨tail, htail⟩ := h
  have hfront := u16At_front x tail
  rwa [htail, Lib.u16At, Lib.beAt, drop_zero] at hfront

theorem StandsAt.u32At {x : UInt32} (h : StandsAt data offset (be32 x)) : u32At data offset = x := by
  obtain ⟨tail, htail⟩ := h
  have hfront := u32At_front x tail
  rwa [htail, Lib.u32At, Lib.beAt, drop_zero] at hfront

theorem StandsAt.u64At {x : UInt64} (h : StandsAt data offset (be64 x)) : u64At data offset = x := by
  obtain ⟨tail, htail⟩ := h
  have hfront := u64At_front x tail
  rwa [htail, Lib.u64At, Lib.beAt, drop_zero] at hfront

theorem StandsAt.byteAt {b : UInt8} (h : StandsAt data offset [b]) : byteAt data offset = b := by
  obtain ⟨tail, htail⟩ := h
  have hget := congrArg (·[0]?) htail
  rw [getElem?_drop, add_zero] at hget
  rw [Lib.byteAt, getD_eq_getElem?_getD, ← hget]
  rfl

end StandsAt

/-! ## Records one after the other -/

theorem length_le_flatMap {ε : Type} {encode : ε → Bytes} {entries : List ε}
    (hne : ∀ e ∈ entries, encode e ≠ []) : entries.length ≤ (entries.flatMap encode).length := by
  have hsum := length_le_sum_of_one_le (entries.map fun e => (encode e).length) ?_
  · rwa [length_map, ← length_flatMap] at hsum
  · intro n hn
    obtain ⟨e, he, rfl⟩ := mem_map.mp hn
    exact length_pos_of_ne_nil (hne e he)

theorem flatMap_eq_flatMap_iff {ε β : Type} {f g : ε → List β} {entries : List ε}
    (h : ∀ e ∈ entries, (f e).length ≤ (g e).length) :
    entries.flatMap f = entries.flatMap g ↔ ∀ e ∈ entries, f e = g e := by
  refine ⟨fun heq => ?_, flatMap_congr⟩
  induction entries with
  | nil => simp
  | cons e rest ih =>
    rw [forall_mem_cons] at h ⊢
    have hrest : (rest.flatMap f).length ≤ (rest.flatMap g).length := by
      rw [length_flatMap, length_flatMap]
      exact List.sum_le_sum h.2
    have hlength := congrArg List.length heq
    simp only [flatMap_cons, length_append] at hlength
    obtain ⟨hfirst, htail⟩ := append_inj heq (by omega)
    exact ⟨hfirst, ih h.2 htail⟩

theorem length_flatMap_const {ε : Type} {size : Nat} {encode : ε → Bytes}
    (hsize : ∀ e, (encode e).length = size) (entries : List ε) :
    (entries.flatMap encode).length = size * entries.length := by
  induction entries with
  | nil => rfl
  | cons e rest ih =>
    rw [flatMap_cons, length_append, hsize, ih, length_cons, mul_succ, add_comm]

end LingVoice.Lib

import LingVoice.Lib.Parity

/-!
# Xor — byte strings combined position by position

`xorBytes a b` is the exclusive or of two byte strings, cut to the shorter one, as in a stream cipher.
`xorInto acc data` keeps the length of `acc`; it is the checksum operation of erasure codes.
-/

namespace LingVoice.Lib

open List

def xorBytes (a b : Bytes) : Bytes :=
  List.zipWith (· ^^^ ·) a b

@[simp] theorem length_xorBytes (a b : Bytes) : (xorBytes a b).length = min a.length b.length := by
  simp [xorBytes]

/-- Applying one keystream twice is the identity on data the keystream covers. -/
theorem xorBytes_cancel {a k : Bytes} (h : a.length ≤ k.length) : xorBytes (xorBytes a k) k = a := by
  induction a generalizing k with
  | nil => simp [xorBytes]
  | cons x xs ih =>
    cases k with
    | nil => simp at h
    | cons y ys =>
      have hlen : xs.length ≤ ys.length := by simpa using h
      have htail := ih hlen
      simp only [xorBytes, zipWith_cons_cons] at htail ⊢
      rw [htail, UInt8.xor_assoc, UInt8.xor_self, UInt8.xor_zero]

/-- Masks of one length that give the same result on the same data are equal. -/
theorem xorBytes_right_injective {a b c : Bytes} (hb : b.length = a.length)
    (hc : c.length = a.length) (h : xorBytes a b = xorBytes a c) : b = c := by
  induction a generalizing b c with
  | nil =>
    have hb' : b = [] := length_eq_zero_iff.1 hb
    have hc' : c = [] := length_eq_zero_iff.1 hc
    rw [hb', hc']
  | cons x xs ih =>
    cases b with
    | nil => simp at hb
    | cons y ys =>
      cases c with
      | nil => simp at hc
      | cons z zs =>
        simp only [xorBytes, zipWith_cons_cons, List.cons.injEq] at h
        -- the masks agree byte by byte because `x ^^^ ·` is injective
        have hyz : y = z := (UInt8.xor_right_inj x).1 h.1
        have hrest : ys = zs := ih (by simpa using hb) (by simpa using hc) h.2
        rw [hyz, hrest]

/-! ## Into an accumulator -/

/-- Combine `data` into `acc`, as far as `acc` goes. -/
def xorInto : Bytes → Bytes → Bytes
  | a :: acc, b :: data => (a ^^^ b) :: xorInto acc data
  | acc, _ => acc

theorem xorInto_nil (acc : Bytes) : xorInto acc [] = acc := by
  cases acc <;> rfl

@[simp] theorem length_xorInto (acc data : Bytes) : (xorInto acc data).length = acc.length := by
  induction acc generalizing data with
  | nil => rfl
  | cons a acc ih =>
    cases data with
    | nil => rfl
    | cons b data => rw [xorInto, length_cons, ih, length_cons]

theorem parity_xorInto : Parity xorInto where
  comm := by
    intro acc
    induction acc with
    | nil =>
      intro data other
      rfl
    | cons a acc ih =>
      intro data other
      cases data with
      | nil => cases other <;> rfl
      | cons b data =>
        cases other with
        | nil => rfl
        | cons c other =>
          rw [xorInto, xorInto, xorInto, xorInto, ih, UInt8.xor_assoc, UInt8.xor_comm b, UInt8.xor_assoc]
  cancel := by
    intro acc
    induction acc with
    | nil =>
      intro data
      rfl
    | cons a acc ih =>
      intro data
      cases data with
      | nil => rfl
      | cons b data =>
        rw [xorInto, xorInto, ih, UInt8.xor_assoc, UInt8.xor_self, UInt8.xor_zero]

/-- Into zeros: the data itself, filled up. -/
theorem xorInto_zeros {n : Nat} {data : Bytes} (h : data.length ≤ n) :
    xorInto (List.replicate n 0) data = data ++ List.replicate (n - data.length) 0 := by
  induction data generalizing n with
  | nil => rw [xorInto_nil, nil_append, length_nil, Nat.sub_zero]
  | cons b data ih =>
    obtain ⟨n, rfl⟩ := Nat.exists_eq_succ_of_ne_zero (Nat.ne_of_gt (Nat.lt_of_lt_of_le (Nat.succ_pos _) h))
    rw [length_cons] at h
    rw [replicate_succ, xorInto, ih (by omega), UInt8.zero_xor, length_cons, cons_append]
    congr 3
    omega

end LingVoice.Lib

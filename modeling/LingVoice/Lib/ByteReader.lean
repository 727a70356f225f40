import LingVoice.Lib.Bytes
import Mathlib.Algebra.Order.Ring.Nat
import Mathlib.Algebra.Order.Sub.Basic

/-!
# ByteReader — reading a byte stream in pieces

`readFull n` takes exactly `n` bytes off a stream, with the two end-of-stream errors of a blocking
reader: nothing was left, or something was left but too little.  `overwrite` is the write into a
slice of a buffer that such a read ends in.
-/

namespace LingVoice.Lib

open List

inductive ReadError
  | eof
  | unexpectedEof
  deriving DecidableEq, Repr

/-- Take exactly `n` bytes; the second component is what is left of the stream. -/
def readFull (n : Nat) (input : Bytes) : Except ReadError (Bytes × Bytes) :=
  if n ≤ input.length then
    .ok (input.take n, input.drop n)
  -- `io.ReadFull` tells an end between two items from an end inside one
  else if input = [] then
    .error .eof
  else
    .error .unexpectedEof

/-- A read of the width of `front` takes `front` off and leaves the rest alone. -/
theorem readFull_append {n : Nat} {front : Bytes} (hwidth : front.length = n)
    (rest : Bytes) : readFull n (front ++ rest) = .ok (front, rest) := by
  subst hwidth
  simp [readFull]

variable {n off : Nat} {input front rest buf data : Bytes} {b : UInt8}

theorem readFull_ok (h : readFull n input = .ok (front, rest)) : front.length = n ∧ input = front ++ rest := by
  unfold readFull at h
  split at h
  · rename_i hle
    cases h
    refine ⟨?_, (take_append_drop n input).symm⟩
    simp [hle]
  · split at h
    · cases h
    · cases h

theorem length_le_of_readFull (h : readFull n input = .ok (front, rest)) : rest.length ≤ input.length := by
  rcases readFull_ok h with ⟨_, heq⟩
  simp [heq]

/-! ## Taking a successful computation apart -/

section Except

variable {ε ε' α β : Type}

theorem bind_eq_ok {x : Except ε α} {f : α → Except ε β} {b : β} : x >>= f = .ok b ↔ ∃ a, x = .ok a ∧ f a = .ok b := by
  cases x with
  | error e | ok a => simp [bind, Except.bind]

theorem mapError_eq_ok {x : Except ε α} {f : ε → ε'} {a : α} : x.mapError f = .ok a ↔ x = .ok a := by
  cases x with
  | error e | ok a' => simp [Except.mapError]

end Except

/-! ## Readers that are put together -/

section Reader

variable {ε ε' α β : Type}

abbrev Reader (ε α : Type) := StateT Bytes (Except ε) α

/-- The reader takes just these bytes and returns the value, whatever is behind them. -/
def Reads (m : Reader ε α) (bytes : Bytes) (a : α) : Prop :=
  ∀ rest, m (bytes ++ rest) = .ok (a, rest)

variable {m : Reader ε α} {f : α → Reader ε β} {bytes more : Bytes} {a : α} {b : β}

theorem Reads.pure (a : α) : Reads (pure a : Reader ε α) [] a :=
  fun _ => rfl

theorem Reads.bind (hm : Reads m bytes a) (hf : Reads (f a) more b) : Reads (m >>= f) (bytes ++ more) b := by
  intro rest
  have hbind : (m >>= f) (bytes ++ (more ++ rest)) = (m (bytes ++ (more ++ rest))) >>= fun r => f r.1 r.2 := rfl
  rw [append_assoc, hbind, hm]
  exact hf rest

/-- The second part takes nothing off the stream. -/
theorem Reads.bind_last (hm : Reads m bytes a) (hf : Reads (f a) [] b) : Reads (m >>= f) bytes b := by
  simpa using hm.bind hf

def Reader.mapError (g : ε → ε') (m : Reader ε α) : Reader ε' α :=
  fun r => (m r).mapError g

theorem Reads.mapError (hm : Reads m bytes a) (g : ε → ε') : Reads (m.mapError g) bytes a :=
  fun rest => mapError_eq_ok.2 (hm rest)

end Reader

/-! ## Writing into a buffer -/

/-- `data` written over the bytes of `buf` from `off` on. -/
def overwrite (buf : Bytes) (off : Nat) (data : Bytes) : Bytes :=
  buf.take off ++ data ++ buf.drop (off + data.length)

theorem length_overwrite (hfit : off + data.length ≤ buf.length) : (overwrite buf off data).length = buf.length := by
  simp only [overwrite, length_append, length_take, length_drop]
  omega

/-- Up to the end of the write the buffer holds what was there before, then the data. -/
theorem take_overwrite {buf data : Bytes} {off : Nat} (hoff : off ≤ buf.length) :
    (overwrite buf off data).take (off + data.length) = buf.take off ++ data := by
  have hlen : (buf.take off ++ data).length = off + data.length := by simp [hoff]
  rw [overwrite, take_left' hlen]

theorem getElem?_overwrite_of_lt {k : Nat} (hk : k < off)
    (hb : buf[k]? = some b) : (overwrite buf off data)[k]? = some b := by
  have hlt : k < buf.length := by
    by_contra hge
    rw [getElem?_eq_none (Nat.le_of_not_lt hge)] at hb
    cases hb
  have htake : k < (buf.take off).length := by
    rw [length_take]
    omega
  rw [overwrite, append_assoc, getElem?_append_left htake, getElem?_take_of_lt hk, hb]

theorem getElem?_overwrite_self (hoff : off ≤ buf.length) : (overwrite buf off (b :: data))[off]? = some b := by
  have htake : (buf.take off).length = off := by simp [hoff]
  rw [overwrite, append_assoc, getElem?_append_right (Nat.le_of_eq htake), htake]
  simp

end LingVoice.Lib

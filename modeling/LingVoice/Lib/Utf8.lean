import LingVoice.Lib.Field

/-!
# Utf8 — strings as byte lists

`utf8Bytes` is the encoding of a string.  `fromUtf8Lossy` decodes any byte list: every longest piece that
begins like a character and is none becomes one U+FFFD.  On encodings of strings it is the inverse.
-/

namespace LingVoice.Lib

open List

def utf8Bytes (s : String) : Bytes :=
  s.toUTF8.data.toList

/-! ## Decoding with replacement -/

def isContinuationByte (b : UInt8) : Bool :=
  b &&& 0xC0 == 0x80

/-- May `second` follow the lead byte of a character of three or four bytes? -/
def isSecondByte (lead second : UInt8) : Bool :=
  if lead = 0xE0 then 0xA0 ≤ second && second ≤ 0xBF
  else if lead = 0xED then 0x80 ≤ second && second ≤ 0x9F
  else if lead = 0xF0 then 0x90 ≤ second && second ≤ 0xBF
  else if lead = 0xF4 then 0x80 ≤ second && second ≤ 0x8F
  else 0x80 ≤ second && second ≤ 0xBF

/-- The length of the piece that one replacement character stands for, where no character begins. -/
def invalidLength : Bytes → Nat
  | lead :: second :: rest =>
    if 0xE0 ≤ lead && lead ≤ 0xEF && isSecondByte lead second then
      2
    else if 0xF0 ≤ lead && lead ≤ 0xF4 && isSecondByte lead second then
      match rest with
      | third :: _ => if isContinuationByte third then 3 else 2
      | [] => 2
    else
      1
  | _ => 1

/-- The characters of a byte list, with a bound on their number. -/
def decodeLossy : Nat → Bytes → List Char
  | 0, _ => []
  | _ + 1, [] => []
  | fuel + 1, b :: tail =>
    match (b :: tail).toByteArray.utf8DecodeChar? 0 with
    | some c => c :: decodeLossy fuel ((b :: tail).drop c.utf8Size)
    | none => Char.ofNat 0xFFFD :: decodeLossy fuel ((b :: tail).drop (invalidLength (b :: tail)))

/-- `from_utf8_lossy`: every step takes a byte or more. -/
def fromUtf8Lossy (bytes : Bytes) : String :=
  String.ofList (decodeLossy bytes.length bytes)

/-! ## The round trip -/

theorem utf8Bytes_eq (s : String) : utf8Bytes s = s.toList.flatMap String.utf8EncodeChar := by
  have hbytes : s.toUTF8 = (s.toList.flatMap String.utf8EncodeChar).toByteArray := by
    rw [String.toUTF8_eq_toByteArray, ← String.utf8Encode_toList]
    rfl
  rw [utf8Bytes, hbytes, data_toByteArray]

theorem decodeLossy_cons (fuel : Nat) (c : Char) (rest : Bytes) :
    decodeLossy (fuel + 1) (String.utf8EncodeChar c ++ rest) = c :: decodeLossy fuel rest := by
  have hdecode : (String.utf8EncodeChar c ++ rest).toByteArray.utf8DecodeChar? 0 = some c := by
    rw [toByteArray_append]
    exact ByteArray.utf8DecodeChar?_utf8EncodeChar_append
  have hdrop : (String.utf8EncodeChar c ++ rest).drop c.utf8Size = rest := by
    rw [← String.length_utf8EncodeChar, drop_left]
  obtain ⟨b, tail, hcons⟩ :=
    exists_cons_of_ne_nil (l := String.utf8EncodeChar c) String.utf8EncodeChar_ne_nil
  rw [hcons, cons_append] at hdecode hdrop ⊢
  rw [decodeLossy, hdecode]
  exact congrArg (fun bytes => c :: decodeLossy fuel bytes) hdrop

theorem decodeLossy_encode (chars : List Char) (fuel : Nat) (hfuel : chars.length ≤ fuel) :
    decodeLossy fuel (chars.flatMap String.utf8EncodeChar) = chars := by
  induction chars generalizing fuel with
  | nil => cases fuel <;> rfl
  | cons c rest ih =>
    obtain ⟨fuel, rfl⟩ : ∃ m, fuel = m + 1 := ⟨fuel - 1, by simp at hfuel; omega⟩
    rw [flatMap_cons, decodeLossy_cons, ih fuel (by simpa using hfuel)]

theorem fromUtf8Lossy_utf8Bytes (s : String) : fromUtf8Lossy (utf8Bytes s) = s := by
  have hlength : s.toList.length ≤ (s.toList.flatMap String.utf8EncodeChar).length :=
    length_le_flatMap fun _ _ => String.utf8EncodeChar_ne_nil
  rw [fromUtf8Lossy, utf8Bytes_eq, decodeLossy_encode _ _ hlength, String.ofList_toList]

end LingVoice.Lib

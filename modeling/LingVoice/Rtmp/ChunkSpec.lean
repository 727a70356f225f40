import LingVoice.Lib.Records
import LingVoice.Rtmp.Chunk

/-!
# ChunkSpec — one lemma for each step of the chunk reader

Each lemma says what a step of `readChunk` does on the bytes a chunk is made of, with any bytes behind them.
-/

namespace LingVoice.Rtmp

open Lib List Function Nat

/-! ## Basic header -/

@[simp] theorem readByte_cons (b : UInt8) (rest : Bytes) : readByte (b :: rest) = .ok (b, rest) := by
  have hread : readFull 1 (b :: rest) = .ok ([b], rest) := @readFull_append 1 [b] rfl rest
  simp [readByte, hread, bind, Except.bind, pure, Except.pure]

variable {input rest hdr : Bytes}

theorem length_lt_of_readByte {b : UInt8} (h : readByte input = .ok (b, rest)) : rest.length < input.length := by
  cases input with
  | nil => simp [readByte, readFull, bind, Except.bind] at h
  | cons c cs =>
    cases h
    simp

theorem length_lt_of_readBasicHeader {hdr : UInt8 × UInt32}
    (h : readBasicHeader input = .ok (hdr, rest)) : rest.length < input.length := by
  rcases bind_eq_ok.1 h with ⟨⟨b, rest1⟩, hb, h⟩
  have hfirst := length_lt_of_readByte hb
  dsimp only at h
  split at h
  · rcases bind_eq_ok.1 h with ⟨⟨b2, rest2⟩, hb2, h⟩
    have hsecond := length_lt_of_readByte hb2
    cases h
    exact lt_trans hsecond hfirst
  · split at h
    · rcases bind_eq_ok.1 h with ⟨⟨b2, rest2⟩, hb2, h⟩
      have hsecond := length_lt_of_readByte hb2
      rcases bind_eq_ok.1 h with ⟨⟨b3, rest3⟩, hb3, h⟩
      have hthird := length_lt_of_readByte hb3
      cases h
      exact lt_trans hthird (lt_trans hsecond hfirst)
    · cases h
      exact hfirst

section BasicHeader

variable {b : UInt8} {csid : UInt32}

theorem readBasicHeader_one (hlow : (b &&& 0x3f).toUInt32 = csid) (h0 : csid ≠ 0) (h1 : csid ≠ 1) (rest : Bytes) :
    readBasicHeader (b :: rest) = .ok (((b >>> 6) &&& 0x03, csid), rest) := by
  simp only [readBasicHeader, readByte_cons, bind, Except.bind, pure, Except.pure, hlow, if_neg h0, if_neg h1]

theorem readBasicHeader_two (hlow : (b &&& 0x3f).toUInt32 = 0) (b2 : UInt8) (rest : Bytes) :
    readBasicHeader (b :: b2 :: rest) = .ok (((b >>> 6) &&& 0x03, b2.toUInt32 + 64), rest) := by
  simp only [readBasicHeader, readByte_cons, bind, Except.bind, pure, Except.pure, hlow, if_true]

theorem readBasicHeader_three (hlow : (b &&& 0x3f).toUInt32 = 1) (b2 b3 : UInt8) (rest : Bytes) :
    readBasicHeader (b :: b2 :: b3 :: rest) =
      .ok (((b >>> 6) &&& 0x03, b2.toUInt32 + b3.toUInt32 <<< 8 + 64), rest) := by
  have hne : (1 : UInt32) ≠ 0 := by decide
  simp only [readBasicHeader, readByte_cons, bind, Except.bind, pure, Except.pure, hlow, if_neg hne, if_true]

theorem headerByte_fields : ∀ fmt < 4, ∀ low < 64,
    (((UInt32.ofNat fmt <<< 6).toUInt8 ||| UInt8.ofNat low) >>> 6) &&& 0x03 = UInt8.ofNat fmt ∧
      (((UInt32.ofNat fmt <<< 6).toUInt8 ||| UInt8.ofNat low) &&& 0x3f).toUInt32 = UInt32.ofNat low := by
  decide +kernel

theorem csid_of_two_bytes (hge : 64 ≤ csid.toNat) (hlt : csid.toNat < 320) :
    (csid - 64).toUInt8.toUInt32 + 64 = csid := by
  have hsub : (csid - 64).toNat = csid.toNat - 64 :=
    UInt32.toNat_sub_of_le csid 64 (UInt32.le_iff_toNat_le.2 hge)
  have hconst : (64 : UInt32).toNat = 64 := rfl
  apply UInt32.toNat_inj.1
  rw [UInt32.toNat_add, UInt8.toNat_toUInt32, UInt32.toNat_toUInt8, hsub, hconst]
  omega

theorem csid_of_three_bytes (hge : 64 ≤ csid.toNat) (hle : csid.toNat ≤ 65599) :
    ((csid - 64) &&& 0xff).toUInt8.toUInt32 + ((csid - 64) >>> 8).toUInt8.toUInt32 <<< 8 + 64 = csid := by
  have hsub : (csid - 64).toNat = csid.toNat - 64 :=
    UInt32.toNat_sub_of_le csid 64 (UInt32.le_iff_toNat_le.2 hge)
  have hconst : (64 : UInt32).toNat = 64 := rfl
  have hmask : ((csid - 64) &&& 0xff).toNat = (csid.toNat - 64) % 256 := by
    have hff : (0xff : UInt32).toNat = 2 ^ 8 - 1 := rfl
    rw [UInt32.toNat_and, hff, and_two_pow_sub_one_eq_mod, hsub]
  have hshift : ((csid - 64) >>> 8).toNat = (csid.toNat - 64) / 256 := by
    rw [UInt32.toNat_shiftRight, hsub, shiftRight_eq_div_pow]
    rfl
  -- little endian: the second byte is the low one
  have hback : ((((csid - 64) >>> 8).toUInt8.toUInt32) <<< 8).toNat = (csid.toNat - 64) / 256 * 256 := by
    have height : (8 : UInt32).toNat % 32 = 8 := rfl
    rw [UInt32.toNat_shiftLeft, UInt8.toNat_toUInt32, UInt32.toNat_toUInt8, hshift, height, shiftLeft_eq]
    omega
  apply UInt32.toNat_inj.1
  rw [UInt32.toNat_add, UInt32.toNat_add, hback, UInt8.toNat_toUInt32, UInt32.toNat_toUInt8, hmask, hconst]
  omega

/-- The reader gets back the format and the id from each of the three widths. -/
theorem readBasicHeader_buildBasicHeader {fmt : Nat} (hfmt : fmt < 4) (hlow : 2 ≤ csid)
    (hhigh : csid ≤ 65599) (rest : Bytes) :
    readBasicHeader (buildBasicHeader (UInt32.ofNat fmt) csid ++ rest) = .ok ((UInt8.ofNat fmt, csid), rest) := by
  have hle : csid.toNat ≤ 65599 := UInt32.le_iff_toNat_le.1 hhigh
  have hge : 2 ≤ csid.toNat := UInt32.le_iff_toNat_le.1 hlow
  have hne0 : csid ≠ 0 := by
    intro heq
    rw [heq] at hge
    exact absurd hge (by decide)
  have hne1 : csid ≠ 1 := by
    intro heq
    rw [heq] at hge
    exact absurd hge (by decide)
  unfold buildBasicHeader
  split
  · rename_i hone
    rcases headerByte_fields fmt hfmt csid.toNat (UInt32.lt_iff_toNat_lt.1 hone) with ⟨hf, hc⟩
    rw [UInt32.ofNat_toNat] at hc
    rw [singleton_append, show csid.toUInt8 = UInt8.ofNat csid.toNat from rfl, readBasicHeader_one hc hne0 hne1, hf]
  · rename_i hone
    have hge64 : 64 ≤ csid.toNat := not_lt.1 (fun hlt => hone (UInt32.lt_iff_toNat_lt.2 hlt))
    split
    · rename_i htwo
      obtain ⟨hf, hc⟩ :
          (((UInt32.ofNat fmt <<< 6).toUInt8 ||| 0) >>> 6) &&& 0x03 = UInt8.ofNat fmt ∧
            (((UInt32.ofNat fmt <<< 6).toUInt8 ||| 0) &&& 0x3f).toUInt32 = 0 :=
        headerByte_fields fmt hfmt 0 (by decide)
      rw [cons_append, singleton_append, readBasicHeader_two hc,
        csid_of_two_bytes hge64 (UInt32.lt_iff_toNat_lt.1 htwo), hf]
    · obtain ⟨hf, hc⟩ :
          (((UInt32.ofNat fmt <<< 6).toUInt8 ||| 1) >>> 6) &&& 0x03 = UInt8.ofNat fmt ∧
            (((UInt32.ofNat fmt <<< 6).toUInt8 ||| 1) &&& 0x3f).toUInt32 = 1 :=
        headerByte_fields fmt hfmt 1 (by decide)
      rw [cons_append, cons_append, singleton_append, readBasicHeader_three hc, csid_of_three_bytes hge64 hle, hf]

end BasicHeader

/-! ## Timestamps -/

variable {n : Nat} {ts : UInt32} {fmt : UInt8} {st : ChunkState}

theorem uint24_eq {off : Nat} (hfield : (hdr.drop off).take 3 = toBe 3 n)
    (hn : n < 2 ^ 24) : uint24 hdr off = UInt32.ofNat n := by
  rw [uint24, hfield, ofBe_toBe_of_lt hn]

/-- Whatever the size of a timestamp, the field and the bytes behind the header give it back. -/
theorem readTimestamp_timestampField (fmt : UInt8)
    (hfield : (hdr.drop 0).take 3 = timestampField ts) (rest : Bytes) :
    readTimestamp fmt (uint24 hdr 0) (extTimestamp ts ++ rest) = .ok (ts, rest) := by
  by_cases hext : 0xFFFFFF ≤ ts
  · -- the field holds the mark and the timestamp follows in four bytes
    have hbytes : (toBe 4 ts.toNat).length = 4 := length_toBe 4 _
    have hfield' : uint24 hdr 0 = 0xFFFFFF := by
      rw [timestampField, if_pos hext] at hfield
      exact uint24_eq hfield (by decide)
    have hval : UInt32.ofNat (ofBe (toBe 4 ts.toNat)) = ts := by
      rw [ofBe_toBe_of_lt ts.toNat_lt, UInt32.ofNat_toNat]
    simp only [readTimestamp, hfield', if_true, extTimestamp, if_pos hext, readFull_append hbytes,
      Except.mapError, bind, Except.bind, pure, Except.pure, hval]
  · have hlt : ts.toNat < 0xFFFFFF := Nat.lt_of_not_le (fun h => hext (UInt32.le_iff_toNat_le.2 h))
    have hfield' : uint24 hdr 0 = ts := by
      rw [timestampField, if_neg hext] at hfield
      rw [uint24_eq hfield (by omega), UInt32.ofNat_toNat]
    have hne : ts ≠ 0xFFFFFF := by
      intro heq
      rw [heq] at hlt
      exact absurd hlt (by decide)
    simp only [readTimestamp, hfield', if_neg hne, extTimestamp, if_neg hext, nil_append, pure, Except.pure]

theorem length_le_of_readTimestamp {field : UInt32}
    (h : readTimestamp fmt field input = .ok (ts, rest)) : rest.length ≤ input.length := by
  unfold readTimestamp at h
  split at h
  · rcases bind_eq_ok.1 h with ⟨⟨ext, rest'⟩, hread, h⟩
    cases h
    exact length_le_of_readFull (mapError_eq_ok.1 hread)
  · cases h
    exact le_refl _

theorem readFields_append (fmt : UInt8) (hlen : hdr.length = n) (hfield : (hdr.drop 0).take 3 = timestampField ts)
    (rest : Bytes) : readFields fmt n (hdr ++ (extTimestamp ts ++ rest)) = .ok ((hdr, ts), rest) := by
  simp only [readFields, readFull_append hlen, Except.mapError, bind, Except.bind, pure, Except.pure,
    readTimestamp_timestampField fmt hfield]

theorem length_le_of_readFields {fields : Bytes × UInt32} (h : readFields fmt n input = .ok (fields, rest)) :
    rest.length ≤ input.length := by
  rcases bind_eq_ok.1 h with ⟨⟨hdr, rest1⟩, hhdr, h⟩
  rcases bind_eq_ok.1 h with ⟨⟨ts, rest2⟩, hts, h⟩
  cases h
  exact le_trans (length_le_of_readTimestamp hts)
    (length_le_of_readFull (mapError_eq_ok.1 hhdr))

/-! ## A chunk takes bytes off the stream -/

theorem length_le_of_skipExtTimestamp (h : skipExtTimestamp st input = .ok rest) : rest.length ≤ input.length := by
  unfold skipExtTimestamp at h
  split at h
  · rcases bind_eq_ok.1 h with ⟨⟨ext, rest'⟩, hread, h⟩
    cases h
    exact length_le_of_readFull (mapError_eq_ok.1 hread)
  · cases h
    exact le_refl _

theorem length_le_of_readMessageHeader {st' : ChunkState}
    (h : readMessageHeader fmt st input = .ok (st', rest)) : rest.length ≤ input.length := by
  unfold readMessageHeader at h
  split at h
  · rcases bind_eq_ok.1 h with ⟨⟨⟨hdr, ts⟩, rest1⟩, hhdr, h⟩
    cases h
    exact length_le_of_readFields hhdr
  · split at h
    · rcases bind_eq_ok.1 h with ⟨⟨⟨hdr, delta⟩, rest1⟩, hhdr, h⟩
      cases h
      exact length_le_of_readFields hhdr
    · split at h
      · rcases bind_eq_ok.1 h with ⟨⟨⟨hdr, delta⟩, rest1⟩, hhdr, h⟩
        dsimp only at h
        split at h
        · cases h
        · cases h
          exact length_le_of_readFields hhdr
      · split at h
        · rcases bind_eq_ok.1 h with ⟨rest1, hext, h⟩
          split at h
          · cases h
          · cases h
            exact length_le_of_skipExtTimestamp hext
        · cases h

/-- Two message headers are read in the same way, into states in `S`. -/
def HeaderRel (S : ChunkState → ChunkState → Prop) :
    Except ChunkError (ChunkState × Bytes) → Except ChunkError (ChunkState × Bytes) → Prop
  | .error e, .error e' => e' = e
  | .ok (st, rest), .ok (st', rest') => rest' = rest ∧ S st st'
  | _, _ => False

namespace ChunkState

/-- The state after the data of a chunk. -/
def received (st : ChunkState) (data : Bytes) : ChunkState :=
  { st with
    payload := overwrite st.payload st.bytesRead data
    bytesRead := st.bytesRead + data.length
    newMessage :=
      if st.msgLength.toNat ≤ st.bytesRead + data.length then false else st.newMessage }

def message (st : ChunkState) (csid : UInt32) : Option Message :=
  if st.msgLength.toNat ≤ st.bytesRead then
    some
      { type := st.msgType
        streamID := st.streamID
        csid := csid
        timestamp := st.timestamp
        payload := st.payload }
  else
    none

variable {st : ChunkState} {data : Bytes}

theorem message_received (csid : UInt32) (h : st.msgLength.toNat ≤ st.bytesRead + data.length) :
    (st.received data).message csid =
      some
        { type := st.msgType
          streamID := st.streamID
          csid := csid
          timestamp := st.timestamp
          payload := overwrite st.payload st.bytesRead data } :=
  if_pos h

theorem message_received_none (csid : UInt32) (h : ¬ st.msgLength.toNat ≤ st.bytesRead + data.length) :
    (st.received data).message csid = none :=
  if_neg h

end ChunkState

namespace ChunkReader

/-- Steps 3 and 4 of the loop by what they read. -/
theorem readData_eq (cr : ChunkReader) (csid : UInt32) (st : ChunkState) (input : Bytes) :
    cr.readData csid st input =
      if st.msgLength.toNat ≤ st.bytesRead then
        .error (.invalidRemaining ((st.msgLength.toNat : Int) - st.bytesRead))
      else
        match readFull (min (st.msgLength.toNat - st.bytesRead) cr.chunkSize) input with
        | .error e => .error (.readData e)
        | .ok (data, rest) =>
          .ok ({ cr with
              input := rest
              states := update cr.states csid (st.received data) },
            (st.received data).message csid) := by
  by_cases hdone : st.msgLength.toNat ≤ st.bytesRead
  · have hle : (st.msgLength.toNat : Int) - st.bytesRead ≤ 0 := by
      omega
    rw [if_pos hdone]
    simp only [readData, if_pos hle]
    rfl
  · have hpos : ¬ (st.msgLength.toNat : Int) - st.bytesRead ≤ 0 := by
      omega
    have htoRead : ((st.msgLength.toNat : Int) - st.bytesRead).toNat = st.msgLength.toNat - st.bytesRead := by omega
    rw [if_neg hdone]
    simp only [readData, if_neg hpos, htoRead]
    cases hread : readFull (min (st.msgLength.toNat - st.bytesRead) cr.chunkSize) input with
    | error e => rfl
    | ok r =>
      rcases r with ⟨data, rest⟩
      rcases readFull_ok hread with ⟨hlen, _⟩
      simp only [Except.mapError, bind, Except.bind, pure, Except.pure, ← hlen]
      by_cases hall : st.msgLength.toNat ≤ st.bytesRead + data.length
      · rw [if_pos hall, ChunkState.message_received csid hall]
        simp only [ChunkState.received, if_pos hall]
      · rw [if_neg hall, ChunkState.message_received_none csid hall]
        simp only [ChunkState.received, if_neg hall]

variable {cr cr' : ChunkReader} {st : ChunkState}

variable {csid : UInt32} {out : Option Message} {m n : Nat} {st' : ChunkState} {R : ChunkReader → ChunkReader → Prop}
  {M : Message → Message → Prop}

theorem length_le_of_readData {input : Bytes} (h : cr.readData csid st input = .ok (cr', out)) :
    cr'.input.length ≤ input.length := by
  rw [readData_eq] at h
  split at h
  · cases h
  · split at h
    · cases h
    · rename_i hread
      cases h
      exact length_le_of_readFull hread

theorem readData_append (cr : ChunkReader) (csid : UInt32) {data : Bytes}
    (hopen : st.bytesRead < st.msgLength.toNat)
    (hlen : data.length = min (st.msgLength.toNat - st.bytesRead) cr.chunkSize) (rest : Bytes) :
    cr.readData csid st (data ++ rest) =
      .ok ({ cr with
          input := rest
          states := update cr.states csid (st.received data) },
        (st.received data).message csid) := by
  rw [readData_eq, if_neg (Nat.not_le_of_lt hopen), readFull_append hlen]

/-- Every turn of the loop takes at least the basic header. -/
theorem length_lt_of_readChunk (h : cr.readChunk = .ok (cr', out)) : cr'.input.length < cr.input.length := by
  rcases bind_eq_ok.1 h with ⟨⟨⟨fmt, csid⟩, rest⟩, hbasic, h⟩
  rcases bind_eq_ok.1 h with ⟨⟨st, rest'⟩, hheader, h⟩
  calc cr'.input.length ≤ rest'.length := length_le_of_readData h
    _ ≤ rest.length := length_le_of_readMessageHeader hheader
    _ < cr.input.length := length_lt_of_readBasicHeader (mapError_eq_ok.1 hbasic)

/-! ## The loops -/

theorem readChunk_nil (h : cr.input.length = 0) : cr.readChunk = .error (.readBasicHeader .eof) := by
  have hnil : cr.input = [] := length_eq_zero_iff.1 h
  simp [readChunk, readBasicHeader, readByte, readFull, hnil, bind, Except.bind, Except.mapError]

/-- Turns beyond the length of the stream are never made. -/
theorem readLoop_fuel (hm : cr.input.length ≤ m) (hn : cr.input.length ≤ n) : readLoop m cr = readLoop n cr := by
  refine @loop_fuel _ _ (fun cr => cr.input.length) _ ?_ ?_ m n cr hm hn
  · intro cr hnil
    -- an empty stream ends the loop with the error of the empty budget
    simp [readLoop, readChunk_nil hnil]
  · intro n cr ih
    rw [readLoop, readLoop]
    cases hchunk : cr.readChunk with
    | error e => rfl
    | ok r =>
      rcases r with ⟨cr', _ | msg⟩
      · exact ih cr' (length_lt_of_readChunk hchunk)
      · rfl

/-- `ReadMessage` by its first chunk. -/
theorem readMessage_eq (cr : ChunkReader) :
    cr.readMessage =
      match cr.readChunk with
      | .error e => .error e
      | .ok (cr', some msg) => .ok (cr', msg)
      | .ok (cr', none) => cr'.readMessage := by
  have hfuel : cr.readMessage = readLoop (cr.input.length + 1) cr :=
    readLoop_fuel (le_refl _) (le_succ _)
  -- one more turn than the stream has bytes, so that the first can be split off
  rw [hfuel, readLoop]
  cases hchunk : cr.readChunk with
  | error e => rfl
  | ok r =>
    rcases r with ⟨cr', _ | msg⟩
    · have hlt := length_lt_of_readChunk hchunk
      exact readLoop_fuel (le_of_lt hlt) (le_refl _)
    · rfl

theorem length_lt_of_readLoop {msg : Message}
    (h : readLoop n cr = .ok (cr', msg)) : cr'.input.length < cr.input.length := by
  induction n generalizing cr with
  | zero => cases h
  | succ n ih =>
    unfold readLoop at h
    split at h
    · cases h
    · rename_i hchunk
      cases h
      exact length_lt_of_readChunk hchunk
    · rename_i hchunk
      exact lt_trans (ih h) (length_lt_of_readChunk hchunk)

theorem readAllLoop_fuel (hm : cr.input.length ≤ m)
    (hn : cr.input.length ≤ n) : readAllLoop m cr = readAllLoop n cr := by
  refine @loop_fuel _ _ (fun cr => cr.input.length) _ ?_ ?_ m n cr hm hn
  · intro cr hnil
    simp [readAllLoop, readMessage, readLoop, hnil]
  · intro n cr ih
    rw [readAllLoop, readAllLoop]
    cases hmsg : cr.readMessage with
    | error e => rfl
    | ok r => simp only [ih r.1 (length_lt_of_readLoop hmsg)]

/-- All messages by the first of them. -/
theorem readAll_eq_readMessage (cr : ChunkReader) :
    cr.readAll =
      match cr.readMessage with
      | .error e => ([], e)
      | .ok (cr', msg) => (msg :: cr'.readAll.1, cr'.readAll.2) := by
  have hfuel : cr.readAll = readAllLoop (cr.input.length + 1) cr :=
    readAllLoop_fuel (le_refl _) (le_succ _)
  rw [hfuel, readAllLoop]
  cases hmsg : cr.readMessage with
  | error e => rfl
  | ok r =>
    have hlt := length_lt_of_readLoop hmsg
    have hrest : readAllLoop cr.input.length r.1 = r.1.readAll :=
      readAllLoop_fuel (le_of_lt hlt) (le_refl _)
    simp only [hrest]

/-- All messages by the first chunk: message boundaries do not matter to the stream. -/
theorem readAll_eq (cr : ChunkReader) :
    cr.readAll =
      match cr.readChunk with
      | .error e => ([], e)
      | .ok (cr', some msg) => (msg :: cr'.readAll.1, cr'.readAll.2)
      | .ok (cr', none) => cr'.readAll := by
  rw [readAll_eq_readMessage, readMessage_eq]
  cases hchunk : cr.readChunk with
  | error e => rfl
  | ok r =>
    rcases r with ⟨cr', _ | msg⟩
    · exact (readAll_eq_readMessage cr').symm
    · rfl

/-! ## Two readers side by side -/

/-- Two turns of the loop end in the same way, with readers in `R` and messages in `M`. -/
def TurnRel (R : ChunkReader → ChunkReader → Prop) (M : Message → Message → Prop) :
    Except ChunkError (ChunkReader × Option Message) →
      Except ChunkError (ChunkReader × Option Message) → Prop
  | .error e, .error e' => e' = e
  | .ok (cr, out), .ok (cr', out') => R cr cr' ∧ Option.Rel M out out'
  | _, _ => False

theorem update_rel {S : ChunkState → ChunkState → Prop} {states states' : UInt32 → ChunkState}
    (hothers : ∀ c, c ≠ csid → S (states c) (states' c)) (hst : S st st') (c : UInt32) :
    S (update states csid st c) (update states' csid st' c) := by
  by_cases hc : c = csid
  · rw [hc, update_self, update_self]
    exact hst
  · rw [update_of_ne hc, update_of_ne hc]
    exact hothers c hc

/-- Readers that stand at the same place of their messages take the same data. -/
theorem readData_rel {input : Bytes}
    (hsize : cr'.chunkSize = cr.chunkSize) (hlength : st'.msgLength = st.msgLength)
    (hbytesRead : st'.bytesRead = st.bytesRead) (hreceived : ∀ data rest,
      readFull (min (st.msgLength.toNat - st.bytesRead) cr.chunkSize) input = .ok (data, rest) →
        R { cr with input := rest, states := update cr.states csid (st.received data) }
            { cr' with input := rest, states := update cr'.states csid (st'.received data) } ∧
          Option.Rel M ((st.received data).message csid) ((st'.received data).message csid)) :
    TurnRel R M (cr.readData csid st input) (cr'.readData csid st' input) := by
  rw [readData_eq, readData_eq, hlength, hbytesRead]
  by_cases hdone : st.msgLength.toNat ≤ st.bytesRead
  · rw [if_pos hdone, if_pos hdone]
    rfl
  · rw [if_neg hdone, if_neg hdone]
    cases hread : readFull (min (st.msgLength.toNat - st.bytesRead) cr.chunkSize) input with
    | error e =>
      rw [← hsize] at hread
      simp only [hread]
      rfl
    | ok r =>
      rcases r with ⟨data, rest⟩
      have hrel := hreceived data rest hread
      rw [← hsize] at hread
      simp only [hread]
      exact hrel

theorem readChunk_rel {S : ChunkState → ChunkState → Prop} {fmt : UInt8} {input input' : Bytes}
    (hbasic : readBasicHeader cr.input = .ok ((fmt, csid), input))
    (hbasic' : readBasicHeader cr'.input = .ok ((fmt, csid), input'))
    (hheader : HeaderRel S (readMessageHeader fmt (cr.states csid) input)
      (readMessageHeader fmt (cr'.states csid) input'))
    (hdata : ∀ st st' rest, S st st' → TurnRel R M (cr.readData csid st rest) (cr'.readData csid st' rest)) :
    TurnRel R M cr.readChunk cr'.readChunk := by
  simp only [readChunk, hbasic, hbasic', Except.mapError, bind, Except.bind]
  revert hheader
  rcases readMessageHeader fmt (cr.states csid) input with e | ⟨st, rest⟩ <;>
    rcases readMessageHeader fmt (cr'.states csid) input' with e' | ⟨st', rest'⟩
  · exact id
  · exact False.elim
  · exact False.elim
  · rintro ⟨rfl, hst⟩
    exact hdata st st' _ hst

/-- A relation that every turn keeps holds to the end of the stream. -/
theorem readAll_rel (hstep : ∀ cr cr', R cr cr' → TurnRel R M cr.readChunk cr'.readChunk)
    (h : TurnRel R M cr.readChunk cr'.readChunk) : List.Forall₂ M cr.readAll.1 cr'.readAll.1 := by
  obtain ⟨n, hn⟩ : ∃ n, cr.input.length = n := ⟨_, rfl⟩
  -- each turn shortens the stream of the first reader
  induction n using Nat.strong_induction_on generalizing cr cr' with
  | _ n ih =>
    rw [readAll_eq cr, readAll_eq cr']
    cases hchunk : cr.readChunk with
    | error e =>
      cases hchunk' : cr'.readChunk with
      | error e' => exact .nil
      | ok r' =>
        rw [hchunk, hchunk'] at h
        exact h.elim
    | ok r =>
      cases hchunk' : cr'.readChunk with
      | error e' =>
        rw [hchunk, hchunk'] at h
        exact h.elim
      | ok r' =>
        rcases r with ⟨cr1, out⟩
        rcases r' with ⟨cr1', out'⟩
        rw [hchunk, hchunk'] at h
        rcases h with ⟨hrel, hout⟩
        have hlt := length_lt_of_readChunk hchunk
        have hrest := ih _ (by omega) (hstep cr1 cr1' hrel) rfl
        cases hout with
        | none => exact hrest
        | some hmsg => exact .cons hmsg hrest

end ChunkReader

end LingVoice.Rtmp

import LingVoice.Rtmp.ChunkSpec

/-!
# ChunkUntimed — the reader is not steered by timestamps

The reader keeps the timestamp of each chunk stream, adds deltas to it and puts it into messages, but never
looks at it.  So readers whose states differ in timestamps only return messages that differ in timestamps only
(`readAll_untimed`).
-/

namespace LingVoice.Rtmp

open Lib

/-- The states agree in all but the timestamp. -/
def ChunkState.Untimed (st st' : ChunkState) : Prop :=
  st' = { st with timestamp := st'.timestamp }

def Message.Untimed (msg msg' : Message) : Prop :=
  msg' = { msg with timestamp := msg'.timestamp }

namespace ChunkState

theorem Untimed.refl (st : ChunkState) : st.Untimed st := rfl

/-- A delta that is added and one that is taken over leave the other fields as they are. -/
theorem untimed_addDelta (st : ChunkState) (ts delta : UInt32) :
    (st.addDelta delta).Untimed (addDelta { st with timestamp := ts } delta) := by
  unfold addDelta
  split
  · rfl
  · rfl

variable {st st' : ChunkState}

theorem Untimed.start (h : st.Untimed st') (length : UInt32) : (st.start length).Untimed (st'.start length) := by
  rw [h]
  rfl

theorem Untimed.received (h : st.Untimed st') (data : Bytes) : (st.received data).Untimed (st'.received data) := by
  rw [h]
  rfl

theorem Untimed.message (h : st.Untimed st') (csid : UInt32) :
    Option.Rel Message.Untimed (st.message csid) (st'.message csid) := by
  rw [h]
  unfold ChunkState.message
  split
  · exact .some rfl
  · exact .none

end ChunkState

theorem readMessageHeader_untimed {st st' : ChunkState} (h : st.Untimed st') (fmt : UInt8) (input : Bytes) :
    HeaderRel ChunkState.Untimed (readMessageHeader fmt st input) (readMessageHeader fmt st' input) := by
  rw [h]
  generalize st'.timestamp = ts
  unfold readMessageHeader
  split
  -- fmt 0 takes the timestamp from the header
  · cases readFields 0 11 input with
    | error e => rfl
    | ok r => exact ⟨rfl, rfl⟩
  · split
    · cases readFields 1 7 input with
      | error e => rfl
      | ok r =>
        have hdelta := st.untimed_addDelta ts r.1.2
        refine ⟨rfl, ChunkState.Untimed.start ?_ _⟩
        rw [hdelta]
        rfl
    · split
      · cases readFields 2 3 input with
        | error e => rfl
        | ok r =>
          have hdelta := st.untimed_addDelta ts r.1.2
          have hlength : (ChunkState.addDelta { st with timestamp := ts } r.1.2).msgLength =
              (st.addDelta r.1.2).msgLength := by
            rw [hdelta]
          simp only [bind, Except.bind, hlength]
          split
          · rfl
          · exact ⟨rfl, hdelta.start _⟩
      · split
        · have hskip : skipExtTimestamp { st with timestamp := ts } input = skipExtTimestamp st input := rfl
          rw [hskip]
          cases skipExtTimestamp st input with
          | error e => rfl
          | ok rest =>
            simp only [bind, Except.bind]
            split
            · rfl
            · exact ⟨rfl, rfl⟩
        · rfl

theorem uint24_ne_mark {b : UInt8} (hb : b ≠ 0xFF) (c d : UInt8) (rest : Bytes) :
    uint24 (b :: c :: d :: rest) 0 ≠ 0xFFFFFF := by
  have hb' : b.toNat ≠ 255 := fun heq => hb (UInt8.toNat_inj.1 heq)
  have hblt := b.toNat_lt
  have hclt := c.toNat_lt
  have hdlt := d.toNat_lt
  have hval : ofBe [b, c, d] = (b.toNat * 256 + c.toNat) * 256 + d.toNat := by simp [ofBe]
  intro heq
  have hnat := congrArg UInt32.toNat heq
  have hofNat : (UInt32.ofNat (ofBe [b, c, d])).toNat = ofBe [b, c, d] := by
    rw [UInt32.toNat_ofNat', Nat.mod_eq_of_lt (by omega)]
  have hmark : (0xFFFFFF : UInt32).toNat = 16777215 := rfl
  rw [show uint24 (b :: c :: d :: rest) 0 = UInt32.ofNat (ofBe [b, c, d]) from rfl, hofNat, hmark] at hnat
  omega

theorem readFields_firstByte {b : UInt8} (hb : b ≠ 0xFF) {input : Bytes} (hlen : 10 ≤ input.length) :
    readFields 0 11 (b :: input) = .ok ((b :: input.take 10, uint24 (b :: input.take 10) 0), input.drop 10) := by
  have hfull : readFull 11 (b :: input) = .ok (b :: input.take 10, input.drop 10) := by
    have hle : 11 ≤ (b :: input).length := by
      rw [List.length_cons]
      omega
    rw [readFull, if_pos hle]
    rfl
  have hmark : uint24 (b :: input.take 10) 0 ≠ 0xFFFFFF := by
    rcases input with _ | ⟨c, _ | ⟨d, rest⟩⟩
    · simp at hlen
    · simp at hlen
    · exact uint24_ne_mark hb c d (rest.take 8)
  simp only [readFields, hfull, Except.mapError, bind, Except.bind, readTimestamp, if_neg hmark, pure, Except.pure]

/-- The first byte of a fmt 0 header is the first of the timestamp.  It must not be 255, which could announce an
extended timestamp. -/
theorem readMessageHeader_firstByte {x y : UInt8} (hx : x ≠ 0xFF) (hy : y ≠ 0xFF) (st : ChunkState)
    (input : Bytes) :
    HeaderRel ChunkState.Untimed (readMessageHeader 0 st (x :: input)) (readMessageHeader 0 st (y :: input)) := by
  by_cases hlen : 10 ≤ input.length
  · simp only [readMessageHeader, if_true, readFields_firstByte hx hlen,
      readFields_firstByte hy hlen, bind, Except.bind]
    exact ⟨rfl, rfl⟩
  · have hshort (b : UInt8) : readFull 11 (b :: input) = .error .unexpectedEof := by
      have hlt : ¬ 11 ≤ (b :: input).length := by
        rw [List.length_cons]
        omega
      rw [readFull, if_neg hlt, if_neg (List.cons_ne_nil b input)]
    simp only [readMessageHeader, if_true, readFields, hshort, Except.mapError, bind, Except.bind]
    rfl

namespace ChunkReader

structure Untimed (cr cr' : ChunkReader) : Prop where
  input : cr'.input = cr.input
  chunkSize : cr'.chunkSize = cr.chunkSize
  states : ∀ csid, (cr.states csid).Untimed (cr'.states csid)

variable {cr cr' : ChunkReader}

theorem readData_untimed {csid : UInt32} {st st' : ChunkState} (hst : st.Untimed st')
    (hsize : cr'.chunkSize = cr.chunkSize) (hothers : ∀ c, (cr.states c).Untimed (cr'.states c)) (input : Bytes) :
    TurnRel Untimed Message.Untimed (cr.readData csid st input) (cr'.readData csid st' input) := by
  have hlength : st'.msgLength = st.msgLength := by
    rw [hst]
  have hbytesRead : st'.bytesRead = st.bytesRead := by
    rw [hst]
  refine readData_rel (R := Untimed) hsize hlength hbytesRead ?_
  intro data rest _
  exact ⟨⟨rfl, hsize, update_rel (fun c _ => hothers c) (hst.received data)⟩, (hst.received data).message csid⟩

/-- The step lemma. -/
theorem readChunk_untimed (h : cr.Untimed cr') : TurnRel Untimed Message.Untimed cr.readChunk cr'.readChunk := by
  cases hbasic : readBasicHeader cr.input with
  | error e =>
    simp only [readChunk, h.input, hbasic]
    rfl
  | ok r =>
    refine readChunk_rel hbasic (h.input ▸ hbasic) (readMessageHeader_untimed (h.states _) _ _) ?_
    exact fun _ _ rest hst => readData_untimed hst h.chunkSize h.states rest

end ChunkReader

end LingVoice.Rtmp

import LingVoice.Lib.ByteReader
import LingVoice.Lib.Endian

/-!
# Transport — RTP and RTCP between RTSP messages (`pkg/protocol/rtsp/transport.go`)

A frame is written behind `$`, its channel and its length in two bytes.  65536 bytes are accepted although they do not
fit: their length is written as zero.  An error is given by its text.
-/

namespace LingVoice.Rtsp

open Lib List

structure Interleaved where
  channel : UInt8
  data : Bytes
  deriving DecidableEq, Repr

def interleavedMagic : UInt8 := 0x24
def interleavedHdrLen : Nat := 4
def maxInterleavedSize : Nat := 2 ^ 16

/-- What is on the connection after the call; its writes succeed. -/
def writeInterleaved (written : Bytes) (f : Interleaved) : Except String Bytes :=
  if maxInterleavedSize < f.data.length then .error "rtsp: interleaved frame too large"
  else .ok (written ++ ([interleavedMagic, f.channel] ++ toBe 2 f.data.length ++ f.data))

def errorText : ReadError → String
  | .eof => "EOF"
  | .unexpectedEof => "unexpected EOF"

/-- What the call returns, and what is left on the connection; `nil` is the empty list. -/
def readInterleaved (input : Bytes) : Except String Interleaved × Bytes :=
  match readFull interleavedHdrLen input with
  | .error e => (.error (errorText e), [])
  | .ok (hdr, rest) =>
    if hdr.headD 0 ≠ interleavedMagic then (.error "rtsp: not an interleaved frame", rest)
    else if ofBe (hdr.drop 2) = 0 then (.ok ⟨hdr.getD 1 0, []⟩, rest)
    else
      match readFull (ofBe (hdr.drop 2)) rest with
      | .error e => (.error ("rtsp: read interleaved payload: " ++ errorText e), [])
      | .ok (buf, rest) => (.ok ⟨hdr.getD 1 0, buf⟩, rest)

def readCalls : Nat → Bytes → List (Except String Interleaved)
  | 0, _ => []
  | n + 1, input => (readInterleaved input).1 :: readCalls n (readInterleaved input).2

variable {f : Interleaved} {frames : List Interleaved} {written bytes : Bytes}

theorem readInterleaved_frame (hf : f.data.length ≤ maxInterleavedSize) (rest : Bytes) :
    readInterleaved ([interleavedMagic, f.channel] ++ toBe 2 f.data.length ++ f.data ++ rest) =
      if f.data.length = maxInterleavedSize then (.ok ⟨f.channel, []⟩, f.data ++ rest) else (.ok f, rest) := by
  have hheader : readFull interleavedHdrLen ([interleavedMagic, f.channel] ++ toBe 2 f.data.length ++ f.data ++ rest) =
      .ok ([interleavedMagic, f.channel] ++ toBe 2 f.data.length, f.data ++ rest) := by
    rw [append_assoc _ f.data]
    exact readFull_append (by simp [interleavedHdrLen]) _
  have hlength : ofBe (([interleavedMagic, f.channel] ++ toBe 2 f.data.length).drop 2) = f.data.length % 2 ^ 16 :=
    ofBe_toBe ..
  have hsize : maxInterleavedSize = 2 ^ 16 := rfl
  simp only [readInterleaved, hheader, hlength]
  by_cases hfull : f.data.length = maxInterleavedSize
  · simp [hfull, hsize]
  · have hmod : f.data.length % 2 ^ 16 = f.data.length := Nat.mod_eq_of_lt (by omega)
    rw [hmod, readFull_append rfl, if_neg hfull]
    obtain ⟨channel, _ | ⟨b, data⟩⟩ := f
    · rfl
    · simp

theorem readCalls_iff (h : frames.foldlM writeInterleaved written = .ok bytes) :
    ∃ sent, bytes = written ++ sent ∧
      (readCalls (frames.length + 1) sent = frames.map .ok ++ [.error "EOF"] ↔
        ∀ f ∈ frames, f.data.length ≠ maxInterleavedSize) := by
  induction frames generalizing written with
  | nil =>
    cases h
    exact ⟨[], (append_nil _).symm, iff_of_true rfl (by simp)⟩
  | cons f frames ih =>
    obtain ⟨next, hwrite, hrest⟩ := bind_eq_ok.1 h
    obtain ⟨sent, rfl, hread⟩ := ih hrest
    unfold writeInterleaved at hwrite
    split at hwrite
    · cases hwrite
    · next hle =>
      cases hwrite
      refine ⟨_, append_assoc .., ?_⟩
      rw [length_cons, readCalls, readInterleaved_frame (Nat.le_of_not_lt hle), map_cons, cons_append, cons.injEq,
        forall_mem_cons]
      split
      · next hfull =>
        -- the reader takes it for an empty frame
        refine iff_of_false ?_ (fun hall => hall.1 hfull)
        rintro ⟨hempty, -⟩
        have hdata : [] = f.data := congrArg Interleaved.data (Except.ok.inj hempty)
        rw [← hdata] at hfull
        cases hfull
      · next hfull => exact and_congr (iff_of_true rfl hfull) hread

/-- What is accepted is read back exactly if nothing has 65536 bytes. -/
theorem readCalls_writeInterleaved_iff (h : frames.foldlM writeInterleaved [] = .ok bytes) :
    readCalls (frames.length + 1) bytes = frames.map .ok ++ [.error "EOF"] ↔
      ∀ f ∈ frames, f.data.length ≠ maxInterleavedSize := by
  obtain ⟨sent, rfl, hread⟩ := readCalls_iff h
  exact hread

theorem readCalls_writeInterleaved_two :
    readCalls 3 [0x24, 0, 0, 2, 7, 8, 0x24, 1, 0, 0] = [.ok ⟨0, [7, 8]⟩, .ok ⟨1, []⟩, .error "EOF"] :=
  (@readCalls_writeInterleaved_iff [⟨0, [7, 8]⟩, ⟨1, []⟩] _ rfl).2 (by decide)

/-- 65536 bytes are accepted and not read back. -/
theorem readCalls_full :
    ∃ bytes, [⟨5, replicate 65536 0⟩].foldlM writeInterleaved [] = .ok bytes ∧
      readCalls 2 bytes ≠ [.ok ⟨5, replicate 65536 0⟩, .error "EOF"] := by
  have hlen : (replicate 65536 (0 : UInt8)).length = maxInterleavedSize := length_replicate
  generalize replicate 65536 (0 : UInt8) = data at hlen
  have hwrite : [⟨5, data⟩].foldlM writeInterleaved [] = _ := congrArg (· >>= _) (if_neg (Nat.not_lt.2 hlen.le))
  obtain ⟨sent, hsent, hread⟩ := readCalls_iff hwrite
  exact ⟨sent, hwrite.trans (congrArg _ hsent), fun h => hread.1 h _ mem_cons_self hlen⟩

end LingVoice.Rtsp

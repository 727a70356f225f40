import LingVoice.Gb28181.PsMedia
import LingVoice.LmDepacketizer.H264
import LingVoice.LmProtocol.Flv
import LingVoice.Srt.TsParserSpec

/-!
# AnnexBSplitters — the four splitters of Annex B data

`split_annexb_nalus` and `annex_b_to_avcc` of the Rust crates and `splitNALUnits` of the SRT package return the units
of a stream for every choice of start codes; a unit of `annex_b_to_avcc` has to have less than `2 ^ 32` bytes.
`splitAnnexB` of the GB28181 package looks for the three bytes `00 00 01` only, so the first zero of a start code of
four bytes is left on the unit before it (`splitAnnexB_assemble`).
-/

namespace LingVoice

open Lib.AnnexB List Nat

/-! ## The SRT package -/

namespace Srt

open Lib (Fault)
open Lib.Slice

def codeLen (rest : Bytes) : Nat :=
  if [0, 0, 1] <+: rest then 3 else if [0, 0, 0, 1] <+: rest then 4 else 0

variable (front : Bytes) (rest : Bytes)

theorem startCodeAt_append (zeros : Nat) (h : zeros < rest.length) :
    startCodeAt (front ++ rest) front.length zeros = .ok (decide (replicate zeros 0 ++ [1] <+: rest)) := by
  induction zeros generalizing front rest with
  | zero =>
    obtain ⟨b, rest, rfl⟩ := exists_cons_of_length_pos h
    rw [startCodeAt, index_length]
    simp [bind, Except.bind, pure, Except.pure, Bool.beq_eq_decide_eq, eq_comm]
  | succ zeros ih =>
    obtain ⟨b, rest, rfl⟩ := exists_cons_of_length_pos (zero_lt_of_lt h)
    have hrest := ih (front ++ [b]) rest (lt_of_succ_lt_succ h)
    rw [append_assoc, singleton_append, length_append, length_singleton] at hrest
    rw [startCodeAt, index_length]
    simp only [bind, Except.bind, hrest, replicate_succ, cons_append, cons_prefix_cons]
    by_cases hzero : b = 0
    · simp [hzero]
    · have hne : ¬ 0 = b := fun h => hzero h.symm
      simp [hzero, hne, pure, Except.pure]

theorem hasStartCode_append (zeros : Nat) :
    hasStartCode (front ++ rest) front.length zeros = .ok (decide (replicate zeros 0 ++ [1] <+: rest)) := by
  by_cases hfits : zeros < rest.length
  · rw [hasStartCode, if_pos (by rw [length_append]; omega), startCodeAt_append front rest zeros hfits]
  · have hlong : ¬ replicate zeros 0 ++ [1] <+: rest := by
      intro hprefix
      have hle := hprefix.length_le
      rw [length_append, length_replicate, length_singleton] at hle
      omega
    rw [hasStartCode, if_neg (by rw [length_append]; omega), decide_eq_false hlong]
    rfl

theorem startCodeLen_append : startCodeLen (front ++ rest) front.length = .ok (codeLen rest) := by
  have hthree := hasStartCode_append front rest 2
  have hfour := hasStartCode_append front rest 3
  rw [startCodeLen, hthree, hfour, codeLen]
  by_cases h3 : [0, 0, 1] <+: rest
  · simp [bind, Except.bind, replicate, h3]
    rfl
  · by_cases h4 : [0, 0, 0, 1] <+: rest
    · simp [bind, Except.bind, replicate, h3, h4]
      rfl
    · simp [bind, Except.bind, replicate, h3, h4]
      rfl

/-- The loop passes over bytes in which no start code begins. -/
theorem splitLoop_skip (start : Option Nat) (front bytes rest : Bytes) (n : Nat)
    (h : ∀ u, u ≠ [] → u <:+ bytes → codeLen (u ++ rest) = 0) :
    splitLoop (front ++ (bytes ++ rest)) (bytes.length + n) start front.length =
      splitLoop (front ++ (bytes ++ rest)) n start (front ++ bytes).length := by
  induction bytes generalizing front with
  | nil => rw [length_nil, zero_add, append_nil]
  | cons b bytes ih =>
    have hcode : startCodeLen (front ++ (b :: bytes ++ rest)) front.length = .ok 0 := by
      rw [startCodeLen_append]
      exact congrArg _ (h (b :: bytes) (cons_ne_nil b bytes) suffix_rfl)
    have hrest := ih (front ++ [b]) (fun u hne hsuffix => h u hne (hsuffix.trans (suffix_cons b bytes)))
    simp only [append_assoc, singleton_append, length_append, length_singleton] at hrest
    have hmore : front.length < (front ++ (b :: bytes ++ rest)).length := by simp
    rw [length_cons, add_right_comm, splitLoop, if_pos hmore, hcode]
    simp only [bind, Except.bind, if_true, cons_append]
    rw [hrest]
    simp only [length_append, length_cons]

theorem codeLen_startCode (long : Bool) (rest : Bytes) :
    codeLen (startCode long ++ rest) = (startCode long).length := by
  cases long with
  | true | false => simp [codeLen, startCode]

theorem nalUpTo_open (unit rest : Bytes) :
    nalUpTo (front ++ unit ++ rest) (some front.length) (front ++ unit).length = .ok [unit] := by
  rw [nalUpTo, append_assoc, length_append, slice_middle]
  rfl

theorem lastNAL_open {unit : Bytes} (hne : unit ≠ []) :
    lastNAL (front ++ unit) (some front.length) = .ok [unit] := by
  have hpos := length_pos_of_ne_nil hne
  have hopen := nalUpTo_open front unit []
  rw [append_nil] at hopen
  rw [lastNAL, if_pos (by rw [length_append]; omega), hopen]

/-- From a start code on; `held` is the unit before it, if there is one. -/
theorem splitLoop_assemble (units : List (Bool × NalUnit)) (front : Bytes) (start : Option Nat)
    (held : List Bytes) (n : Nat) (hn : (assemble units).length < n)
    (hopen : ∀ rest, nalUpTo (front ++ rest) start front.length = .ok held) (hlast : lastNAL front start = .ok held) :
    splitLoop (front ++ assemble units) n start front.length = .ok (held ++ units.map fun u => u.2.bytes) := by
  induction units generalizing front start held n with
  | nil =>
    cases n with
    | zero => exact absurd hn (not_lt_zero _)
    | succ n =>
      have hend : ¬ front.length < (front ++ assemble []).length := by simp [assemble]
      rw [splitLoop, if_neg hend, assemble, flatMap_nil, append_nil, hlast]
      simp
  | cons u units ih =>
    rcases u with ⟨long, unit⟩
    have hpos : 0 < (startCode long).length := length_pos_of_ne_nil (startCode_ne_nil long)
    obtain ⟨n, rfl, hrestn⟩ : ∃ m, n = unit.bytes.length + m + 1 ∧ (assemble units).length < m := by
      refine ⟨n - unit.bytes.length - 1, ?_, ?_⟩
      · rw [assemble_cons, length_append, length_append] at hn
        omega
      · rw [assemble_cons, length_append, length_append] at hn
        omega
    have hcode : startCodeLen (front ++ assemble ((long, unit) :: units)) front.length =
        .ok (startCode long).length := by
      rw [startCodeLen_append, assemble_cons, codeLen_startCode]
    have hmore : front.length < (front ++ assemble ((long, unit) :: units)).length := by
      rw [assemble_cons, length_append, length_append]
      omega
    have hskip := splitLoop_skip (some (front ++ startCode long).length) (front ++ startCode long) unit.bytes
      (assemble units) n ?_
    · have hrest := ih (front ++ startCode long ++ unit.bytes) (some (front ++ startCode long).length) [unit.bytes] n
        hrestn (nalUpTo_open _ _) (lastNAL_open _ unit.ne_nil)
      have hdata : front ++ assemble ((long, unit) :: units) =
          front ++ startCode long ++ (unit.bytes ++ assemble units) := by
        rw [assemble_cons, append_assoc]
      rw [append_assoc (front ++ startCode long)] at hrest
      rw [splitLoop, if_pos hmore, hcode]
      simp only [bind, Except.bind, if_neg (ne_of_gt hpos), hopen]
      rw [hdata, ← length_append, hskip, hrest]
      rfl
    · intro u hne hsuffix
      have hcodes := unit.no_code hne hsuffix (assemble units)
      rw [codeLen, if_neg hcodes.1, if_neg hcodes.2]

theorem splitNALUnits_assemble (units : List (Bool × NalUnit)) :
    splitNALUnits (assemble units) = .ok (units.map fun u => u.2.bytes) := by
  exact splitLoop_assemble units [] none [] _ (lt_succ_self _) (fun _ => rfl) rfl

end Srt

/-! ## The GB28181 package -/

namespace Gb28181

open Lib (byteAt)

theorem startCodeLen_startCode (long : Bool) (b : UInt8) (rest : Bytes) :
    startCodeLen (startCode long ++ b :: rest) = (startCode long).length := by
  cases long with
  | true => exact if_pos ⟨by simp [startCode], rfl, rfl, rfl, rfl⟩
  | false =>
    have hfour : ¬ (4 ≤ (startCode false ++ b :: rest).length ∧ byteAt (startCode false ++ b :: rest) 0 = 0 ∧
        byteAt (startCode false ++ b :: rest) 1 = 0 ∧ byteAt (startCode false ++ b :: rest) 2 = 0 ∧
        byteAt (startCode false ++ b :: rest) 3 = 1) := by
      rintro ⟨-, -, -, hzero, -⟩
      exact absurd hzero (by decide : (1 : UInt8) ≠ 0)
    rw [startCodeLen, if_neg hfour]
    exact if_pos ⟨by simp [startCode], rfl, rfl, rfl⟩

/-- What the search leaves on the unit before. -/
def gap : List (Bool × NalUnit) → Bytes
  | (true, _) :: _ => [0]
  | _ => []

/-- The search goes to the last two zeros of a start code. -/
def shortened : List (Bool × NalUnit) → List (Bool × NalUnit)
  | (_, unit) :: units => (false, unit) :: units
  | [] => []

variable (units : List (Bool × NalUnit))

theorem assemble_eq_gap : assemble units = gap units ++ assemble (shortened units) := by
  match units with
  | [] | (true, _) :: _ | (false, _) :: _ => rfl

theorem shortened_eq_nil_or : assemble (shortened units) = [] ∨ AtStartCode (assemble (shortened units)) := by
  cases units with
  | nil => exact .inl rfl
  | cons u units =>
    obtain ⟨b, bytes, hbytes⟩ := exists_cons_of_ne_nil u.2.ne_nil
    refine .inr ?_
    rw [shortened, assemble_cons, hbytes]
    exact ⟨by simp [startCode], rfl, rfl, rfl⟩

theorem findStartCode_unit (unit : NalUnit) {bytes : Bytes} (hbytes : bytes <:+ unit.bytes)
    (units : List (Bool × NalUnit)) :
    findStartCode (bytes ++ assemble units) = findStartCode (assemble (shortened units)) := by
  have hgap : findStartCode (gap units ++ assemble (shortened units)) = findStartCode (assemble (shortened units)) := by
    match units with
    | [] | (false, _) :: _ => rfl
    | (true, u) :: units =>
      apply Lib.firstSuffix_append
      intro v hne hsuffix hcode
      obtain rfl : v = [0] := (suffix_cons_iff.1 hsuffix).resolve_right (fun h => hne (suffix_nil.1 h))
      -- the third byte is the second zero of the code
      exact absurd hcode.2.2.2 (by decide : (0 : UInt8) ≠ 1)
  rw [← hgap, ← assemble_eq_gap]
  apply Lib.firstSuffix_append
  intro u hne hsuffix hcode
  exact (unit.no_code hne (hsuffix.trans hbytes) _).1 hcode.begins

theorem splitLoop_unit (long : Bool) (unit : NalUnit) (units : List (Bool × NalUnit)) (fuel : Nat) :
    splitLoop (fuel + 1) (assemble ((long, unit) :: units)) =
      (unit.bytes ++ gap units) :: splitLoop fuel (assemble (shortened units)) := by
  obtain ⟨b, bytes, hbytes⟩ := exists_cons_of_ne_nil unit.ne_nil
  have hdata : assemble ((long, unit) :: units) = startCode long ++ b :: (bytes ++ assemble units) := by
    rw [assemble_cons, hbytes, cons_append]
  have hlen := startCodeLen_startCode long b (bytes ++ assemble units)
  have hpos : ¬ (startCode long).length = 0 := mt length_eq_zero_iff.1 (startCode_ne_nil long)
  have hnext : findStartCode (bytes ++ gap units ++ assemble (shortened units)) =
      findStartCode (assemble (shortened units)) := by
    rw [append_assoc, ← assemble_eq_gap]
    apply findStartCode_unit unit
    rw [hbytes]
    exact suffix_cons b bytes
  have hloop : splitLoop (fuel + 1) (startCode long ++ b :: (bytes ++ assemble units)) =
      (findStartCode (bytes ++ assemble units)).elim [b :: (bytes ++ assemble units)] fun next =>
        (b :: (bytes ++ assemble units)).take ((b :: (bytes ++ assemble units)).length - next.length) ::
          splitLoop fuel next := by
    cases hcode : startCode long ++ b :: (bytes ++ assemble units) with
    | nil => simp at hcode
    | cons a rest =>
      rw [hcode] at hlen
      rw [splitLoop, hlen, if_neg hpos, ← hcode, drop_left]
      simp only [drop_succ_cons, drop_zero]
      cases findStartCode (bytes ++ assemble units) with
      | none | some next => rfl
  rw [hdata, hloop, assemble_eq_gap, ← append_assoc, hbytes]
  rcases Lib.firstSuffix_cut b hnext (shortened_eq_nil_or units) with ⟨hfind, hnil⟩ | ⟨hfind, htake⟩
  · rw [findStartCode, hfind, hnil, append_nil]
    cases fuel with
    | zero | succ fuel => rfl
  · simp only [findStartCode, hfind, htake, cons_append, Option.elim_some]

def withGaps : List (Bool × NalUnit) → List Bytes
  | [] => []
  | u :: units => (u.2.bytes ++ gap units) :: withGaps units

theorem withGaps_shortened : withGaps (shortened units) = withGaps units := by
  cases units with
  | nil | cons u units => rfl

theorem splitAnnexB_assemble : splitAnnexB (assemble units) = withGaps units := by
  have hlength : units.length ≤ (assemble units).length :=
    Lib.length_le_flatMap fun u _ => by simp [u.2.ne_nil]
  have hloop (fuel : Nat) (hfuel : units.length ≤ fuel) : splitLoop fuel (assemble units) = withGaps units := by
    clear hlength
    induction fuel generalizing units with
    | zero =>
      obtain rfl : units = [] := length_eq_zero_iff.1 (le_zero.1 hfuel)
      rfl
    | succ fuel ih =>
      cases units with
      | nil => rfl
      | cons u units =>
        have hshort : (shortened units).length ≤ fuel := by
          cases units with
          | nil => exact zero_le _
          | cons v units => exact le_of_succ_le_succ hfuel
        rw [splitLoop_unit, ih (shortened units) hshort, withGaps_shortened]
        rfl
  exact hloop _ hlength

theorem withGaps_eq_iff : withGaps units = (units.map fun u => u.2.bytes) ↔ ∀ u ∈ units.tail, u.1 = false := by
  induction units with
  | nil => simp [withGaps]
  | cons u units ih =>
    rw [withGaps, map_cons, cons.injEq, ih, append_right_eq_self]
    match units with
    | [] | (true, v) :: units | (false, v) :: units => simp [gap]

end Gb28181

/-! ## All of them -/

/-- The four splitters return the units of a stream, exactly when every start code behind the first unit has three
bytes and every length fits in four. -/
theorem splitters_agree_iff (units : List (Bool × NalUnit)) :
    (LmDepacketizer.splitAnnexbNalus (assemble units) = (units.map fun u => u.2.bytes) ∧
      Lib.Avcc.units (LmProtocol.FlvRemuxer.annexBToAvcc (assemble units)) = some (units.map fun u => u.2.bytes) ∧
      Srt.splitNALUnits (assemble units) = .ok (units.map fun u => u.2.bytes) ∧
      Gb28181.splitAnnexB (assemble units) = units.map fun u => u.2.bytes) ↔
      (∀ u ∈ units, u.2.bytes.length < 2 ^ 32) ∧ ∀ u ∈ units.tail, u.1 = false := by
  have havcc : Lib.Avcc.units (LmProtocol.FlvRemuxer.annexBToAvcc (assemble units)) =
      some (units.map fun u => u.2.bytes) ↔ ∀ u ∈ units, u.2.bytes.length < 2 ^ 32 := by
    rw [LmProtocol.FlvRemuxer.annexBToAvcc_assemble, Lib.Avcc.units_encode_iff, forall_mem_map]
  rw [LmDepacketizer.splitAnnexbNalus_assemble, Srt.splitNALUnits_assemble, Gb28181.splitAnnexB_assemble,
    Gb28181.withGaps_eq_iff, havcc]
  constructor
  · rintro ⟨-, hlengths, -, hcodes⟩
    exact ⟨hlengths, hcodes⟩
  · rintro ⟨hlengths, hcodes⟩
    exact ⟨rfl, hlengths, rfl, hcodes⟩

/-- A unit of one byte before a start code of four bytes: `splitAnnexB` returns it with a zero behind it. -/
theorem splitAnnexB_long_code :
    Gb28181.splitAnnexB (assemble [(false, ⟨[0x65], by decide, by decide, by decide⟩),
      (true, ⟨[0x41], by decide, by decide, by decide⟩)]) = [[0x65, 0x00], [0x41]] := by
  decide

end LingVoice

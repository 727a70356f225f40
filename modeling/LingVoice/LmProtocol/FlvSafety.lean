import LingVoice.LmProtocol.FlvStream

/-!
# FlvSafety — the index and slice expressions of the FLV remuxer

The two scanners of `flv.rs` and the decoder configuration again, with every index and slice expression checked.  All
of them are in range but one: `extract_sps_pps` reads the byte behind a start code that may be the end of the data.
-/

namespace LingVoice.LmProtocol.FlvRemuxer

open Lib List Nat
open LmCore

/-! ## The scanners with their checks -/

def startCodeLenChecked (rest : Bytes) : Except Fault Nat := do
  if (← Slice.slice rest 0 4) = [0, 0, 0, 1] then
    return 4
  if (← Slice.slice rest 0 3) = [0, 0, 1] then
    return 3
  return 0

/-- The inner loop: the data from the next start code on, or their end. -/
def nextChecked : Bytes → Except Fault Bytes
  | [] => .ok []
  | b :: rest =>
    if 4 ≤ (b :: rest).length then do
      if (← startCodeLenChecked (b :: rest)) = 0 then nextChecked rest else return b :: rest
    else
      return []

/-- The outer loop; `keep` is what a scanner does with a unit. -/
def scanChecked {σ : Type} (keep : σ → Bytes → Except Fault σ) : Nat → Bytes → σ → Except Fault σ
  | 0, _, _ => .error .outOfFuel
  | fuel + 1, rest, s =>
    if rest.length < 4 then
      return s
    else do
      let scLen ← startCodeLenChecked rest
      if scLen = 0 then
        scanChecked keep fuel (rest.drop 1) s
      else
        let nal := rest.drop scLen
        let next ← nextChecked (nal.drop 1)
        scanChecked keep fuel next (← keep s (← Slice.slice nal 0 (nal.length - next.length : Int)))

def extractSpsPpsChecked (data : Bytes) : Except Fault (Option Bytes × Option Bytes) :=
  scanChecked keepSpsPps (data.length + 1) data (none, none)

def annexBToAvccChecked (data : Bytes) : Except Fault Bytes :=
  scanChecked (fun output nal => return output ++ (be32 (UInt32.ofNat nal.length) ++ nal)) (data.length + 1) data []

def profileChecked (sps : Bytes) : Except Fault Bytes :=
  if 4 ≤ sps.length then
    return [← Slice.index sps 1, ← Slice.index sps 2, ← Slice.index sps 3]
  else
    return [0x42, 0x00, 0x1E]

def buildAvcDecoderConfigChecked (sps pps : Bytes) : Except Fault Bytes := do
  let profile ← profileChecked sps
  return 0x01 :: profile ++
    [0xFF, 0xE1, UInt8.ofNat (sps.length >>> 8), UInt8.ofNat (sps.length &&& 0xFF)] ++ sps ++
    [0x01, UInt8.ofNat (pps.length >>> 8), UInt8.ofNat (pps.length &&& 0xFF)] ++ pps

/-! ## They see the units -/

theorem startCodeLenChecked_eq {rest : Bytes} (h : 4 ≤ rest.length) :
    startCodeLenChecked rest = .ok (startCodeLen rest) := by
  have hfour := Slice.slice_eq_ok (zero_le 4) h
  have hthree := @Slice.slice_eq_ok _ rest _ _ (zero_le 3) (by omega)
  unfold startCodeLenChecked startCodeLen
  rw [cast_ofNat] at hfour hthree
  simp only [hfour, hthree, drop_zero, bind, Except.bind]
  split_ifs <;> rfl

theorem nextChecked_eq (rest : Bytes) : nextChecked rest = .ok ((firstSuffix AtStartCode rest).getD []) := by
  induction rest with
  | nil => rfl
  | cons b rest ih =>
    rw [nextChecked, firstSuffix]
    by_cases hlong : 4 ≤ (b :: rest).length
    · rw [if_pos hlong, startCodeLenChecked_eq hlong, ih]
      simp only [AtStartCode, hlong, true_and, ite_not, bind, Except.bind]
      split_ifs <;> rfl
    · have hnone : firstSuffix AtStartCode rest = none := by
        apply firstSuffix_eq_none
        intro u _ hsuffix hcode
        exact hlong (hcode.1.trans (hsuffix.trans (suffix_cons b rest)).length_le)
      simp only [AtStartCode, hlong, false_and, if_false, hnone]
      rfl

/-- One turn at a start code: the unit ends where the next turn begins. -/
theorem nalLoop_startCode {rest nal : Bytes} (hlong : ¬ rest.length < 4) (hcode : startCodeLen rest ≠ 0)
    (hnal : rest.drop (startCodeLen rest) = nal) (n : Nat) :
    ∃ next, nextChecked (nal.drop 1) = .ok next ∧ next <:+ nal.drop 1 ∧
      nalLoop (n + 1) rest = nal.take (nal.length - next.length) :: nalLoop n next := by
  refine ⟨_, nextChecked_eq _, ?_⟩
  rw [nalLoop, if_neg hlong, if_neg hcode, hnal]
  dsimp only
  cases hnext : firstSuffix AtStartCode (nal.drop 1) with
  | none =>
    have hnil : nalLoop n [] = [] := by
      cases n <;> rfl
    simp [hnil]
  | some next => exact ⟨(firstSuffix_eq_some hnext).1, rfl⟩

theorem scanChecked_eq {σ : Type} (keep : σ → Bytes → Except Fault σ) {n : Nat} {rest : Bytes}
    (hn : rest.length ≤ n) (s : σ) : scanChecked keep (n + 1) rest s = (nalLoop n rest).foldlM keep s := by
  induction n generalizing rest s with
  | zero =>
    obtain rfl := length_eq_zero_iff.1 (le_zero.1 hn)
    rfl
  | succ n ih =>
    rw [scanChecked]
    by_cases hshort : rest.length < 4
    · rw [if_pos hshort, nalLoop, if_pos hshort]
      rfl
    · rw [if_neg hshort, startCodeLenChecked_eq (not_lt.1 hshort)]
      by_cases hzero : startCodeLen rest = 0
      · rw [nalLoop, if_neg hshort, if_pos hzero, ← ih (by rw [length_drop]; omega)]
        exact if_pos hzero
      · obtain ⟨nal, hnal⟩ : ∃ nal, rest.drop (startCodeLen rest) = nal := ⟨_, rfl⟩
        obtain ⟨next, hnext, hsuffix, hloop⟩ := nalLoop_startCode hshort hzero hnal n
        have hle := hsuffix.length_le
        have hslice := Slice.slice_eq_ok (zero_le _) (sub_le nal.length next.length)
        rw [length_drop] at hle
        rw [cast_sub (by omega), drop_zero] at hslice
        rw [hloop, foldlM_cons]
        simp only [bind, Except.bind, if_neg hzero, hnal, hnext, hslice]
        cases keep s (nal.take (nal.length - next.length)) with
        | error e => rfl
        | ok s' =>
          rw [← hnal, length_drop] at hle
          exact ih (by omega) s'

theorem extractSpsPpsChecked_eq (data : Bytes) : extractSpsPpsChecked data = extractSpsPps data :=
  scanChecked_eq keepSpsPps (le_refl _) (none, none)

theorem annexBToAvccChecked_eq (data : Bytes) : annexBToAvccChecked data = .ok (annexBToAvcc data) := by
  rw [annexBToAvccChecked, scanChecked_eq _ (le_refl _), annexBToAvcc, flatMap_eq_foldl]
  exact foldlM_pure

theorem buildAvcDecoderConfigChecked_eq (sps pps : Bytes) :
    buildAvcDecoderConfigChecked sps pps = .ok (buildAvcDecoderConfig sps pps) := by
  match sps with
  | [] | [_] | [_, _] | [_, _, _] | _ :: _ :: _ :: _ :: _ => rfl

/-! ## A unit without bytes -/

/-- How many start codes of three bytes data end in, one right behind the other; the data stand from their end. -/
def adjacentCodes : Bytes → Nat
  | 1 :: 0 :: 0 :: before => adjacentCodes before + 1
  | _ => 0

/-- The data end in a start code of four bytes, and an even number of adjacent ones of three bytes is before it.
A scan takes the second of two adjacent start codes for the unit behind the first. -/
def EndsInStartCode (data : Bytes) : Prop :=
  ∃ before, data = before ++ [0, 0, 0, 1] ∧ adjacentCodes before.reverse % 2 = 0

theorem adjacentCodes_eq_zero {l : Bytes} (h : ¬ [1, 0, 0] <+: l) : adjacentCodes l = 0 := by
  rw [adjacentCodes]
  rintro before rfl
  exact h ⟨before, rfl⟩

theorem adjacentCodes_append {x y : Bytes} (hone : ¬ [0, 0] <+: y)
    (htwo : [1, 0] <:+ x → adjacentCodes (1 :: 0 :: y) % 2 = 0) (hy : adjacentCodes y % 2 = 0) :
    adjacentCodes (x ++ y) % 2 = adjacentCodes x % 2 := by
  fun_induction adjacentCodes x with
  | case1 before ih =>
    have hbefore := ih fun h => htwo (h.trans ⟨[1, 0, 0], rfl⟩)
    simp only [cons_append, adjacentCodes]
    omega
  | case2 x hx =>
    match x with
    | [] => exact hy
    | [a] =>
      rw [adjacentCodes_eq_zero]
      rintro ⟨before, ⟨⟩⟩
      exact hone ⟨before, rfl⟩
    | [a, b] =>
      by_cases hboth : [a, b] = [1, 0]
      · exact hboth ▸ htwo (hboth ▸ suffix_rfl)
      · rw [adjacentCodes_eq_zero]
        rintro ⟨before, ⟨⟩⟩
        exact hboth rfl
    | a :: b :: d :: x =>
      rw [adjacentCodes_eq_zero]
      rintro ⟨before, ⟨⟩⟩
      exact hx x rfl

theorem not_endsInStartCode_of_length_lt {data : Bytes} (hshort : data.length < 4) : ¬ EndsInStartCode data := by
  rintro ⟨before, rfl, -⟩
  rw [length_append] at hshort
  exact absurd hshort (not_lt.2 (le_add_left 4 _))

/-- Bytes in front that leave the number even and that the last start code does not reach into. -/
theorem endsInStartCode_append {head rest : Bytes}
    (heven : ∀ before, rest = before ++ [0, 0, 0, 1] →
      adjacentCodes (before.reverse ++ head.reverse) % 2 = adjacentCodes before.reverse % 2)
    (hshort : rest.length < 4 → ¬ EndsInStartCode (head ++ rest)) :
    EndsInStartCode (head ++ rest) ↔ EndsInStartCode rest := by
  constructor
  · intro h
    have hlong : 4 ≤ rest.length := not_lt.1 fun hlt => hshort hlt h
    obtain ⟨before, hdata, hbefore⟩ := h
    obtain ⟨front, rfl⟩ := suffix_of_suffix_length_le ⟨before, hdata.symm⟩ (suffix_append head rest) hlong
    rw [← append_assoc] at hdata
    rw [← append_cancel_right hdata, reverse_append, heven front rfl] at hbefore
    exact ⟨front, rfl, hbefore⟩
  · rintro ⟨before, rfl, hbefore⟩
    refine ⟨head ++ before, (append_assoc _ _ _).symm, ?_⟩
    rw [reverse_append, heven before rfl, hbefore]

theorem endsInStartCode_cons {b : UInt8} {rest : Bytes} (hat : ¬ AtStartCode (b :: rest)) :
    EndsInStartCode (b :: rest) ↔ EndsInStartCode rest := by
  refine @endsInStartCode_append [b] rest ?_ ?_
  · rintro before rfl
    refine adjacentCodes_append (fun h => by simpa using h.length_le) (fun htwo => ?_) (by simp [adjacentCodes])
    obtain ⟨tail, rfl⟩ : [0, 1] <+: before := reverse_suffix.1 htwo
    have hb : b ≠ 0 := by
      rintro rfl
      exact hat ⟨by simp, by simp [startCodeLen]⟩
    simp [adjacentCodes, hb]
  · rintro hshort ⟨before, hdata, -⟩
    have hlen := congrArg length hdata
    simp only [length_append, length_cons, length_nil] at hlen
    obtain rfl : before = [] := length_eq_zero_iff.1 (by omega)
    have hfour : b :: rest = [0, 0, 0, 1] := hdata
    exact hat (hfour ▸ by decide)

/-- The three bytes a start code ends in, with the zero of one of four bytes before them. -/
theorem eq_append_of_startCodeLen {rest : Bytes} (hcode : startCodeLen rest ≠ 0) :
    ∃ zeros, (zeros = [] ∨ zeros = [0]) ∧ rest = zeros ++ 0 :: 0 :: 1 :: rest.drop (startCodeLen rest) := by
  unfold startCodeLen at hcode ⊢
  split_ifs at hcode ⊢ with hfour hthree
  · refine ⟨[0], .inr rfl, ?_⟩
    conv_lhs => rw [← take_append_drop 4 rest, hfour]
    rfl
  · refine ⟨[], .inl rfl, ?_⟩
    conv_lhs => rw [← take_append_drop 3 rest, hthree]
    rfl
  · exact absurd rfl hcode

/-- A start code and the first byte of the unit behind it, which may be the first of an adjacent start code. -/
theorem endsInStartCode_unit {zeros tail : Bytes} (c : UInt8) (hzeros : zeros = [] ∨ zeros = [0]) :
    EndsInStartCode (zeros ++ 0 :: 0 :: 1 :: c :: tail) ↔ EndsInStartCode tail := by
  have hhead : zeros ++ 0 :: 0 :: 1 :: c :: tail = zeros ++ [0, 0, 1, c] ++ tail := by simp
  rw [hhead]
  apply endsInStartCode_append
  · intro before _
    refine adjacentCodes_append ?_ (fun _ => ?_) ?_
    · rw [reverse_append]
      rintro ⟨_, ⟨⟩⟩
    · rcases hzeros with rfl | rfl <;> by_cases hc : c = 0 <;> simp [adjacentCodes, hc]
    · simp [adjacentCodes]
  · rintro hshort ⟨before, hdata, hbefore⟩
    -- the last four bytes would reach back to the unit's first byte
    have hback := congrArg reverse hdata
    match tail with
    | [] | [_] | [_, _] => simp at hback
    | [x, y, z] =>
      simp only [reverse_append, reverse_cons, reverse_nil, nil_append, cons_append, cons.injEq] at hback
      rw [← hback.2.2.2.2] at hbefore
      rcases hzeros with rfl | rfl <;> exact absurd hbefore (by decide)
    | _ :: _ :: _ :: _ :: _ =>
      simp only [length_cons] at hshort
      omega

theorem endsInStartCode_firstSuffix (tail : Bytes) :
    EndsInStartCode tail ↔ ∃ next, firstSuffix AtStartCode tail = some next ∧ EndsInStartCode next := by
  induction tail with
  | nil => simp [firstSuffix, not_endsInStartCode_of_length_lt]
  | cons b rest ih =>
    by_cases hat : AtStartCode (b :: rest)
    · simp [firstSuffix_of_pos hat]
    · rw [endsInStartCode_cons hat, ih, firstSuffix, if_neg hat]

theorem nil_mem_nalLoop_iff {n : Nat} {rest : Bytes} (hn : rest.length ≤ n) :
    [] ∈ nalLoop n rest ↔ EndsInStartCode rest := by
  induction n generalizing rest with
  | zero =>
    have hshort : ¬ EndsInStartCode rest := not_endsInStartCode_of_length_lt (by omega)
    simp [nalLoop, hshort]
  | succ n ih =>
    rw [nalLoop]
    split_ifs with hshort hcode
    · simp [not_endsInStartCode_of_length_lt hshort]
    · cases rest with
      | nil => exact absurd (by decide) hshort
      | cons b tail =>
        rw [endsInStartCode_cons fun hat => hat.2 hcode]
        exact ih (le_of_succ_le_succ hn)
    · obtain ⟨zeros, hzeros, hrest⟩ := eq_append_of_startCodeLen hcode
      generalize rest.drop (startCodeLen rest) = nal at hrest ⊢
      subst hrest
      cases nal with
      | nil =>
        -- three bytes are too short to be looked at
        obtain rfl := hzeros.resolve_left fun h => hshort (by rw [h]; decide)
        simp only [firstSuffix, drop_nil, mem_singleton, true_iff]
        exact ⟨[], rfl, rfl⟩
      | cons c tail =>
        rw [endsInStartCode_unit c hzeros, endsInStartCode_firstSuffix]
        simp only [drop_one, tail_cons]
        cases hnext : firstSuffix AtStartCode tail with
        | none => simp
        | some next =>
          have hle := (firstSuffix_eq_some hnext).1.length_le
          simp only [length_append, length_cons] at hn
          simp [@ih next (by omega), succ_sub hle]

/-! ## Runs -/

theorem extractSpsPps_ok_iff (data : Bytes) :
    (∃ found, extractSpsPps data = .ok found) ↔ ¬ EndsInStartCode data := by
  rw [extractSpsPps, ← nil_mem_nalLoop_iff (le_refl data.length), ← nalus]
  generalize (none, none) = found
  induction nalus data generalizing found with
  | nil => simp [pure, Except.pure]
  | cons nal nals ih =>
    rw [foldlM_cons]
    cases nal with
    | nil => simp [keepSpsPps, Slice.index, bind, Except.bind]
    | cons b tail =>
      rw [keepSpsPps_eq (cons_ne_nil b tail), mem_cons, or_iff_right (cons_ne_nil b tail).symm]
      exact ih _

/-- What must hold of a frame for `push_frame` not to panic: a keyframe of H.264 has no start code at its end that
the scan stops at. -/
def Scannable (frame : MediaFrame) : Prop :=
  frame.kind = .video ∧ frame.codec = .h264 ∧ frame.keyframe → ¬ EndsInStartCode frame.data

theorem pushFrame_ok_iff (r : FlvRemuxer) (frame : MediaFrame) :
    (∃ next, r.pushFrame frame = .ok next) ↔ Scannable frame := by
  rw [Scannable, ← extractSpsPps_ok_iff]
  unfold pushFrame takeParameterSets
  by_cases hkey : frame.kind = .video ∧ frame.codec = .h264 ∧ frame.keyframe
  · simp only [hkey]
    cases extractSpsPps frame.data with
    | error e => simp [bind, Except.bind]
    | ok found => simp [bind, Except.bind, pure, Except.pure]
  · simp [hkey, bind, Except.bind, pure, Except.pure]

/-- A run of `push_frame` neither panics nor hangs exactly when no keyframe of H.264 ends in a start code
behind an even number of adjacent ones. -/
theorem output_ok_iff (data sps pps : Bytes) (r : FlvRemuxer) (frames : List MediaFrame) :
    (extractSpsPpsChecked data = extractSpsPps data ∧ annexBToAvccChecked data = .ok (annexBToAvcc data)) ∧
      buildAvcDecoderConfigChecked sps pps = .ok (buildAvcDecoderConfig sps pps) ∧
      ((∃ out, r.output frames = .ok out) ↔ ∀ frame ∈ frames, Scannable frame) := by
  refine ⟨⟨extractSpsPpsChecked_eq data, annexBToAvccChecked_eq data⟩, buildAvcDecoderConfigChecked_eq sps pps, ?_⟩
  induction frames generalizing r with
  | nil => simp [output]
  | cons frame frames ih =>
    rw [forall_mem_cons, ← pushFrame_ok_iff r frame, output]
    cases r.pushFrame frame with
    | error e => simp [bind, Except.bind]
    | ok next =>
      rw [← ih next.1]
      cases hrest : next.1.output frames with
      | error e => simp [hrest, bind, Except.bind]
      | ok rest => simp [hrest, bind, Except.bind, pure, Except.pure]

theorem output_ends_in_startCode :
    (new true true).output [MediaFrame.video .h264 0 [0, 0, 0, 1] 0 true] = .error .indexOutOfRange := by
  decide

end LingVoice.LmProtocol.FlvRemuxer

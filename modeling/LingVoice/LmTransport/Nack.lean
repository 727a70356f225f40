import LingVoice.Lib.Mealy
import LingVoice.Lib.SeqNum
import LingVoice.LmTransport.Rtcp
import Mathlib.Data.Finset.Basic
import Mathlib.Data.Finset.Dedup
import Mathlib.Data.List.Sort

/-!
# Nack — the NACK generator (`lm-transport/src/retransmit.rs`)

The receiver remembers the highest sequence number and the numbers it has asked for.  A packet that is
ahead reports the numbers it skipped, sorted and packed into items of a number and a bitmap of the 16
numbers behind it.
-/

namespace LingVoice.LmTransport

open List NackItem

structure NackGenerator where
  highestSeq : UInt16
  initialized : Bool
  missingSeqs : Finset UInt16
  deriving DecidableEq

def NackPacket.lostSequenceNumbers (nack : NackPacket) : List UInt16 :=
  nack.items.flatMap NackItem.lostSequenceNumbers

namespace NackGenerator

def new : NackGenerator :=
  { highestSeq := 0, initialized := false, missingSeqs := ∅ }

/-! ## Packing -/

/-- The inner loop of `build_nack`: numbers within 16 of `pid` go into the bitmap; the first one that is
not ends it. -/
def packBlp (pid : UInt16) : UInt16 → List UInt16 → UInt16 × List UInt16
  | blp, [] => (blp, [])
  | blp, seq :: rest =>
    let offset := seq - pid
    if offset = 0 ∨ 16 < offset then
      (blp, seq :: rest)
    else
      packBlp pid (blp ||| (1 <<< (offset - 1))) rest

/-- The outer loop of `build_nack`. -/
def packItems : Nat → List UInt16 → List NackItem
  | 0, _ => []
  | _ + 1, [] => []
  | fuel + 1, pid :: rest =>
    let (blp, rest) := packBlp pid 0 rest
    { pid := pid, blp := blp } :: packItems fuel rest

/-- `build_nack`: the numbers are sorted as they are, not along the wrap. -/
def buildNack (missing : List UInt16) : NackPacket :=
  { senderSsrc := 0
    mediaSsrc := 0
    items := packItems missing.length (missing.insertionSort (· ≤ ·)) }

/-! ## Recording -/

/-- The loop from `s` up to `seq`: the numbers that were not asked for yet. -/
def collectMissing (missing : Finset UInt16) (seq : UInt16) : Nat → UInt16 → List UInt16
  | 0, _ => []
  | fuel + 1, s =>
    if s = seq then
      []
    else if s ∈ missing then
      collectMissing missing seq fuel (s + 1)
    else
      s :: collectMissing missing seq fuel (s + 1)

def recordPacket (g : NackGenerator) (seq : UInt16) : NackGenerator × Option NackPacket :=
  if !g.initialized then
    ({ g with highestSeq := seq, initialized := true }, none)
  else if seq ∈ g.missingSeqs then
    -- a number that was asked for: the highest one is not looked at
    ({ g with missingSeqs := g.missingSeqs.erase seq }, none)
  else
    let diff := seq - g.highestSeq
    if diff = 0 then
      (g, none)
    else if diff < 32768 then
      let newMissing := collectMissing g.missingSeqs seq diff.toNat (g.highestSeq + 1)
      let g := { g with missingSeqs := g.missingSeqs ∪ newMissing.toFinset, highestSeq := seq }
      if newMissing.isEmpty then (g, none) else (g, some (buildNack newMissing))
    else
      (g, none)

end NackGenerator

/-! ## The bitmap -/

theorem bit_iff_testBit (x : UInt16) {i : Nat} (hi : i < 16) :
    (x >>> UInt16.ofNat i) &&& 1 = 1 ↔ x.toNat.testBit i = true := by
  have hshift : (UInt16.ofNat i).toNat % 16 = i := by
    rw [Lib.SeqNum.toNat_ofNat]
    omega
  rw [← UInt16.toNat_inj, UInt16.toNat_and, UInt16.toNat_shiftRight, hshift, Nat.testBit]
  rcases Nat.mod_two_eq_zero_or_one (x.toNat >>> i) with h | h <;> simp [h]

namespace NackItem

def offsets (blp : UInt16) : List Nat :=
  (List.range 16).filter fun i => (blp >>> UInt16.ofNat i) &&& 1 = 1

theorem lostSequenceNumbers_eq (item : NackItem) :
    item.lostSequenceNumbers = item.pid :: (offsets item.blp).map fun i => item.pid + UInt16.ofNat (i + 1) := by
  rw [lostSequenceNumbers, offsets]
  congr 1
  induction range 16 with
  | nil => rfl
  | cons i rest ih =>
    by_cases h : (item.blp >>> UInt16.ofNat i) &&& 1 = 1
    · simp only [filterMap_cons, filter_cons, h, if_true, decide_true, map_cons, ih]
    · simp only [filterMap_cons, filter_cons, h, if_false, decide_false, Bool.false_eq_true, ih]

theorem toNat_or_shift {k : Nat} (blp : UInt16) (hk : k < 16) :
    (blp ||| 1 <<< UInt16.ofNat k).toNat = blp.toNat ||| 2 ^ k := by
  have hone : ∀ k < 16, ((1 : UInt16) <<< UInt16.ofNat k).toNat = 2 ^ k := by decide +kernel
  rw [UInt16.toNat_or, hone k hk]

/-- A bit above all others makes one more offset. -/
theorem offsets_or_shift {blp : UInt16} {k : Nat} (hk : k < 16) (hblp : blp.toNat < 2 ^ k) :
    offsets (blp ||| 1 <<< UInt16.ofNat k) = offsets blp ++ [k] := by
  have hrange : ∀ k < 16, range 16 = range k ++ k :: range' (k + 1) (15 - k) := by decide
  have hbits (x : UInt16) : offsets x = (range 16).filter x.toNat.testBit :=
    filter_congr fun i hi => by simp [bit_iff_testBit x (mem_range.1 hi)]
  rw [hbits, hbits, toNat_or_shift _ hk, hrange k hk]
  have hhigh (i : Nat) (hi : k ≤ i) : blp.toNat.testBit i = false :=
    Nat.testBit_lt_two_pow (Nat.lt_of_lt_of_le hblp (Nat.pow_le_pow_right Nat.two_pos hi))
  have hlow : (range k).filter (blp.toNat ||| 2 ^ k).testBit = (range k).filter blp.toNat.testBit :=
    filter_congr fun i hi => by simp [Nat.ne_of_gt (mem_range.1 hi)]
  have hnone (x : Nat) (hx : ∀ i, k < i → x.testBit i = false) : (range' (k + 1) (15 - k)).filter x.testBit = [] :=
    filter_eq_nil_iff.2 fun i hi => by simp [hx i (mem_range'_1.1 hi).1]
  rw [filter_append, filter_append, hlow, filter_cons_of_pos (by simp), filter_cons_of_neg (by simp [hhigh]),
    hnone _ (fun i hi => by simp [hhigh i hi.le, hi.ne]), hnone _ (fun i hi => hhigh i hi.le),
    append_nil]

end NackItem

/-! ## Packing loses nothing -/

namespace NackGenerator

/-- The numbers that the inner loop takes off the front go behind those of the item. -/
theorem packBlp_spec (pid blp : UInt16) (seqs : List UInt16) (hsorted : (pid :: seqs).Pairwise (· < ·))
    (hblp : ∀ s ∈ seqs, blp.toNat < 2 ^ (s.toNat - pid.toNat - 1)) :
    ∃ taken, seqs = taken ++ (packBlp pid blp seqs).2 ∧
      (NackItem.mk pid (packBlp pid blp seqs).1).lostSequenceNumbers =
        (NackItem.mk pid blp).lostSequenceNumbers ++ taken := by
  induction seqs generalizing blp with
  | nil => exact ⟨[], rfl, (append_nil _).symm⟩
  | cons seq rest ih =>
    obtain ⟨hfirst, hseqs⟩ := pairwise_cons.1 hsorted
    have hlt : pid.toNat < seq.toNat := UInt16.lt_iff_toNat_lt.1 (hfirst seq mem_cons_self)
    have hbound := seq.toNat_lt
    obtain ⟨k, hk⟩ : ∃ k, seq.toNat = pid.toNat + (k + 1) := ⟨seq.toNat - pid.toNat - 1, by omega⟩
    have hseq : seq = pid + UInt16.ofNat (k + 1) := by
      rw [← UInt16.toNat_inj, UInt16.toNat_add, Lib.SeqNum.toNat_ofNat]
      omega
    have hoffset : seq - pid = UInt16.ofNat (k + 1) := by
      rw [hseq, UInt16.add_comm, UInt16.add_sub_cancel]
    have hbreak : seq - pid = 0 ∨ 16 < seq - pid ↔ 16 ≤ k := by
      rw [← UInt16.toNat_inj, UInt16.lt_iff_toNat_lt, hoffset, Lib.SeqNum.toNat_ofNat]
      simp
      omega
    simp only [packBlp, hbreak]
    split
    · exact ⟨[], rfl, (append_nil _).symm⟩
    · next hnear =>
      have hshift : seq - pid - 1 = UInt16.ofNat k := by
        rw [hoffset, ← Lib.SeqNum.ofNat_add_one, UInt16.add_sub_cancel]
      have hless := hblp seq mem_cons_self
      rw [hk, Nat.add_sub_cancel_left, Nat.add_sub_cancel] at hless
      rw [hshift]
      have hnext : ∀ s ∈ rest, (blp ||| 1 <<< UInt16.ofNat k).toNat < 2 ^ (s.toNat - pid.toNat - 1) := by
        intro s hs
        have hlater : seq.toNat < s.toNat := UInt16.lt_iff_toNat_lt.1 ((pairwise_cons.1 hseqs).1 s hs)
        have hpow : 2 ^ k < 2 ^ (s.toNat - pid.toNat - 1) := Nat.pow_lt_pow_right Nat.one_lt_two (by omega)
        rw [toNat_or_shift _ (by omega)]
        exact Nat.or_lt_two_pow (hless.trans hpow) hpow
      obtain ⟨taken, hcut, hlost⟩ := ih _ (hsorted.sublist (by simp)) hnext
      refine ⟨seq :: taken, by rw [cons_append, ← hcut], ?_⟩
      rw [hlost, lostSequenceNumbers_eq, offsets_or_shift (by omega) hless, map_append, lostSequenceNumbers_eq,
        map_singleton, ← hseq, cons_append, append_assoc]
      rfl

/-- The items of a strictly sorted list report exactly the list. -/
theorem lost_packItems (seqs : List UInt16) (hsorted : seqs.Pairwise (· < ·)) (fuel : Nat)
    (hfuel : seqs.length ≤ fuel) : (packItems fuel seqs).flatMap lostSequenceNumbers = seqs := by
  induction fuel generalizing seqs with
  | zero =>
    rw [length_eq_zero_iff.mp (Nat.le_zero.mp hfuel)]
    rfl
  | succ fuel ih =>
    cases seqs with
    | nil => rfl
    | cons pid rest =>
      obtain ⟨taken, hcut, hlost⟩ := packBlp_spec pid 0 rest hsorted fun _ _ => Nat.two_pow_pos _
      have hlength := congrArg List.length hcut
      rw [length_append] at hlength
      rw [length_cons] at hfuel
      have hothers := ih (packBlp pid 0 rest).2 ?_ (by omega)
      · have hunfold : packItems (fuel + 1) (pid :: rest) =
            ⟨pid, (packBlp pid 0 rest).1⟩ :: packItems fuel (packBlp pid 0 rest).2 := rfl
        have hempty : offsets 0 = [] := by decide
        rw [hunfold, flatMap_cons, hlost, hothers, append_assoc, ← hcut, lostSequenceNumbers_eq, hempty]
        rfl
      · rw [hcut, ← cons_append] at hsorted
        exact (pairwise_append.mp hsorted).2.1

theorem lost_buildNack {missing : List UInt16} (hnodup : missing.Nodup) :
    (buildNack missing).lostSequenceNumbers.Perm missing := by
  have hperm := perm_insertionSort (fun a b : UInt16 => a ≤ b) missing
  have hsorted : (missing.insertionSort (· ≤ ·)).Pairwise (· < ·) := by
    have hle := pairwise_insertionSort (fun a b : UInt16 => a ≤ b) missing
    have hne : (missing.insertionSort (· ≤ ·)).Pairwise (· ≠ ·) := hperm.nodup_iff.mpr hnodup
    exact hle.imp₂ (fun a b hab hneq => UInt16.lt_of_le_of_ne hab hneq) hne
  have hlost := lost_packItems _ hsorted missing.length hperm.length_eq.le
  exact (Perm.of_eq hlost).trans hperm

end NackGenerator

end LingVoice.LmTransport

import LingVoice.LmTransport.Nack
import Mathlib.Data.List.MinMax

/-!
# NackRun — what the generator reports over whole runs

A sender numbers its packets `0, 1, 2, …` and packet `i` travels under the sequence number `i` modulo
`2 ^ 16`.  The generator sees some of them, in some order.  As long as no packet jumps ahead by half the
range and no lost number is so old that its number comes round again, every NACK reports exactly the
packets between the old and the new highest one.
-/

namespace LingVoice.LmTransport

open List Nat NackGenerator
open Lib.SeqNum (toNat_sub_of_le toNat_sub_of_lt ofNat_inj_of_near ofNat_add_one)

/-! ## Deliveries -/

def highest (past : List Nat) : Nat :=
  past.foldr max 0

/-- An index behind the first delivered one that was passed over and not delivered since. -/
@[mk_iff]
structure Skipped (past : List Nat) (m : Nat) : Prop where
  behindFirst : ∃ first ∈ past.head?, first < m
  passed : m < highest past
  missing : m ∉ past

/-- The packet is less than half the range ahead, and no lost number comes round again. -/
structure Tame (past : List Nat) (i : Nat) : Prop where
  ahead : past ≠ [] → i < highest past + 2 ^ 15
  recent : ∀ m, Skipped past m → max (highest past) i < m + 2 ^ 16

/-- Each packet is less than half the range behind those delivered before it. -/
def Deliverable (deliveries : List Nat) : Prop :=
  deliveries.Pairwise fun j i => j < i + 2 ^ 15

instance (deliveries : List Nat) : Decidable (Deliverable deliveries) :=
  inferInstanceAs (Decidable (deliveries.Pairwise _))

def TameRun (deliveries : List Nat) : Prop :=
  ∀ past i rest, deliveries = past ++ i :: rest → Tame past i

def generatorAfter (past : List Nat) : NackGenerator :=
  (Lib.Mealy.run NackGenerator.recordPacket NackGenerator.new (past.map UInt16.ofNat)).1

def nackFor (past : List Nat) (i : Nat) : Option NackPacket :=
  ((generatorAfter past).recordPacket (UInt16.ofNat i)).2

def gap (past : List Nat) (i : Nat) : List Nat :=
  List.range' (highest past + 1) (i - highest past - 1)

/-- A packet that leaves a gap is answered with a NACK for exactly the gap, of which nothing was delivered;
any other packet is not answered. -/
def NackExact (past : List Nat) (i : Nat) (answer : Option NackPacket) : Prop :=
  if past ≠ [] ∧ highest past + 1 < i then
    (∀ j ∈ gap past i, j ∉ past) ∧
      ∃ nack, answer = some nack ∧ nack.lostSequenceNumbers.Perm ((gap past i).map UInt16.ofNat)
  else
    answer = none

section Highest

variable {past : List Nat}

theorem le_highest {j : Nat} (h : j ∈ past) : j ≤ highest past :=
  le_max_of_le' 0 h (le_refl j)

theorem highest_mem (h : past ≠ []) : highest past ∈ past :=
  maximum_mem (foldr_max_of_ne_nil h).symm

theorem highest_append (past : List Nat) (i : Nat) : highest (past ++ [i]) = max (highest past) i := by
  induction past with
  | nil => simp [highest]
  | cons k rest ih =>
    have hcons : highest (k :: rest ++ [i]) = max k (highest (rest ++ [i])) := rfl
    have hcons' : highest (k :: rest) = max k (highest rest) := rfl
    rw [hcons, hcons', ih, max_assoc]

theorem skipped_append (h : past ≠ []) (i m : Nat) :
    Skipped (past ++ [i]) m ↔
      (∃ first ∈ past.head?, first < m) ∧ m < max (highest past) i ∧ m ∉ past ∧ m ≠ i := by
  rw [skipped_iff, head?_append_of_ne_nil _ h, highest_append, mem_append, mem_singleton, not_or]

/-- What the next packet does to the skipped indices, when it is not ahead. -/
theorem skipped_append_of_le (h : past ≠ []) {i : Nat} (hi : i ≤ highest past) (m : Nat) :
    Skipped (past ++ [i]) m ↔ Skipped past m ∧ m ≠ i := by
  rw [skipped_append h, max_eq_left hi, skipped_iff, and_assoc, and_assoc]

/-- And when it is ahead: the gap is skipped too. -/
theorem skipped_append_of_lt (h : past ≠ []) {i : Nat} (hi : highest past < i) (m : Nat) :
    Skipped (past ++ [i]) m ↔ Skipped past m ∨ (highest past < m ∧ m < i) := by
  rw [skipped_append h, max_eq_right hi.le, skipped_iff]
  constructor
  · rintro ⟨hfirst, hpassed, hmissing, -⟩
    rcases lt_trichotomy m (highest past) with hm | rfl | hm
    · exact .inl ⟨hfirst, hm, hmissing⟩
    · exact absurd (highest_mem h) hmissing
    · exact .inr ⟨hm, hpassed⟩
  · rintro (⟨hfirst, hpassed, hmissing⟩ | ⟨hlow, hhigh⟩)
    · exact ⟨hfirst, hpassed.trans hi, hmissing, by omega⟩
    · obtain ⟨first, hfirst⟩ : ∃ first, past.head? = some first :=
        Option.isSome_iff_exists.mp (isSome_head?.mpr h)
      have hle : first ≤ highest past := le_highest (mem_of_head? hfirst)
      exact ⟨⟨first, hfirst, by omega⟩, hhigh, fun hmem => absurd (le_highest hmem) (by omega), by omega⟩

end Highest

/-! ## One step -/

namespace NackGenerator

/-- The loop up to `b` collects everything on its way, when nothing on it was asked for yet. -/
theorem collectMissing_eq (missing : Finset UInt16) (b fuel a : Nat) (hab : a ≤ b) (hfuel : b - a ≤ fuel)
    (hnear : b - a < 2 ^ 16) (hfree : ∀ m, a ≤ m → m < b → UInt16.ofNat m ∉ missing) :
    collectMissing missing (UInt16.ofNat b) fuel (UInt16.ofNat a) = (range' a (b - a)).map UInt16.ofNat := by
  induction fuel generalizing a with
  | zero =>
    have hend : b - a = 0 := by omega
    rw [hend]
    rfl
  | succ fuel ih =>
    by_cases heq : a = b
    · subst heq
      simp [collectMissing]
    · have hne : UInt16.ofNat a ≠ UInt16.ofNat b := by
        rw [Ne, ofNat_inj_of_near (by omega) (by omega)]
        exact heq
      have hcount : b - a = b - (a + 1) + 1 := by omega
      rw [collectMissing, if_neg hne, if_neg (hfree a (le_refl a) (by omega)), ofNat_add_one,
        ih (a + 1) (by omega) (by omega) (by omega) (fun m hm => hfree m (by omega)), hcount,
        range'_succ, map_cons]

/-- The generator knows the highest packet and exactly the skipped numbers. -/
structure Follows (past : List Nat) (g : NackGenerator) : Prop where
  initialized : g.initialized = true
  highestSeq : g.highestSeq = UInt16.ofNat (highest past)
  missingSeqs : ∀ seq, seq ∈ g.missingSeqs ↔ ∃ m, Skipped past m ∧ UInt16.ofNat m = seq

section Step

variable {past : List Nat} {g : NackGenerator} {i : Nat}

/-- A missing number that arrives is that of the packet which was skipped. -/
theorem skipped_of_mem (hg : Follows past g) (hbehind : ∀ j ∈ past, j < i + 2 ^ 15) (htame : Tame past i)
    (hpast : past ≠ []) (hmem : UInt16.ofNat i ∈ g.missingSeqs) : Skipped past i := by
  obtain ⟨m, hm, heq⟩ := (hg.missingSeqs _).mp hmem
  have hrecent := htame.recent m hm
  have hhighest := hbehind _ (highest_mem hpast)
  have hpassed := hm.passed
  rwa [(ofNat_inj_of_near (by omega) (by omega)).mp heq] at hm

theorem follows_erase (hg : Follows past g) (hbehind : ∀ j ∈ past, j < i + 2 ^ 15) (htame : Tame past i)
    (hpast : past ≠ []) (hskipped : Skipped past i) :
    Follows (past ++ [i]) { g with missingSeqs := g.missingSeqs.erase (UInt16.ofNat i) } := by
  have hpassed := hskipped.passed
  refine ⟨hg.initialized, ?_, ?_⟩
  · rw [highest_append, max_eq_left (by omega)]
    exact hg.highestSeq
  · intro seq
    simp only [Finset.mem_erase, hg.missingSeqs]
    constructor
    · rintro ⟨hne, m, hm, rfl⟩
      refine ⟨m, (skipped_append_of_le hpast (by omega) m).mpr ⟨hm, ?_⟩, rfl⟩
      rintro rfl
      exact hne rfl
    · rintro ⟨m, hm, rfl⟩
      obtain ⟨hm, hne⟩ := (skipped_append_of_le hpast (by omega) m).mp hm
      refine ⟨?_, m, hm, rfl⟩
      have hrecent := htame.recent m hm
      have hhighest := hbehind _ (highest_mem hpast)
      have hm' := hm.passed
      rw [Ne, ofNat_inj_of_near (by omega) (by omega)]
      exact hne

/-- A packet that is neither ahead nor missing changes nothing. -/
theorem follows_same (hg : Follows past g) (hpast : past ≠ []) (hle : i ≤ highest past)
    (hskipped : ¬ Skipped past i) : Follows (past ++ [i]) g := by
  refine ⟨hg.initialized, ?_, ?_⟩
  · rw [highest_append, max_eq_left hle]
    exact hg.highestSeq
  · intro seq
    rw [hg.missingSeqs]
    refine exists_congr fun m => and_congr ?_ Iff.rfl
    rw [skipped_append_of_le hpast hle]
    refine ⟨fun hm => ⟨hm, ?_⟩, fun hm => hm.1⟩
    rintro rfl
    exact hskipped hm

/-- A packet ahead: the gap is asked for. -/
theorem follows_ahead (hg : Follows past g) (hpast : past ≠ []) (hlt : highest past < i) :
    Follows (past ++ [i])
      { g with
        missingSeqs := g.missingSeqs ∪ ((gap past i).map UInt16.ofNat).toFinset
        highestSeq := UInt16.ofNat i } := by
  refine ⟨hg.initialized, ?_, ?_⟩
  · rw [highest_append, max_eq_right (by omega)]
  · intro seq
    simp only [Finset.mem_union, hg.missingSeqs, mem_toFinset, mem_map, skipped_append_of_lt hpast hlt,
      or_and_right, exists_or]
    refine or_congr Iff.rfl (exists_congr fun m => and_congr ?_ Iff.rfl)
    rw [gap, mem_range'_1]
    omega

theorem nodup_gap (past : List Nat) (i : Nat) (h : i < highest past + 2 ^ 15) :
    ((gap past i).map UInt16.ofNat).Nodup := by
  refine Nodup.map_on ?_ nodup_range'
  intro a ha b hb heq
  rw [gap, mem_range'_1] at ha hb
  exact (ofNat_inj_of_near (by omega) (by omega)).mp heq

/-- Nothing in the gap was asked for yet: a skipped number is not so old that it comes round. -/
theorem collectMissing_gap (hg : Follows past g) (htame : Tame past i) (hpast : past ≠ []) (hlt : highest past < i) :
    collectMissing g.missingSeqs (UInt16.ofNat i) (i - highest past)
      (UInt16.ofNat (highest past) + 1) = (gap past i).map UInt16.ofNat := by
  have hahead := htame.ahead hpast
  rw [ofNat_add_one, collectMissing_eq _ _ _ _ (by omega) (by omega) (by omega) ?_, gap, Nat.sub_sub]
  intro m hlow hhigh hmem
  obtain ⟨k, hk, heq⟩ := (hg.missingSeqs _).mp hmem
  have hrecent := htame.recent k hk
  have hpassed := hk.passed
  have := (ofNat_inj_of_near (by omega) (by omega)).mp heq
  omega

theorem nackExact_ahead (hpast : past ≠ []) (hlt : highest past < i) (hahead : i < highest past + 2 ^ 15) :
    NackExact past i (if ((gap past i).map UInt16.ofNat).isEmpty then none
      else some (buildNack ((gap past i).map UInt16.ofNat))) := by
  have hlength : ((gap past i).map UInt16.ofNat).length = i - highest past - 1 := by simp [gap]
  by_cases hgap : highest past + 1 < i
  · have hne : ¬ ((gap past i).map UInt16.ofNat).isEmpty = true := by
      rw [List.isEmpty_iff, ← length_eq_zero_iff]
      omega
    rw [NackExact, if_pos ⟨hpast, hgap⟩, if_neg hne]
    refine ⟨?_, _, rfl, lost_buildNack (nodup_gap past i hahead)⟩
    intro j hj hmem
    have hle := le_highest hmem
    rw [gap, mem_range'_1] at hj
    omega
  · have hempty : ((gap past i).map UInt16.ofNat).isEmpty = true := by
      rw [List.isEmpty_iff, ← length_eq_zero_iff]
      omega
    rw [NackExact, if_neg (by omega), if_pos hempty]

theorem recordPacket_step (hg : Follows past g) (hpast : past ≠ [])
    (hbehind : ∀ j ∈ past, j < i + 2 ^ 15) (htame : Tame past i) :
    Follows (past ++ [i]) (g.recordPacket (UInt16.ofNat i)).1 ∧
      NackExact past i (g.recordPacket (UInt16.ofNat i)).2 := by
  have hhighest := hbehind _ (highest_mem hpast)
  have hahead := htame.ahead hpast
  have hinit : (!g.initialized) = false := by rw [hg.initialized]; rfl
  rw [recordPacket, hinit, if_neg (by simp)]
  by_cases hmem : UInt16.ofNat i ∈ g.missingSeqs
  · have hskipped := skipped_of_mem hg hbehind htame hpast hmem
    have hpassed := hskipped.passed
    rw [if_pos hmem]
    refine ⟨follows_erase hg hbehind htame hpast hskipped, ?_⟩
    rw [NackExact, if_neg (by omega)]
  · have hskipped : ¬ Skipped past i := fun h => hmem ((hg.missingSeqs _).mpr ⟨i, h, rfl⟩)
    have hthreshold : (32768 : UInt16).toNat = 32768 := rfl
    rw [if_neg hmem, hg.highestSeq]
    rcases lt_trichotomy i (highest past) with hlt | heq | hgt
    · -- behind: the wrapped difference is more than half the range
      have hdiff := toNat_sub_of_lt hlt (by omega)
      have hzero : UInt16.ofNat i - UInt16.ofNat (highest past) ≠ 0 := by
        rw [Ne, ← UInt16.toNat_inj, hdiff, UInt16.toNat_zero]
        omega
      have hhalf : ¬ UInt16.ofNat i - UInt16.ofNat (highest past) < 32768 := by
        rw [UInt16.lt_iff_toNat_lt, hdiff]
        omega
      simp only [if_neg hzero, if_neg hhalf]
      refine ⟨follows_same hg hpast (by omega) hskipped, ?_⟩
      rw [NackExact, if_neg (by omega)]
    · subst heq
      simp only [UInt16.sub_self, if_true]
      refine ⟨follows_same hg hpast (le_refl _) hskipped, ?_⟩
      rw [NackExact, if_neg (by omega)]
    · have hdiff := toNat_sub_of_le (le_of_lt hgt) (by omega)
      have hzero : UInt16.ofNat i - UInt16.ofNat (highest past) ≠ 0 := by
        rw [Ne, ← UInt16.toNat_inj, hdiff, UInt16.toNat_zero]
        omega
      have hhalf : UInt16.ofNat i - UInt16.ofNat (highest past) < 32768 := by
        rw [UInt16.lt_iff_toNat_lt, hdiff]
        omega
      have hexact := nackExact_ahead hpast hgt hahead
      have hfollows := follows_ahead hg hpast hgt
      simp only [if_neg hzero, if_pos hhalf, hdiff, collectMissing_gap hg htame hpast hgt]
      split at hexact
      next hempty =>
        rw [if_pos hempty]
        exact ⟨hfollows, hexact⟩
      next hempty =>
        rw [if_neg hempty]
        exact ⟨hfollows, hexact⟩

end Step

end NackGenerator

/-! ## Whole runs -/

theorem Deliverable.behind {deliveries past rest : List Nat} {i : Nat} (h : Deliverable deliveries)
    (hcut : deliveries = past ++ i :: rest) : ∀ j ∈ past, j < i + 2 ^ 15 := by
  intro j hj
  rw [Deliverable, hcut, pairwise_append] at h
  exact h.2.2 j hj i mem_cons_self

theorem follows_first (i : Nat) : Follows [i] (generatorAfter [i]) := by
  have hhighest : highest [i] = i := max_zero i
  refine ⟨rfl, ?_, ?_⟩
  · rw [hhighest]
    rfl
  · intro seq
    constructor
    · intro hmem
      exact absurd hmem (Finset.notMem_empty seq)
    · rintro ⟨m, ⟨⟨first, hfirst, hlt⟩, hpassed, -⟩, -⟩
      have : first = i := (Option.some.inj hfirst).symm
      omega

/-- The run lemma: after every delivery the generator follows the packets delivered. -/
theorem follows_generatorAfter (deliveries : List Nat) (hdeliverable : Deliverable deliveries)
    (htame : TameRun deliveries) (past rest : List Nat) (hcut : deliveries = past ++ rest)
    (hpast : past ≠ []) : Follows past (generatorAfter past) := by
  induction past using reverseRecOn generalizing rest with
  | nil => exact absurd rfl hpast
  | append_singleton past i ih =>
    rw [append_assoc, singleton_append] at hcut
    by_cases hnil : past = []
    · subst hnil
      exact follows_first i
    · rw [generatorAfter, map_append, Lib.Mealy.run_append]
      exact (recordPacket_step (ih _ hcut hnil) hnil (hdeliverable.behind hcut)
        (htame past i rest hcut)).1

/-- In a tame run every packet is answered exactly: a NACK for the gap it leaves, or nothing. -/
theorem nackExact_of_tameRun (deliveries : List Nat) (hdeliverable : Deliverable deliveries)
    (htame : TameRun deliveries) (past : List Nat) (i : Nat) (rest : List Nat)
    (hcut : deliveries = past ++ i :: rest) : NackExact past i (nackFor past i) := by
  by_cases hnil : past = []
  · subst hnil
    rfl
  · have hfollows := follows_generatorAfter deliveries hdeliverable htame past _ hcut hnil
    exact (recordPacket_step hfollows hnil (hdeliverable.behind hcut) (htame past i rest hcut)).2

/-- Runs within the first half of the range are tame. -/
theorem tameRun_of_lt {deliveries : List Nat} (h : ∀ i ∈ deliveries, i < 2 ^ 15) : TameRun deliveries := by
  intro past i rest hcut
  have hi : i < 2 ^ 15 := h i (by simp [hcut])
  refine ⟨fun _ => by omega, ?_⟩
  intro m hm
  have hpast : past ≠ [] := by
    rintro rfl
    obtain ⟨first, hfirst, -⟩ := hm.behindFirst
    cases hfirst
  have hhighest : highest past < 2 ^ 15 := h _ (by rw [hcut]; exact mem_append_left _ (highest_mem hpast))
  omega

/-- Packets 0 and 3, then 1 late, then 5: only packet 4 is asked for then. -/
theorem nackExact_reordered :
    (Deliverable [0, 3, 1, 5] ∧ TameRun [0, 3, 1, 5]) ∧ NackExact [0, 3, 1] 5 (nackFor [0, 3, 1] 5) := by
  have hdeliverable : Deliverable [0, 3, 1, 5] := by decide
  have htame : TameRun [0, 3, 1, 5] := tameRun_of_lt (by decide)
  exact ⟨⟨hdeliverable, htame⟩, nackExact_of_tameRun [0, 3, 1, 5] hdeliverable htame [0, 3, 1] 5 [] rfl⟩

/-- A packet half the range ahead is taken for a late one and the highest number stays behind; the next NACK
then asks for 2 packets where 25538 are between. -/
theorem nack_after_jump :
    Deliverable [0, 40000, 65539] ∧
      nackFor [0, 40000] 65539 = some ⟨0, 0, [⟨1, 1⟩]⟩ ∧
      ¬ (NackPacket.mk 0 0 [⟨1, 1⟩]).lostSequenceNumbers.Perm
        ((gap [0, 40000] 65539).map UInt16.ofNat) := by
  refine ⟨by decide, by decide +kernel, ?_⟩
  intro hperm
  have hlength := hperm.length_eq
  have hlost : (NackPacket.mk 0 0 [⟨1, 1⟩]).lostSequenceNumbers.length = 2 := by decide +kernel
  rw [hlost, length_map, gap, length_range'] at hlength
  revert hlength
  decide

end LingVoice.LmTransport

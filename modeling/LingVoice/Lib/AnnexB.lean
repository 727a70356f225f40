import LingVoice.Lib.Bytes
import Mathlib.Data.List.Infix

/-!
# AnnexB — byte strings between start codes

A unit of an Annex B stream stands behind a start code `00 00 01` or `00 00 00 01`.  It holds no start
code and does not end in `0`, so no start code begins inside it, whatever follows.
-/

namespace LingVoice.Lib.AnnexB

open List

structure NalUnit where
  bytes : Bytes
  ne_nil : bytes ≠ []
  codeFree : ¬ [0, 0, 1] <:+: bytes
  last_ne_zero : bytes.getLast? ≠ some 0

def startCode (long : Bool) : Bytes :=
  if long then [0, 0, 0, 1] else [0, 0, 1]

def assemble (units : List (Bool × NalUnit)) : Bytes :=
  units.flatMap fun u => startCode u.1 ++ u.2.bytes

/-- No start code begins inside a unit, whatever follows it. -/
theorem NalUnit.no_code (unit : NalUnit) {u : Bytes} (hne : u ≠ []) (hsuffix : u <:+ unit.bytes)
    (rest : Bytes) : ¬ [0, 0, 1] <+: u ++ rest ∧ ¬ [0, 0, 0, 1] <+: u ++ rest := by
  have hlast : u.getLast? ≠ some 0 := by
    rcases hsuffix with ⟨front, hfront⟩
    have hunit := unit.last_ne_zero
    rwa [← hfront, getLast?_append_of_ne_nil _ hne] at hunit
  have hnone {code : Bytes} (hcode : [0, 0, 1] <:+: code)
      (hinits : ∀ l ∈ code.inits, l = [] ∨ l.getLast? = some 0 ∨ l = code) : ¬ code <+: u ++ rest := by
    intro h
    have hfree : ¬ code <:+: u := fun hin => unit.codeFree (hcode.trans (hin.trans hsuffix.isInfix))
    -- the code ends inside of the unit, or the unit is the beginning of the code
    rcases prefix_or_prefix_of_prefix h (prefix_append u rest) with hin | hin
    · exact hfree hin.isInfix
    · rcases hinits u ((mem_inits u code).2 hin) with hnil | hzero | rfl
      · exact hne hnil
      · exact hlast hzero
      · exact hfree (infix_refl u)
  exact ⟨hnone (by decide) (by decide), hnone (by decide) (by decide)⟩

theorem assemble_cons (long : Bool) (unit : NalUnit) (units : List (Bool × NalUnit)) :
    assemble ((long, unit) :: units) = startCode long ++ (unit.bytes ++ assemble units) :=
  append_assoc _ _ _

/-- A loop that takes a unit off in each turn takes them all off, with a turn for every byte. -/
theorem loop_assemble {loop : Nat → Bytes → List Bytes} (hnil : ∀ fuel, loop fuel [] = [])
    (hunit : ∀ long unit units fuel,
      loop (fuel + 1) (assemble ((long, unit) :: units)) = unit.bytes :: loop fuel (assemble units))
    (units : List (Bool × NalUnit)) {fuel : Nat} (hfuel : (assemble units).length ≤ fuel) :
    loop fuel (assemble units) = units.map fun u => u.2.bytes := by
  induction units generalizing fuel with
  | nil => exact hnil fuel
  | cons u units ih =>
    have hpos := length_pos_of_ne_nil u.2.ne_nil
    rw [assemble_cons, length_append, length_append] at hfuel
    cases fuel with
    | zero => omega
    | succ fuel => rw [hunit, ih (by omega), map_cons]

theorem startCode_ne_nil (long : Bool) : startCode long ≠ [] := by
  cases long with
  | true | false => exact cons_ne_nil _ _

/-! ## Start codes between other bytes -/

def CodeFree (bytes : Bytes) : Prop :=
  ¬ [0, 0, 1] <:+: bytes

instance (bytes : Bytes) : Decidable (CodeFree bytes) :=
  inferInstanceAs (Decidable (¬ _))

/-- The beginning of something that begins with a start code. -/
def Opens (rest : Bytes) : Prop :=
  rest = [] ∨ rest = [0] ∨ ∃ tail, rest = 0 :: 0 :: tail

variable {bytes rest front : Bytes} {a : UInt8}

theorem CodeFree.of_part {part : Bytes} (h : CodeFree bytes) (hpart : part <:+: bytes) : CodeFree part :=
  fun hcode => h (hcode.trans hpart)

/-- No start code begins in code-free bytes, also with another one right behind them. -/
theorem CodeFree.not_begins (h : CodeFree bytes) (hne : bytes ≠ [])
    (hrest : Opens rest) : ¬ [0, 0, 1] <+: bytes ++ rest := by
  intro hcode
  match bytes with
  | [] => exact hne rfl
  | [a] | [a, b] =>
    rcases hrest with rfl | rfl | ⟨tail, rfl⟩
    · simp at hcode
    · simp at hcode
    · simp at hcode
  | a :: b :: c :: tail =>
    simp only [cons_append, cons_prefix_cons] at hcode
    obtain ⟨rfl, rfl, rfl, -⟩ := hcode
    exact h (prefix_append [0, 0, 1] tail).isInfix

theorem codeFree_cons : CodeFree (a :: bytes) ↔ ¬ [0, 0, 1] <+: a :: bytes ∧ CodeFree bytes := by
  rw [CodeFree, infix_cons_iff, not_or]
  rfl

/-- A byte that is in no start code keeps what is before it and what is behind it apart. -/
theorem CodeFree.append_cons {b : UInt8} (hb : 1 < b) (hfront : CodeFree front)
    (hrest : CodeFree rest) : CodeFree (front ++ b :: rest) := by
  have hb0 : b ≠ 0 := by
    rintro rfl
    exact absurd hb (by decide)
  have hb1 : b ≠ 1 := by
    rintro rfl
    exact absurd hb (by decide)
  induction front with
  | nil =>
    refine codeFree_cons.2 ⟨?_, hrest⟩
    intro hcode
    exact hb0 (cons_prefix_cons.1 hcode).1.symm
  | cons a front ih =>
    rcases codeFree_cons.1 hfront with ⟨hfirst, htail⟩
    refine codeFree_cons.2 ⟨?_, ih htail⟩
    match front with
    | [] => simp [Ne.symm hb0]
    | [c] => simp [Ne.symm hb1]
    | c :: d :: front =>
      intro hcode
      have hlong : [0, 0, 1] <+: a :: c :: d :: (front ++ b :: rest) := hcode
      simp only [cons_prefix_cons] at hlong hfirst
      exact hfirst ⟨hlong.1, hlong.2.1, hlong.2.2.1, List.nil_prefix⟩

theorem codeFree_of_forall (h : ∀ b ∈ bytes, 1 < b) : CodeFree bytes := by
  intro hcode
  have hzero := h 0 (hcode.subset mem_cons_self)
  exact absurd hzero (by decide)

theorem CodeFree.append (hfront : CodeFree front) (hrest : ∀ b ∈ rest, 1 < b) : CodeFree (front ++ rest) := by
  cases rest with
  | nil =>
    rw [append_nil]
    exact hfront
  | cons b rest =>
    rw [forall_mem_cons] at hrest
    exact hfront.append_cons hrest.1 (codeFree_of_forall hrest.2)

theorem Opens.take (h : Opens rest) (n : Nat) : Opens (rest.take n) := by
  match n with
  | 0 => exact .inl take_zero
  | 1 =>
    rcases h with rfl | rfl | ⟨tail, rfl⟩
    · exact .inl rfl
    · exact .inr (.inl rfl)
    · exact .inr (.inl rfl)
  | n + 2 =>
    rcases h with rfl | rfl | ⟨tail, rfl⟩
    · exact .inl rfl
    · exact .inr (.inl rfl)
    · exact .inr (.inr ⟨tail.take n, rfl⟩)

end LingVoice.Lib.AnnexB

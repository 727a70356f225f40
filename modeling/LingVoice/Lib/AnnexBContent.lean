import LingVoice.Lib.AnnexB
import Mathlib.Algebra.Order.Ring.Nat

/-!
# AnnexBContent — what is left of a stream that is cut at the wrong places

A start code ends in a `1` behind two zeros.  `content` counts the other bytes that are not `0`, so in a stream of
units it counts bytes of the units.  A stream may be cut anywhere, some pieces lost, and the others put together
with a start code in front of each.  At such a border a start code of the stream can fall apart, and its `1` is then
content of the piece behind; but the lost pieces hold more than that (`kept_lt_content`).
-/

namespace LingVoice.Lib.AnnexB

open List Nat Prod

/-- Bytes that are not `0` and do not end a start code; `before` are the two bytes in front. -/
def content (before : UInt8 × UInt8) : Bytes → Nat
  | [] => 0
  | x :: rest => (if x = 0 ∨ (x = 1 ∧ before = (0, 0)) then 0 else 1) + content (before.2, x) rest

def lastTwo (before : UInt8 × UInt8) (bytes : Bytes) : UInt8 × UInt8 :=
  bytes.foldl (fun two x => (two.2, x)) before

theorem content_append (before : UInt8 × UInt8) (xs ys : Bytes) :
    content before (xs ++ ys) = content before xs + content (lastTwo before xs) ys := by
  induction xs generalizing before with
  | nil =>
    rw [nil_append, content, Nat.zero_add]
    rfl
  | cons x xs ih =>
    rw [cons_append, content, content, ih, Nat.add_assoc]
    rfl

theorem lastTwo_append (before : UInt8 × UInt8) (xs ys : Bytes) :
    lastTwo before (xs ++ ys) = lastTwo (lastTwo before xs) ys :=
  foldl_append

/-- A start code is no content, and it hides what was before it. -/
theorem content_startCode (before : UInt8 × UInt8) (long : Bool) (rest : Bytes) :
    content before (startCode long ++ rest) = content (0, 1) rest := by
  cases long with
  | true | false => simp [startCode, content]

theorem content_le_countP (before : UInt8 × UInt8) (bytes : Bytes) :
    content before bytes ≤ bytes.countP (· ≠ 0) := by
  induction bytes generalizing before with
  | nil => exact le_refl 0
  | cons x rest ih =>
    have hrest := ih (before.2, x)
    rw [content, countP_cons]
    by_cases hx : x = 0
    · rw [if_pos (.inl hx)]
      omega
    · rw [if_pos (decide_eq_true hx)]
      split
      · omega
      · omega

variable {x b : UInt8} {part : Bytes} {units : List (Bool × NalUnit)} {pieces : List (Bool × Bytes)}

/-- Behind a byte that is not `0`, nothing before that byte matters. -/
theorem content_of_ne_zero (hx : x ≠ 0) (a b : UInt8) (rest : Bytes) :
    content (a, x) rest = content (b, x) rest := by
  cases rest with
  | nil => rfl
  | cons y rest =>
    have hcode : ∀ c : UInt8, (c, x) ≠ (0, 0) := by
      intro c h
      exact hx (congrArg snd h)
    rw [content, content]
    simp only [hcode a, hcode b]

/-- With a start code in front, the first byte of a piece is content; in the stream it may have ended a code. -/
theorem content_behind_code (hx : x ≠ 0) (before : UInt8 × UInt8) (rest : Bytes) :
    content (0, 1) (x :: rest) ≤ content before (x :: rest) + if before = (0, 0) ∧ x = 1 then 1 else 0 := by
  rw [content, content, content_of_ne_zero hx 1 before.2]
  have hfirst : ¬ (x = 0 ∨ (x = 1 ∧ ((0 : UInt8), (1 : UInt8)) = (0, 0))) := by
    rintro (h | ⟨_, h⟩)
    · exact hx h
    · exact absurd h (by decide)
  rw [if_neg hfirst]
  by_cases hcode : before = (0, 0) ∧ x = 1
  · rw [if_pos hcode]
    omega
  · have hcounted : ¬ (x = 0 ∨ (x = 1 ∧ before = (0, 0))) := by
      rintro (h | ⟨h, h'⟩)
      · exact hx h
      · exact hcode ⟨h', h⟩
    rw [if_neg hcode, if_neg hcounted]
    exact le_refl _

/-! ## Streams of units -/

/-- No more than three zeros stand before the `1` of a start code, and no `0` stands behind it. -/
@[mk_iff] structure Tidy (bytes : Bytes) : Prop where
  noLongRun : ¬ [0, 0, 0, 0, 1] <:+: bytes
  noZeroBehind : ¬ [0, 0, 1, 0] <:+: bytes

variable {bytes rest : Bytes} {before : UInt8 × UInt8}

theorem Tidy.of_part (h : Tidy bytes) (hpart : part <:+: bytes) : Tidy part where
  noLongRun := fun hrun => h.noLongRun (hrun.trans hpart)
  noZeroBehind := fun hzero => h.noZeroBehind (hzero.trans hpart)

theorem tidy_cons :
    Tidy (x :: bytes) ↔ (¬ [0, 0, 0, 0, 1] <+: x :: bytes ∧ ¬ [0, 0, 1, 0] <+: x :: bytes) ∧ Tidy bytes := by
  rw [tidy_iff, tidy_iff, infix_cons_iff, infix_cons_iff, not_or, not_or, and_and_and_comm]

theorem tidy_unit (unit : NalUnit) (hpart : part <:+ unit.bytes) (hrest : Tidy rest) : Tidy (part ++ rest) := by
  induction part with
  | nil => exact hrest
  | cons x part ih =>
    have htail : part <:+ unit.bytes := (suffix_cons x part).trans hpart
    refine tidy_cons.2 ⟨⟨?_, ?_⟩, ih htail⟩
    · -- a run that is too long would hold a start code one byte later
      intro hrun
      rw [cons_prefix_cons] at hrun
      by_cases hnil : part = []
      · subst hnil
        rcases hpart with ⟨front, hfront⟩
        apply unit.last_ne_zero
        rw [← hfront, ← hrun.1, getLast?_concat]
      · exact (unit.no_code hnil htail rest).2 hrun.2
    · intro hzero
      apply (unit.no_code (cons_ne_nil x part) hpart rest).1
      exact (prefix_append [0, 0, 1] [0]).trans hzero

theorem tidy_startCode (long : Bool) (hb : b ≠ 0) (h : Tidy (b :: rest)) : Tidy (startCode long ++ b :: rest) := by
  cases long with
  | true | false => simp [startCode, tidy_cons (x := 0), tidy_cons (x := 1), h, Ne.symm hb]

theorem tidy_assemble (hheads : ∀ u ∈ units, u.2.bytes.head? ≠ some 0) : Tidy (assemble units) := by
  induction units with
  | nil =>
    constructor
    · decide
    · decide
  | cons u units ih =>
    obtain ⟨hhead, hrest⟩ := forall_mem_cons.1 hheads
    have hunit : Tidy (u.2.bytes ++ assemble units) := tidy_unit u.2 (suffix_refl _) (ih hrest)
    obtain ⟨b, bytes, hbytes⟩ := exists_cons_of_ne_nil u.2.ne_nil
    rw [hbytes] at hhead hunit
    rw [assemble_cons, hbytes]
    exact tidy_startCode u.1 (fun h => hhead (congrArg some h)) hunit

theorem content_assemble_le (before : UInt8 × UInt8) (units : List (Bool × NalUnit)) :
    content before (assemble units) ≤ (units.flatMap fun u => u.2.bytes).countP (· ≠ 0) := by
  induction units generalizing before with
  | nil => exact le_refl 0
  | cons u units ih =>
    rw [assemble_cons, content_startCode, content_append, flatMap_cons, countP_append]
    exact Nat.add_le_add (content_le_countP (0, 1) u.2.bytes) (ih _)

theorem lastTwo_suffix (before : UInt8 × UInt8) (bytes rest : Bytes) :
    (lastTwo before bytes).2 :: rest <:+ before.2 :: bytes ++ rest := by
  induction bytes generalizing before with
  | nil => exact suffix_refl _
  | cons x bytes ih => exact (ih (before.2, x)).trans (suffix_cons _ _)

/-- The case of five bytes: the content is at the third or the second of them. -/
theorem one_le_content_five {p q a c : UInt8} (htidy : Tidy [q, a, b, c, 0, 0, 1]) :
    1 ≤ content (p, q) [a, b, c, 0, 0] := by
  have hrun : ¬ (b = 0 ∧ c = 0) := by
    rintro ⟨rfl, rfl⟩
    exact htidy.noLongRun ⟨[q, a], [], rfl⟩
  have hthird : ¬ (c = 1 ∧ (a, b) = (0, 0)) := by
    rintro ⟨rfl, hab⟩
    cases hab
    exact htidy.noZeroBehind ⟨[q], [0, 1], rfl⟩
  have hsecond : c = 0 → ¬ (b = 1 ∧ (q, a) = (0, 0)) := by
    rintro rfl ⟨rfl, hqa⟩
    cases hqa
    exact htidy.noZeroBehind ⟨[], [0, 0, 1], rfl⟩
  simp only [content]
  by_cases hc : c = 0
  · have hb : b ≠ 0 := fun hb => hrun ⟨hb, hc⟩
    have hcounted : ¬ (b = 0 ∨ (b = 1 ∧ (q, a) = (0, 0))) := not_or.2 ⟨hb, hsecond hc⟩
    rw [if_neg hcounted]
    omega
  · have hcounted : ¬ (c = 0 ∨ (c = 1 ∧ (a, b) = (0, 0))) := not_or.2 ⟨hc, hthird⟩
    rw [if_neg hcounted]
    omega

/-- Two zeros and then the `1` of a start code: in the bytes before there is content. -/
theorem one_le_content (hlength : 5 ≤ bytes.length)
    (htidy : Tidy (before.2 :: bytes ++ [1])) (hzeros : lastTwo before bytes = (0, 0)) : 1 ≤ content before bytes := by
  obtain ⟨front, five, rfl, hfive⟩ : ∃ front five, bytes = front ++ five ∧ five.length = 5 := by
    refine ⟨bytes.take (bytes.length - 5), bytes.drop (bytes.length - 5), (take_append_drop _ _).symm, ?_⟩
    rw [length_drop]
    omega
  match five, hfive with
  | [a, b, c, d, e], _ =>
    rw [lastTwo_append] at hzeros
    obtain ⟨rfl, rfl⟩ : d = 0 ∧ e = 0 := mk.inj hzeros
    have hend : Tidy ((lastTwo before front).2 :: ([a, b, c, 0, 0] ++ [1])) := by
      apply htidy.of_part
      have hsuffix := lastTwo_suffix before front ([a, b, c, 0, 0] ++ [1])
      rw [← append_assoc] at hsuffix
      exact hsuffix.isInfix
    calc
      1 ≤ content (lastTwo before front) [a, b, c, 0, 0] := one_le_content_five hend
      _ ≤ content before front + content (lastTwo before front) [a, b, c, 0, 0] := le_add_left _ _
      _ = content before (front ++ [a, b, c, 0, 0]) := (content_append _ _ _).symm

/-! ## Pieces of a stream -/

def keptContent (pieces : List (Bool × Bytes)) : Nat :=
  (pieces.map fun piece => if piece.1 then content (0, 1) piece.2 else 0).sum

/-- Pieces of a stream: none is short but the last one, and the borders of a piece that is kept are no zeros. -/
def Pieces : List (Bool × Bytes) → Prop
  | [] => True
  | piece :: rest =>
    (rest ≠ [] → 5 ≤ piece.2.length) ∧
      (piece.1 = true → piece.2 ≠ [] ∧ piece.2.head? ≠ some 0 ∧ piece.2.getLast? ≠ some 0) ∧ Pieces rest

theorem keptContent_cons (piece : Bool × Bytes) (rest : List (Bool × Bytes)) :
    keptContent (piece :: rest) = (if piece.1 then content (0, 1) piece.2 else 0) + keptContent rest :=
  rfl

/-- What a start code that was cut off at its `1` adds to the piece behind it. -/
def borrowed (before : UInt8 × UInt8) (bytes : Bytes) : Nat :=
  if before = (0, 0) ∧ bytes.head? = some 1 then 1 else 0

/-- A piece behind another one borrows no more than the other one holds. -/
theorem borrowed_le_content (hlength : rest ≠ [] → 5 ≤ bytes.length)
    (htidy : Tidy (before.2 :: bytes ++ rest)) : borrowed (lastTwo before bytes) rest ≤ content before bytes := by
  rw [borrowed]
  split
  · rename_i hborrowed
    obtain ⟨rest, rfl⟩ : ∃ tail, rest = 1 :: tail := by
      cases rest with
      | nil => exact absurd hborrowed.2 (by decide)
      | cons x tail => exact ⟨tail, by rw [Option.some.inj hborrowed.2]⟩
    refine one_le_content (hlength (cons_ne_nil 1 rest)) (htidy.of_part ?_) hborrowed.1
    exact ⟨[], rest, by simp⟩
  · exact zero_le _

theorem keptContent_le (hpieces : Pieces pieces) (htidy : Tidy (before.2 :: pieces.flatMap snd)) :
    keptContent pieces ≤ content before (pieces.flatMap snd) + borrowed before (pieces.flatMap snd) := by
  induction pieces generalizing before with
  | nil => exact zero_le _
  | cons piece rest ih =>
    obtain ⟨kept, bytes⟩ := piece
    obtain ⟨hlength, hborders, hrest⟩ := hpieces
    dsimp only at hlength hborders
    rw [flatMap_cons] at htidy ⊢
    rw [keptContent_cons, content_append]
    have hbehind : Tidy ((lastTwo before bytes).2 :: rest.flatMap snd) :=
      htidy.of_part (lastTwo_suffix before bytes _).isInfix
    have hnext := ih hrest hbehind
    dsimp only
    cases kept with
    | true =>
      obtain ⟨hne, hhead, hlast⟩ := hborders rfl
      have hfirst : content (0, 1) bytes ≤
          content before bytes + borrowed before (bytes ++ rest.flatMap snd) := by
        obtain ⟨x, tail, rfl⟩ := exists_cons_of_ne_nil hne
        have hx : x ≠ 0 := fun h => hhead (congrArg some h)
        simpa [borrowed] using content_behind_code hx before tail
      -- the last byte is not `0`, so the next piece borrows nothing from this one
      have hnone : borrowed (lastTwo before bytes) (rest.flatMap snd) = 0 := by
        apply if_neg
        rintro ⟨hzeros, _⟩
        rw [← dropLast_append_getLast hne, lastTwo_append] at hzeros
        rw [getLast?_eq_some_getLast hne] at hlast
        exact hlast (congrArg some (mk.inj hzeros).2)
      rw [if_pos rfl]
      omega
    | false =>
      -- what the next piece borrows is in this one, which is lost
      have hborrowed : borrowed (lastTwo before bytes) (rest.flatMap snd) ≤ content before bytes := by
        apply borrowed_le_content _ htidy
        intro hne
        apply hlength
        rintro rfl
        exact hne rfl
      rw [if_neg Bool.false_ne_true]
      omega

theorem one_le_content_front (before : UInt8 × UInt8) {long : Bool} {five : Bytes} (hb : b ≠ 0)
    (hfive : five.length = 5) (hfront : five <+: startCode long ++ b :: rest) : 1 ≤ content before five := by
  match five, hfive with
  | [x₀, x₁, x₂, x₃, x₄], _ =>
    cases long with
    | true =>
      simp only [startCode, if_true, cons_append, nil_append, cons_prefix_cons] at hfront
      obtain ⟨rfl, rfl, rfl, rfl, rfl, -⟩ := hfront
      simp [content, hb]
    | false =>
      simp only [startCode, Bool.false_eq_true, if_false, cons_append, nil_append, cons_prefix_cons] at hfront
      obtain ⟨rfl, rfl, rfl, rfl, -⟩ := hfront
      simp [content, hb]

/-- A stream whose first piece is lost holds more content than the pieces that are kept. -/
theorem keptContent_lt (hheads : ∀ u ∈ units, u.2.bytes.head? ≠ some 0)
    {first : Bytes} (hfirst : 10 ≤ first.length) (hpieces : Pieces pieces)
    (hstream : assemble units = first ++ pieces.flatMap snd) :
    keptContent pieces < (units.flatMap fun u => u.2.bytes).countP (· ≠ 0) := by
  obtain ⟨five, tail, rfl, hfive⟩ : ∃ five tail, first = five ++ tail ∧ five.length = 5 := by
    refine ⟨first.take 5, first.drop 5, (take_append_drop _ _).symm, ?_⟩
    rw [length_take]
    omega
  have htail : 5 ≤ tail.length := by
    rw [length_append] at hfirst
    omega
  rw [append_assoc] at hstream
  have htidy : Tidy ((lastTwo (1, 1) five).2 :: (tail ++ pieces.flatMap snd)) := by
    have hwhole : Tidy (1 :: assemble units) := tidy_cons.2 ⟨by simp, tidy_assemble hheads⟩
    rw [hstream] at hwhole
    exact hwhole.of_part (lastTwo_suffix (1, 1) five _).isInfix
  have hfront : 1 ≤ content (1, 1) five := by
    cases units with
    | nil =>
      rw [append_eq_nil_iff.1 hstream.symm |>.1] at hfive
      cases hfive
    | cons u units =>
      obtain ⟨b, bytes, hbytes⟩ := exists_cons_of_ne_nil u.2.ne_nil
      have hhead := hheads u mem_cons_self
      rw [hbytes] at hhead
      rw [assemble_cons, hbytes] at hstream
      refine one_le_content_front (1, 1) (fun h => hhead (congrArg some h)) hfive ⟨_, hstream.symm⟩
  have hborrowed := borrowed_le_content (fun _ => htail) htidy
  have hkept : keptContent pieces ≤
      content (lastTwo (lastTwo (1, 1) five) tail) (pieces.flatMap snd) +
        borrowed (lastTwo (lastTwo (1, 1) five) tail) (pieces.flatMap snd) :=
    keptContent_le hpieces (htidy.of_part (lastTwo_suffix _ tail _).isInfix)
  have hcontent := content_assemble_le (1, 1) units
  rw [hstream, content_append, content_append] at hcontent
  omega

end LingVoice.Lib.AnnexB

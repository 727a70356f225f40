import Mathlib.Data.List.Basic

/-!
# Lines — a text by its lines, and a line by its separators
-/

namespace LingVoice.Lib

open List

/-- The lines of a text; what stands behind the last line break is one too. -/
def lines (text : String) : List (List Char) :=
  text.toList.splitOn '\n'

theorem lines_append {line : String} (hline : '\n' ∉ line.toList) (rest : String) :
    lines (line ++ "\n" ++ rest) = line.toList :: lines rest := by
  have hbreak : ∀ c ∈ line.toList, (c == '\n') = false := by
    intro c hc
    exact beq_eq_false_iff_ne.2 fun h => hline (h ▸ hc)
  rw [lines, String.toList_append, String.toList_append, append_assoc]
  exact splitOnP_append_cons_of_forall_mem hbreak '\n' (beq_self_eq_true _) rest.toList

/-- A number is written in one piece. -/
@[simp] theorem notMem_toDigits {c : Char} (hc : c.isDigit = false) (n : Nat) : c ∉ Nat.toDigits 10 n := by
  intro h
  have hdigit := Nat.isDigit_of_mem_toDigits (by decide) (by decide) h
  rw [hc] at hdigit
  cases hdigit

/-- What stands before and behind the first separator. -/
def cut (sep : Char) (text : List Char) : String × String :=
  (.ofList (text.takeWhile (· ≠ sep)), .ofList ((text.dropWhile (· ≠ sep)).drop 1))

theorem cut_append {sep : Char} {name : String} (h : sep ∉ name.toList) (value : String) :
    cut sep (name.toList ++ sep :: value.toList) = (name, value) := by
  have hname : ∀ c ∈ name.toList, decide (c ≠ sep) = true := by
    intro c hc
    exact decide_eq_true fun heq => h (heq ▸ hc)
  rw [cut, takeWhile_append_of_pos hname, dropWhile_append_of_pos hname]
  simp

/-! ## Attributes -/

/-- Names and their values, with commas between them. -/
def attributes (named : List (String × String)) : String :=
  .ofList ([','].intercalate (named.map fun a => a.1.toList ++ '=' :: a.2.toList))

def readAttributes (text : String) : List (String × String) :=
  (text.toList.splitOn ',').map (cut '=')

theorem readAttributes_attributes {named : List (String × String)} (hne : named ≠ [])
    (hnames : ∀ a ∈ named, ',' ∉ a.1.toList ∧ '=' ∉ a.1.toList) (hvalues : ∀ a ∈ named, ',' ∉ a.2.toList) :
    readAttributes (attributes named) = named := by
  have hpieces : ∀ piece ∈ named.map fun a => a.1.toList ++ '=' :: a.2.toList, ',' ∉ piece := by
    intro piece hpiece
    obtain ⟨a, ha, rfl⟩ := mem_map.1 hpiece
    simp [(hnames a ha).1, hvalues a ha]
  rw [readAttributes, attributes, String.toList_ofList, splitOn_intercalate _ hpieces (by simpa using hne), map_map]
  refine (map_congr_left fun a ha => ?_).trans (map_id named)
  exact cut_append (hnames a ha).2 a.2

end LingVoice.Lib

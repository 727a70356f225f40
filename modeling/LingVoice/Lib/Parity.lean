import LingVoice.Lib.Bytes
import Mathlib.Data.List.Perm.Basic

/-!
# Parity — the one element that is missing from a group

A checksum folds the elements of a group into an accumulator with an operation that does not mind their
order and that takes an element out again when it is applied a second time.  Folding in all but one of
the elements once more leaves the effect of that one.
-/

namespace LingVoice.Lib

open List

variable {α β : Type}

/-- An operation whose applications commute and cancel. -/
structure Parity (op : β → α → β) : Prop where
  comm : ∀ b x y, op (op b x) y = op (op b y) x
  cancel : ∀ b x, op (op b x) x = b

namespace Parity

variable {op : β → α → β}

theorem foldl_op (h : Parity op) (b : β) (x : α) (elements : List α) :
    elements.foldl op (op b x) = op (elements.foldl op b) x := by
  induction elements generalizing b with
  | nil => rfl
  | cons y elements ih => rw [foldl_cons, h.comm, ih, foldl_cons]

theorem foldl_foldl (h : Parity op) (b : β) (elements : List α) : elements.foldl op (elements.foldl op b) = b := by
  induction elements generalizing b with
  | nil => rfl
  | cons y elements ih =>
    rw [foldl_cons, foldl_cons, h.foldl_op b y, h.cancel, ih]

/-- The missing element, from a checksum of all and the others. -/
theorem recover (h : Parity op) {all received : List α} {missing : α} (hperm : all.Perm (missing :: received))
    (b : β) : received.foldl op (all.foldl op b) = op b missing := by
  rw [hperm.foldl_eq' (fun x _ y _ z => h.comm z x y), foldl_cons, h.foldl_foldl]

end Parity

end LingVoice.Lib

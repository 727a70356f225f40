import LingVoice.Lib.Fallible
import LingVoice.Lib.Slice
import LingVoice.LmCore.Media

/-!
# Remuxer — the trait `Remuxer` (`lm-protocol/src/lib.rs`)

The operations that every protocol writer has.  They may panic or hang, so that `push_frame` and `flush` return
`Except Fault`.  `RemuxCall` is one call of either, and `Remuxer.run` makes a sequence of calls on one instance.
-/

namespace LingVoice.LmProtocol

open Lib (Fault Fallible.run)
open LmCore

/-- The trait `Remuxer`, without `protocol`, for an implementation with state `σ`. -/
structure Remuxer (σ : Type) where
  pushFrame : σ → MediaFrame → Except Fault (σ × Bytes)
  flush : σ → Except Fault (σ × Bytes)
  reset : σ → σ

inductive RemuxCall
  | pushFrame (frame : MediaFrame)
  | flush
  deriving DecidableEq, Repr

namespace RemuxCall

def frames : List RemuxCall → List MediaFrame
  | [] => []
  | .pushFrame frame :: calls => frame :: frames calls
  | .flush :: calls => frames calls

theorem frames_append (before after : List RemuxCall) : frames (before ++ after) = frames before ++ frames after := by
  induction before with
  | nil => rfl
  | cons c before ih =>
    cases c with
    | pushFrame frame => exact congrArg (frame :: ·) ih
    | flush => exact ih

end RemuxCall

namespace Remuxer

variable {σ : Type} (R : Remuxer σ)

def call (s : σ) : RemuxCall → Except Fault (σ × Bytes)
  | .pushFrame frame => R.pushFrame s frame
  | .flush => R.flush s

def run (s : σ) (calls : List RemuxCall) : Except Fault (σ × List Bytes) :=
  Fallible.run R.call s calls

end Remuxer

end LingVoice.LmProtocol

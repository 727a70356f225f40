import LingVoice.Lib.Mealy
import LingVoice.Lib.Ring

/-!
# Spsc — the single-producer single-consumer queue (`lm-core/src/spsc.rs`)

One thread calls `try_push`, another one `try_pop`.  Every atomic load and store and every access to a cell is a step of
its own; the program counter of a thread says which access is next and holds the local variables.  A run is any list of
such steps.  The positions are 64-bit words and wrap.
-/

namespace LingVoice.LmCore

open Lib

/-- The fields of the queue; the statistics are read by nothing that is modelled. -/
structure SpscQueue (τ : Type) where
  buffer : List (Option τ)
  capacity : Nat
  mask : Nat
  writePos : UInt64
  readPos : UInt64
  totalWritten : UInt64
  totalRead : UInt64
  droppedFull : UInt64
  deriving Repr

namespace SpscQueue

variable {τ : Type}

/-- `next_power_of_two` overflows above `2 ^ 63`; there is no queue then. -/
def new (capacity : Nat) : Option (SpscQueue τ) :=
  let cap := capacity.nextPowerOfTwo
  if cap < 2 ^ 64 then
    some
      { buffer := List.replicate cap none
        capacity := cap
        mask := cap - 1
        writePos := 0
        readPos := 0
        totalWritten := 0
        totalRead := 0
        droppedFull := 0 }
  else
    none

def index (q : SpscQueue τ) (pos : UInt64) : Nat :=
  pos.toNat &&& q.mask

def len (q : SpscQueue τ) : Nat :=
  (q.writePos - q.readPos).toNat

end SpscQueue

/-! ## Threads -/

inductive ProducerPc (τ : Type)
  | idle
  | loadReadPos (item : τ) (wpos : UInt64)
  | countDropped (item : τ)
  | writeCell (item : τ) (wpos : UInt64)
  | storeWritePos (item : τ) (wpos : UInt64)
  | countWritten (item : τ)
  deriving DecidableEq, Repr

inductive ConsumerPc (τ : Type)
  | idle
  | loadWritePos (rpos : UInt64)
  | takeCell (rpos : UInt64)
  | storeReadPos (item : Option τ) (rpos : UInt64)
  | countRead (item : Option τ)
  deriving DecidableEq, Repr

structure Threads (τ : Type) where
  queue : SpscQueue τ
  producer : ProducerPc τ
  consumer : ConsumerPc τ
  deriving Repr

/-- A thread calls a function, which begins with its first load, or makes the next access of its call. -/
inductive Action (τ : Type)
  | tryPush (item : τ)
  | producer
  | tryPop
  | consumer
  deriving DecidableEq, Repr

/-- What a step shows to somebody who watches the queue. -/
inductive Event (τ : Type)
  | silent
  /-- A cell is written that held `old`. -/
  | wrote (old : Option τ)
  /-- The new position of the producer is stored. -/
  | published (item : τ)
  | pushReturned (item : τ) (ok : Bool)
  /-- The new position of the consumer is stored. -/
  | released
  | popReturned (item : Option τ)
  deriving DecidableEq, Repr

namespace Threads

variable {τ : Type}

/-- `try_push` after its first load. -/
def producerStep (s : Threads τ) : Threads τ × Event τ :=
  match s.producer with
  | .idle => (s, .silent)
  | .loadReadPos item wpos =>
    -- the consumer stays behind the producer, so this does not go below zero
    let used := (wpos - s.queue.readPos).toNat
    if s.queue.capacity ≤ used then
      ({ s with producer := .countDropped item }, .silent)
    else
      ({ s with producer := .writeCell item wpos }, .silent)
  | .countDropped item =>
    ({ s with
        queue := { s.queue with droppedFull := s.queue.droppedFull + 1 }
        producer := .idle },
      .pushReturned item false)
  | .writeCell item wpos =>
    let idx := s.queue.index wpos
    ({ s with
        queue := { s.queue with buffer := s.queue.buffer.set idx (some item) }
        producer := .storeWritePos item wpos },
      .wrote (s.queue.buffer[idx]?.getD none))
  | .storeWritePos item wpos =>
    ({ s with
        queue := { s.queue with writePos := wpos + 1 }
        producer := .countWritten item },
      .published item)
  | .countWritten item =>
    ({ s with
        queue := { s.queue with totalWritten := s.queue.totalWritten + 1 }
        producer := .idle },
      .pushReturned item true)

/-- `try_pop` after its first load. -/
def consumerStep (s : Threads τ) : Threads τ × Event τ :=
  match s.consumer with
  | .idle => (s, .silent)
  | .loadWritePos rpos =>
    -- `rpos >= wpos`: nothing to pop
    if s.queue.writePos ≤ rpos then
      ({ s with consumer := .idle }, .popReturned none)
    else
      ({ s with consumer := .takeCell rpos }, .silent)
  | .takeCell rpos =>
    let idx := s.queue.index rpos
    -- `take()` leaves the cell empty
    ({ s with
        queue := { s.queue with buffer := s.queue.buffer.set idx none }
        consumer := .storeReadPos (s.queue.buffer[idx]?.getD none) rpos },
      .silent)
  | .storeReadPos item rpos =>
    ({ s with
        queue := { s.queue with readPos := rpos + 1 }
        consumer := .countRead item },
      .released)
  | .countRead item =>
    ({ s with
        queue := { s.queue with totalRead := s.queue.totalRead + 1 }
        consumer := .idle },
      .popReturned item)

/-- A thread that is inside a call makes no other one. -/
def step (s : Threads τ) : Action τ → Threads τ × Event τ
  | .tryPush item =>
    match s.producer with
    | .idle => ({ s with producer := .loadReadPos item s.queue.writePos }, .silent)
    | _ => (s, .silent)
  | .producer => s.producerStep
  | .tryPop =>
    match s.consumer with
    | .idle => ({ s with consumer := .loadWritePos s.queue.readPos }, .silent)
    | _ => (s, .silent)
  | .consumer => s.consumerStep

def start (q : SpscQueue τ) : Threads τ where
  queue := q
  producer := .idle
  consumer := .idle

def after (q : SpscQueue τ) (actions : List (Action τ)) : Threads τ × List (Event τ) :=
  Mealy.run step (start q) actions

end Threads

/-! ## What has been seen -/

namespace Event

variable {τ : Type}

def pushed : Event τ → List τ
  | .published item => [item]
  | _ => []

def accepted : Event τ → List τ
  | .pushReturned item true => [item]
  | _ => []

def popped : Event τ → List τ
  | .popReturned (some item) => [item]
  | _ => []

def releases : Event τ → Nat
  | .released => 1
  | _ => 0

end Event

section Log

variable {τ : Type}

/-- The items whose position has been stored. -/
def pushed (log : List (Event τ)) : List τ :=
  log.flatMap Event.pushed

/-- The items for which `try_push` has returned true. -/
def accepted (log : List (Event τ)) : List τ :=
  log.flatMap Event.accepted

/-- The items that `try_pop` has returned. -/
def popped (log : List (Event τ)) : List τ :=
  log.flatMap Event.popped

/-- The items whose cell has been given back to the producer. -/
def releases (log : List (Event τ)) : Nat :=
  (log.map Event.releases).sum

end Log

end LingVoice.LmCore

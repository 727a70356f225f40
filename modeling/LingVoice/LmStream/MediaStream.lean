import LingVoice.LmDepacketizer.Create

/-!
# MediaStream — one track of a publisher (`lm-stream/src/lib.rs`)

A stream puts RTP packets together to frames, keeps the last group of pictures and hands every frame to its sinks; a new
sink is first given what is kept.  Calls of `on_frame` are the answers of the model: the sink and the frame.

The identity of a sink (`Arc::ptr_eq`) is equality of `σ`.

Calls are taken one at a time.  The source holds no lock over a whole call: `add_sink` replays the cache and then locks
the list of sinks, and a frame is saved under one lock and handed out under another, so threads may come in between.
-/

namespace LingVoice.LmStream

open LmCore LmDepacketizer

/-- `lm_transport::RtpPacket`; the payload type is not read here. -/
structure RtpPacket where
  ssrc : UInt32
  sequenceNumber : UInt16
  timestamp : UInt32
  marker : Bool
  payload : Bytes
  rid : String
  deriving DecidableEq, Repr

/-! ## The cache -/

structure Gop where
  frames : List MediaFrame
  deriving DecidableEq, Repr

namespace Gop

def new : Gop := { frames := [] }

def save (gop : Gop) (frame : MediaFrame) : Gop := { frames := gop.frames ++ [frame] }

def frameCount (gop : Gop) : Nat := gop.frames.length

end Gop

structure GopCache where
  gopCount : Nat
  maxFramesPerGop : Nat
  gops : List Gop
  deriving DecidableEq, Repr

/-- What begins a group of pictures. -/
def IsKeyframe (frame : MediaFrame) : Prop :=
  frame.kind = .video ∧ frame.keyframe

instance (frame : MediaFrame) : Decidable (IsKeyframe frame) :=
  inferInstanceAs (Decidable (_ ∧ _))

namespace GopCache

def new (gopCount maxFramesPerGop : Nat) : GopCache :=
  { gopCount := gopCount, maxFramesPerGop := maxFramesPerGop, gops := [] }

def disabled : GopCache := new 0 0

def isEnabled (cache : GopCache) : Bool := 0 < cache.gopCount

def rotate (cache : GopCache) : GopCache :=
  { cache with gops := (if cache.gopCount ≤ cache.gops.length then cache.gops.tail else cache.gops) ++ [Gop.new] }

def append (cache : GopCache) (frame : MediaFrame) : GopCache :=
  match cache.gops.getLast? with
  | some gop => { cache with gops := cache.gops.dropLast ++ [gop.save frame] }
  | none => cache

def save (cache : GopCache) (frame : MediaFrame) : GopCache :=
  if !cache.isEnabled then
    cache
  else
    let cache := if IsKeyframe frame then cache.rotate else cache
    match cache.gops.getLast? with
    | some gop =>
      -- a group that is full is closed, keyframe or not
      let cache := if cache.maxFramesPerGop ≤ gop.frameCount then cache.rotate else cache
      cache.append frame
    | none => { cache with gops := cache.gops ++ [Gop.new.save frame] }

def replay (cache : GopCache) : List MediaFrame :=
  if !cache.isEnabled then [] else cache.gops.flatMap Gop.frames

end GopCache

/-! ## The stream -/

structure MediaStream (σ : Type) where
  sourceSinks : List σ
  gopCache : GopCache
  depacketizer : BoxedDepacketizer

/-- What `push_packet` does with the depacketizer, and the frame that is complete. -/
def assemble (depacketizer : BoxedDepacketizer) (pkt : RtpPacket) : BoxedDepacketizer × Option MediaFrame :=
  match depacketizer.pushPacket pkt.payload pkt.marker pkt.sequenceNumber pkt.timestamp with
  | (depacketizer, .frameComplete) =>
    depacketizer.takeFrame.map id (Option.map fun frame => { frame with ssrc := pkt.ssrc, rid := pkt.rid })
  | (depacketizer, _) => (depacketizer, none)

namespace MediaStream

variable {σ : Type}

def new (codec : CodecType) (kind : TrackKind) : MediaStream σ where
  sourceSinks := []
  gopCache := if kind = .video then .new 1 2000 else .disabled
  depacketizer := createDepacketizer codec

def addSourceSink (stream : MediaStream σ) (sink : σ) : MediaStream σ × List (σ × MediaFrame) :=
  ({ stream with sourceSinks := stream.sourceSinks ++ [sink] }, stream.gopCache.replay.map fun frame => (sink, frame))

def removeSourceSink [DecidableEq σ] (stream : MediaStream σ) (sink : σ) : MediaStream σ :=
  { stream with sourceSinks := stream.sourceSinks.filter fun s => s ≠ sink }

/-- The second component says whether a frame was complete. -/
def pushPacket (stream : MediaStream σ) (pkt : RtpPacket) : MediaStream σ × Bool × List (σ × MediaFrame) :=
  match assemble stream.depacketizer pkt with
  | (depacketizer, some frame) =>
    ({ stream with depacketizer := depacketizer, gopCache := stream.gopCache.save frame }, true,
      stream.sourceSinks.map fun sink => (sink, frame))
  | (depacketizer, none) => ({ stream with depacketizer := depacketizer }, false, [])

theorem pushPacket_fst (stream : MediaStream σ) (pkt : RtpPacket) :
    (stream.pushPacket pkt).1 =
      { stream with
        depacketizer := (assemble stream.depacketizer pkt).1
        gopCache := (assemble stream.depacketizer pkt).2.toList.foldl GopCache.save stream.gopCache } := by
  unfold pushPacket
  obtain ⟨depacketizer, frame⟩ := assemble stream.depacketizer pkt
  cases frame with
  | none | some frame => rfl

theorem pushPacket_deliveries (stream : MediaStream σ) (pkt : RtpPacket) :
    (stream.pushPacket pkt).2.2 =
      (assemble stream.depacketizer pkt).2.toList.flatMap fun frame =>
        stream.sourceSinks.map fun sink => (sink, frame) := by
  unfold pushPacket
  obtain ⟨depacketizer, frame⟩ := assemble stream.depacketizer pkt
  cases frame with
  | none => rfl
  | some frame => simp

inductive Call (σ : Type)
  | addSourceSink (sink : σ)
  | removeSourceSink (sink : σ)
  | pushPacket (pkt : RtpPacket)

variable [DecidableEq σ]

def call (stream : MediaStream σ) : Call σ → MediaStream σ × List (σ × MediaFrame)
  | .addSourceSink sink => stream.addSourceSink sink
  | .removeSourceSink sink => (stream.removeSourceSink sink, [])
  | .pushPacket pkt => ((stream.pushPacket pkt).1, (stream.pushPacket pkt).2.2)

def calls (stream : MediaStream σ) (cs : List (Call σ)) : MediaStream σ × List (List (σ × MediaFrame)) :=
  Lib.Mealy.run call stream cs

/-! ## What one sink receives -/

def received (sink : σ) (deliveries : List (σ × MediaFrame)) : List MediaFrame :=
  (deliveries.filter fun delivery => delivery.1 = sink).map Prod.snd

theorem received_append (sink : σ) (before after : List (σ × MediaFrame)) :
    received sink (before ++ after) = received sink before ++ received sink after := by
  simp [received]

/-- A frame that goes to all sinks. -/
theorem received_map (sink : σ) (sinks : List σ) (frame : MediaFrame) :
    received sink (sinks.map fun s => (s, frame)) = List.replicate (sinks.count sink) frame := by
  induction sinks with
  | nil => rfl
  | cons s rest ih =>
    by_cases hs : s = sink
    · subst hs
      rw [List.count_cons_self, List.replicate_succ, ← ih]
      simp [received]
    · rw [List.count_cons_of_ne hs, ← ih]
      simp [received, hs]

end MediaStream
end LingVoice.LmStream

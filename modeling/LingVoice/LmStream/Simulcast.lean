import LingVoice.LmStream.MediaStream

/-!
# Simulcast — one video track in several layers (`lm-stream/src/lib.rs`, `SimulcastStreamV1`)

Every layer is a stream of its own.  Subscribers have a policy from which, with their bandwidth, a layer follows; layers
that nobody needs are turned off (dynacast).  What a subscriber is given does not follow from its policy: a sink is put
into the sinks of a layer when it subscribes and stays there.

The maps have one place for each of the three tiers.  The order in which a hash map is searched is an argument of
`pushPacket`.
-/

namespace LingVoice.LmStream

open LmCore LmDepacketizer

inductive SimulcastTier
  | low
  | mid
  | high
  deriving DecidableEq, Repr

/-- No letter outside ASCII becomes one of the letters of these words when it is lowered. -/
def SimulcastTier.fromRid (rid : String) : Option SimulcastTier :=
  match rid.toLower with
  | "low" | "l" | "quarter" => some .low
  | "mid" | "m" | "half" => some .mid
  | "high" | "h" | "full" => some .high
  | _ => none

structure LayerMeta where
  ssrc : UInt32
  targetBitrateKbps : UInt64
  deriving DecidableEq, Repr

inductive LayerSelectionPolicy
  | fixed (layer : SimulcastTier)
  | adaptive
  | highest
  | lowest
  deriving DecidableEq, Repr

structure SubscriberEntry (σ : Type) where
  sink : σ
  policy : LayerSelectionPolicy
  /-- 0 where it is not known -/
  estimatedBandwidthKbps : UInt64
  currentTier : SimulcastTier
  deriving DecidableEq, Repr

structure SimulcastStreamV1 (σ : Type) where
  codec : CodecType
  layers : SimulcastTier → Option (MediaStream σ)
  layerMetas : SimulcastTier → Option LayerMeta
  subscribers : List (SubscriberEntry σ)
  layerEnabled : SimulcastTier → Bool

/-- Change the first element with a property, as a loop does that breaks there. -/
def updateFirst {α : Type} (p : α → Bool) (f : α → α) : List α → List α
  | [] => []
  | a :: rest => if p a then f a :: rest else a :: updateFirst p f rest

namespace SimulcastStreamV1

variable {σ : Type}

def new (codec : CodecType) : SimulcastStreamV1 σ where
  codec := codec
  layers := fun _ => none
  layerMetas := fun _ => none
  subscribers := []
  layerEnabled := fun _ => true

def addLayer (s : SimulcastStreamV1 σ) (layer : SimulcastTier) (info : LayerMeta) : SimulcastStreamV1 σ :=
  { s with
    layers := Function.update s.layers layer (some (.new s.codec .video))
    layerMetas := Function.update s.layerMetas layer (some info) }

/-- The loop of the adaptive policy over the tiers, from high to low. -/
def selectAdaptive (metas : SimulcastTier → Option LayerMeta) (bandwidthKbps : UInt64) :
    List SimulcastTier → SimulcastTier
  | [] => .low
  | tier :: rest =>
    match metas tier with
    | some info =>
      if bandwidthKbps = 0 ∨ info.targetBitrateKbps = 0 then
        tier
      else if info.targetBitrateKbps ≤ bandwidthKbps then
        tier
      else
        selectAdaptive metas bandwidthKbps rest
    | none => selectAdaptive metas bandwidthKbps rest

def selectLayerForPolicy (s : SimulcastStreamV1 σ) (policy : LayerSelectionPolicy) (bandwidthKbps : UInt64) :
    SimulcastTier :=
  match policy with
  | .fixed layer => layer
  | .highest =>
    if (s.layers .high).isSome then
      .high
    else if (s.layers .mid).isSome then
      .mid
    else
      .low
  | .lowest => .low
  | .adaptive => selectAdaptive s.layerMetas bandwidthKbps [.high, .mid, .low]

def selected (s : SimulcastStreamV1 σ) (entry : SubscriberEntry σ) : SimulcastTier :=
  s.selectLayerForPolicy entry.policy entry.estimatedBandwidthKbps

/-! ## Dynacast -/

def demand (s : SimulcastStreamV1 σ) : (SimulcastTier → UInt64) × (SimulcastTier → Nat) :=
  s.subscribers.foldl
    (fun acc sub =>
      let layer := s.selected sub
      (Function.update acc.1 layer (acc.1 layer + sub.estimatedBandwidthKbps),
        Function.update acc.2 layer (acc.2 layer + 1)))
    (fun _ => 0, fun _ => 0)

def cost (s : SimulcastStreamV1 σ) (tier : SimulcastTier) : UInt64 :=
  ((s.layerMetas tier).map LayerMeta.targetBitrateKbps).getD 0

def shouldEnable (s : SimulcastStreamV1 σ) (tier : SimulcastTier) : Bool :=
  let demandBw := s.demand.1 tier
  let subscriberCount := s.demand.2 tier
  let costBw := s.cost tier
  if subscriberCount = 0 then
    false
  else if demandBw = 0 ∨ costBw = 0 then
    true
  else
    costBw / 2 < demandBw

def updateDynacast (s : SimulcastStreamV1 σ) : SimulcastStreamV1 σ :=
  { s with
    layerEnabled := [SimulcastTier.low, .mid, .high].foldl
      (fun enabled tier =>
        if enabled tier ≠ s.shouldEnable tier then Function.update enabled tier (s.shouldEnable tier) else enabled)
      s.layerEnabled }

/-! ## Calls -/

/-- Besides the stream, what the sink is given from the cache of its layer. -/
def addSubscriber (s : SimulcastStreamV1 σ) (sink : σ) (policy : LayerSelectionPolicy) :
    SimulcastStreamV1 σ × List (σ × MediaFrame) :=
  let layer := s.selectLayerForPolicy policy 0
  let (layers, replayed) :=
    match s.layers layer with
    | some stream =>
      let (stream, replayed) := stream.addSourceSink sink
      (Function.update s.layers layer (some stream), replayed)
    | none => (s.layers, [])
  let entry : SubscriberEntry σ :=
    { sink := sink, policy := policy, estimatedBandwidthKbps := 0, currentTier := layer }
  ({ s with layers := layers, subscribers := s.subscribers ++ [entry] }.updateDynacast, replayed)

/-- The layer that a packet belongs to, by its RID or else by its SSRC. -/
def route (s : SimulcastStreamV1 σ) (order : List SimulcastTier) (pkt : RtpPacket) : Option SimulcastTier :=
  if pkt.rid ≠ "" then
    SimulcastTier.fromRid pkt.rid
  else
    order.find? fun tier => (s.layerMetas tier).any fun info => info.ssrc = pkt.ssrc

def pushPacket (s : SimulcastStreamV1 σ) (order : List SimulcastTier) (pkt : RtpPacket) :
    SimulcastStreamV1 σ × Bool × List (σ × MediaFrame) :=
  match s.route order pkt with
  | none => (s, false, [])
  | some layer =>
    if !s.layerEnabled layer then
      -- packets of a layer that is turned off are dropped
      (s, false, [])
    else
      match s.layers layer with
      | none => (s, false, [])
      | some stream =>
        let (stream, frameCompleted, deliveries) := stream.pushPacket pkt
        let s := { s with layers := Function.update s.layers layer (some stream) }
        (if frameCompleted then s.updateDynacast else s, true, deliveries)

variable [DecidableEq σ]

def removeSubscriber (s : SimulcastStreamV1 σ) (sink : σ) : SimulcastStreamV1 σ :=
  { s with subscribers := s.subscribers.filter fun entry => entry.sink ≠ sink }.updateDynacast

def updateSubscriberBandwidth (s : SimulcastStreamV1 σ) (sink : σ) (bandwidthKbps : UInt64) : SimulcastStreamV1 σ :=
  { s with
    subscribers := updateFirst (fun entry => entry.sink = sink)
      (fun entry =>
        { entry with
          estimatedBandwidthKbps := bandwidthKbps
          currentTier :=
            if entry.policy = .adaptive then s.selectLayerForPolicy entry.policy bandwidthKbps
            else entry.currentTier })
      s.subscribers }

def switchLayer (s : SimulcastStreamV1 σ) (sink : σ) (newLayer : SimulcastTier) : SimulcastStreamV1 σ × Bool :=
  let found := s.subscribers.any fun entry => entry.sink = sink
  let s :=
    { s with
      subscribers := updateFirst (fun entry => entry.sink = sink)
        (fun entry => { entry with policy := .fixed newLayer }) s.subscribers }
  (if found then s.updateDynacast else s, found)

/-- The calls that do not carry media. -/
inductive Control (σ : Type)
  | addLayer (layer : SimulcastTier) (info : LayerMeta)
  | addSubscriber (sink : σ) (policy : LayerSelectionPolicy)
  | removeSubscriber (sink : σ)
  | updateSubscriberBandwidth (sink : σ) (bandwidthKbps : UInt64)
  | switchLayer (sink : σ) (newLayer : SimulcastTier)

def control (s : SimulcastStreamV1 σ) : Control σ → SimulcastStreamV1 σ
  | .addLayer layer info => s.addLayer layer info
  | .addSubscriber sink policy => (s.addSubscriber sink policy).1
  | .removeSubscriber sink => s.removeSubscriber sink
  | .updateSubscriberBandwidth sink bandwidthKbps => s.updateSubscriberBandwidth sink bandwidthKbps
  | .switchLayer sink newLayer => (s.switchLayer sink newLayer).1

inductive Call (σ : Type)
  | control (c : Control σ)
  | pushPacket (order : List SimulcastTier) (pkt : RtpPacket)

def call (s : SimulcastStreamV1 σ) : Call σ → SimulcastStreamV1 σ
  | .control c => s.control c
  | .pushPacket order pkt => (s.pushPacket order pkt).1

end SimulcastStreamV1
end LingVoice.LmStream

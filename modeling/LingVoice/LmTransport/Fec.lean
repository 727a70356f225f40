import LingVoice.Lib.Xor
import Mathlib.Algebra.GroupWithZero.Nat

/-!
# Fec — forward error correction (`lm-transport/src/fec.rs`)

The encoder combines the payloads of a group of consecutive packets into one more packet; the decoder
collects packets by groups and computes the one that is missing.  The groups of the decoder are a hash map:
a list of entries here, whose order is left to the caller of `addMediaPacket`.
-/

namespace LingVoice.LmTransport

open Lib (xorInto)

structure FecConfig where
  l : Nat
  enable1d : Bool
  deriving DecidableEq, Repr

structure FecPacket where
  snBase : UInt16
  tsRecovery : UInt32
  lengthRecovery : UInt16
  payload : Bytes
  mask : Bytes
  deriving DecidableEq, Repr

abbrev MediaPacket := UInt16 × Bytes

/-! ## The encoder -/

structure FecEncoder where
  config : FecConfig
  currentGroup : List MediaPacket
  deriving DecidableEq, Repr

def setMaskBit (mask : Bytes) (i : Nat) : Bytes :=
  mask.modify (i / 8) (· ||| ((1 : UInt8) <<< UInt8.ofNat (i % 8)))

def maskOf (n : Nat) : Bytes :=
  (List.range n).foldl setMaskBit (List.replicate ((n + 7) / 8) 0)

def lengthField (payload : Bytes) : UInt16 :=
  UInt16.ofNat payload.length

def xorLengths (acc : UInt16) (payload : Bytes) : UInt16 :=
  acc ^^^ lengthField payload

def maxLen (payloads : List Bytes) : Nat :=
  (payloads.map List.length).foldl max 0

/-- The timestamps are not known to the encoder, which writes zero. -/
def buildFecPacket (group : List MediaPacket) : FecPacket :=
  let payloads := group.map Prod.snd
  { snBase := (group.head?.map Prod.fst).getD 0
    tsRecovery := 0
    lengthRecovery := payloads.foldl xorLengths 0
    payload := payloads.foldl xorInto (List.replicate (maxLen payloads) 0)
    mask := maskOf group.length }

namespace FecEncoder

def new (config : FecConfig) : FecEncoder :=
  { config := config, currentGroup := [] }

def addPacket (e : FecEncoder) (seq : UInt16) (payload : Bytes) : FecEncoder × Option FecPacket :=
  let group := e.currentGroup ++ [(seq, payload)]
  if e.config.enable1d ∧ e.config.l ≤ group.length then
    ({ e with currentGroup := [] }, some (buildFecPacket group))
  else ({ e with currentGroup := group }, none)

/-- A packet for a group that is not full. -/
def flush (e : FecEncoder) : FecEncoder × Option FecPacket :=
  if e.currentGroup = [] then (e, none)
  else if e.config.enable1d then ({ e with currentGroup := [] }, some (buildFecPacket e.currentGroup))
  else (e, none)

end FecEncoder

/-! ## Recovery -/

structure FecGroup where
  mediaPackets : List (Option MediaPacket)
  fecPackets : List FecPacket
  deriving DecidableEq, Repr

def countOnes (b : UInt8) : Nat :=
  (List.range 8).countP fun i => b.toNat.testBit i

def countMaskBits (mask : Bytes) : Nat :=
  (mask.map countOnes).sum

def resize (n : Nat) (bytes : Bytes) : Bytes :=
  if n ≤ bytes.length then bytes.take n else bytes ++ List.replicate (n - bytes.length) 0

namespace FecGroup

def received (g : FecGroup) : List Bytes :=
  (g.mediaPackets.filterMap id).map Prod.snd

/-- With exactly one packet missing, its payload from the first FEC packet and the others. -/
def tryRecover (g : FecGroup) : Option Bytes :=
  if g.mediaPackets.countP Option.isNone ≠ 1 then none
  else
    match g.fecPackets with
    | [] => none
    | fec :: _ =>
      some (resize (g.received.foldl xorLengths fec.lengthRecovery).toNat
        (g.received.foldl xorInto fec.payload))

/-- Also the number of the packet. -/
def tryRecoverWithSeq (g : FecGroup) : Option MediaPacket :=
  match g.tryRecover with
  | none => none
  | some payload =>
    let snBase := (g.fecPackets.head?.map FecPacket.snBase).getD 0
    (g.mediaPackets.findIdx? Option.isNone).map fun idx => (snBase + UInt16.ofNat idx, payload)

end FecGroup

/-! ## The decoder -/

structure FecDecoder where
  groups : List (UInt16 × FecGroup)
  pendingMedia : List MediaPacket
  deriving DecidableEq, Repr

/-- Packet `seq` has a free slot among `slots`, which start at `snBase`. -/
def HasSlot (snBase : UInt16) (slots : List (Option MediaPacket)) (seq : UInt16) : Prop :=
  seq - snBase < 256 ∧ slots[(seq - snBase).toNat]? = some none

instance (snBase : UInt16) (slots : List (Option MediaPacket)) (seq : UInt16) :
    Decidable (HasSlot snBase slots seq) :=
  inferInstanceAs (Decidable (_ ∧ _))

def fillSlot (snBase : UInt16) (slots : List (Option MediaPacket)) (packet : MediaPacket) :
    List (Option MediaPacket) :=
  slots.set (packet.1 - snBase).toNat (some packet)

namespace FecDecoder

def new : FecDecoder :=
  { groups := [], pendingMedia := [] }

/-- The group of an entry with the packet in its slot, when it has a free one for it. -/
def placeInGroup (packet : MediaPacket) (entry : UInt16 × FecGroup) : Option FecGroup :=
  if HasSlot entry.1 entry.2.mediaPackets packet.1 then
    some { entry.2 with mediaPackets := fillSlot entry.1 entry.2.mediaPackets packet }
  else none

/-- The loop over the groups: the groups, whether the packet was placed, and the last recovery. -/
def placeLoop (packet : MediaPacket) : List (UInt16 × FecGroup) → Bool → Option Bytes →
    List (UInt16 × FecGroup) × Bool × Option Bytes
  | [], placed, recovered => ([], placed, recovered)
  | entry :: groups, placed, recovered =>
    match placeInGroup packet entry with
    | none =>
      let (groups, placed, recovered) := placeLoop packet groups placed recovered
      (entry :: groups, placed, recovered)
    | some group =>
      let (groups, placed, recovered) := placeLoop packet groups true (group.tryRecover.or recovered)
      ((entry.1, group) :: groups, placed, recovered)

def addMediaPacket (d : FecDecoder) (packet : MediaPacket) : FecDecoder × Option Bytes :=
  let (groups, placed, recovered) := placeLoop packet d.groups false none
  ({ groups := groups
     pendingMedia := if placed then d.pendingMedia else d.pendingMedia ++ [packet] }, recovered)

/-- The loop over the pending packets: the slots, and the packets that stay pending. -/
def fillPending (snBase : UInt16) : List MediaPacket → List (Option MediaPacket) →
    List (Option MediaPacket) × List MediaPacket
  | [], slots => (slots, [])
  | packet :: pending, slots =>
    if HasSlot snBase slots packet.1 then fillPending snBase pending (fillSlot snBase slots packet)
    else
      let (slots, stillPending) := fillPending snBase pending slots
      (slots, packet :: stillPending)

/-- The group of `snBase`, or a new one, with at least `needed` slots. -/
def groupFor (groups : List (UInt16 × FecGroup)) (snBase : UInt16) (needed : Nat) : FecGroup :=
  match groups.lookup snBase with
  | none => { mediaPackets := List.replicate needed none, fecPackets := [] }
  | some group =>
    { group with
      mediaPackets := group.mediaPackets ++ List.replicate (needed - group.mediaPackets.length) none }

def insertGroup (groups : List (UInt16 × FecGroup)) (snBase : UInt16) (group : FecGroup) :
    List (UInt16 × FecGroup) :=
  groups.filter (fun entry => entry.1 ≠ snBase) ++ [(snBase, group)]

def addFecPacket (d : FecDecoder) (fec : FecPacket) : FecDecoder × Option MediaPacket :=
  let group := groupFor d.groups fec.snBase (countMaskBits fec.mask)
  let (slots, stillPending) := fillPending fec.snBase d.pendingMedia group.mediaPackets
  let group := { mediaPackets := slots, fecPackets := group.fecPackets ++ [fec] }
  ({ groups := insertGroup d.groups fec.snBase group, pendingMedia := stillPending },
    group.tryRecoverWithSeq)

end FecDecoder

end LingVoice.LmTransport

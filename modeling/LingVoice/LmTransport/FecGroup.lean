import LingVoice.Lib.Mealy
import LingVoice.Lib.SeqNum
import LingVoice.LmTransport.Fec
import Mathlib.Algebra.BigOperators.Group.List.Defs
import Mathlib.Algebra.Order.Ring.Nat
import Mathlib.Algebra.Order.Sub.Basic
import Mathlib.Data.List.Fold
import Mathlib.Data.List.MinMax

/-!
# FecGroup — the groups of the encoder and the recovery of one packet

A sender numbers its packets from some number on.  The encoder cuts them into spans of consecutive packets,
one behind the other; a decoder that holds all packets of a span but one computes that one.
-/

namespace LingVoice.LmTransport

open Lib List Nat

/-! ## Masks -/

def lowBits (t : Nat) : UInt8 :=
  UInt8.ofNat (2 ^ t - 1)

/-- A mask of `m` bytes whose first `8 * q + t` bits are set. -/
def maskShape (m q t : Nat) : Bytes :=
  List.replicate q 255 ++ lowBits t :: List.replicate (m - q - 1) 0

theorem modify_replicate_append (f : UInt8 → UInt8) (q : Nat) (a b : UInt8) (rest : Bytes) :
    (replicate q a ++ b :: rest).modify q f = replicate q a ++ f b :: rest := by
  induction q with
  | zero => rfl
  | succ q ih =>
    rw [replicate_succ, cons_append, modify_succ_cons, ih, cons_append]

variable {m q t : Nat}

theorem setMaskBit_maskShape (ht : t < 8) : setMaskBit (maskShape m q t) (8 * q + t) = maskShape m q (t + 1) := by
  have hbyte : ∀ t < 8, lowBits t ||| ((1 : UInt8) <<< UInt8.ofNat t) = lowBits (t + 1) := by decide +kernel
  have hdiv : (8 * q + t) / 8 = q := by omega
  have hmod : (8 * q + t) % 8 = t := by omega
  rw [setMaskBit, hdiv, hmod, maskShape, modify_replicate_append, hbyte t ht, maskShape]

theorem maskShape_carry (hq : q + 1 < m) : maskShape m q 8 = maskShape m (q + 1) 0 := by
  have hfull : lowBits 8 = 255 := by decide
  have hempty : lowBits 0 = 0 := by decide
  have hrest : m - q - 1 = m - (q + 1) - 1 + 1 := by omega
  rw [maskShape, maskShape, hfull, hempty, hrest, replicate_succ, replicate_succ', append_assoc, singleton_append]

theorem foldl_setMaskBit (n q t : Nat) (hn : n = 8 * q + t) (hq : q < m) (ht : t ≤ 8) :
    (range n).foldl setMaskBit (replicate m 0) = maskShape m q t := by
  induction n generalizing q t with
  | zero =>
    obtain ⟨rfl, rfl⟩ : q = 0 ∧ t = 0 := by omega
    have hm : m = m - 0 - 1 + 1 := by omega
    nth_rewrite 1 [hm]
    rfl
  | succ n ih =>
    rw [range_succ, foldl_append, foldl_cons, foldl_nil]
    cases t with
    | succ t =>
      have hbit : n = 8 * q + t := by omega
      rw [ih q t hbit hq (by omega), hbit, setMaskBit_maskShape (by omega)]
    | zero =>
      -- the bit is the last of the byte before
      obtain ⟨p, rfl⟩ : ∃ p, q = p + 1 := ⟨q - 1, by omega⟩
      have hbit : n = 8 * p + 7 := by omega
      rw [ih p 7 hbit (by omega) (by omega), hbit, setMaskBit_maskShape (by omega), maskShape_carry hq]

theorem countMaskBits_maskShape (ht : t ≤ 8) : countMaskBits (maskShape m q t) = 8 * q + t := by
  have hlow : ∀ t < 9, countOnes (lowBits t) = t := by decide +kernel
  have hfull : countOnes 255 = 8 := by decide +kernel
  have hzero : countOnes 0 = 0 := by decide +kernel
  rw [countMaskBits, maskShape, map_append, map_cons, map_replicate, map_replicate,
    List.sum_append, sum_cons, hlow t (by omega), hfull, hzero]
  simp
  omega

/-- The decoder reads the size of the group from the mask. -/
theorem countMaskBits_maskOf (n : Nat) : countMaskBits (maskOf n) = n := by
  cases n with
  | zero => rfl
  | succ n =>
    have hshape := foldl_setMaskBit (n + 1) (n / 8) (n % 8 + 1) (by omega)
      (show n / 8 < (n + 1 + 7) / 8 by omega) (by omega)
    rw [maskOf, hshape, countMaskBits_maskShape (by omega)]
    omega

/-! ## The packets of a sender -/

structure Sender where
  first : UInt16
  payloads : List Bytes
  deriving DecidableEq, Repr

structure Span where
  start : Nat
  len : Nat
  deriving DecidableEq, Repr

def Span.indices (span : Span) : List Nat :=
  List.range' span.start span.len

theorem Span.mem_indices {span : Span} {i : Nat} : i ∈ span.indices ↔ span.start ≤ i ∧ i < span.start + span.len :=
  mem_range'_1

namespace Sender

variable (s : Sender)

def seqAt (i : Nat) : UInt16 :=
  UInt16.ofNat (s.first.toNat + i)

def payloadAt (i : Nat) : Bytes :=
  s.payloads.getD i []

def packetAt (i : Nat) : MediaPacket :=
  (s.seqAt i, s.payloadAt i)

def fecOf (span : Span) : FecPacket :=
  buildFecPacket (span.indices.map s.packetAt)

theorem seqAt_add (i j : Nat) : s.seqAt (i + j) = s.seqAt i + UInt16.ofNat j := by
  rw [seqAt, seqAt, ← UInt16.ofNat_add, Nat.add_assoc]

theorem payloads_of_span (span : Span) : (span.indices.map s.packetAt).map Prod.snd = span.indices.map s.payloadAt := by
  rw [map_map]
  rfl

theorem snBase_fecOf {span : Span} (h : 0 < span.len) : (s.fecOf span).snBase = s.seqAt span.start := by
  obtain ⟨n, hn⟩ := exists_eq_succ_of_ne_zero (ne_of_gt h)
  show ((span.indices.map s.packetAt).head?.map Prod.fst).getD 0 = _
  rw [Span.indices, hn, range'_succ]
  rfl

theorem countMaskBits_fecOf (span : Span) : countMaskBits (s.fecOf span).mask = span.len := by
  show countMaskBits (maskOf (span.indices.map s.packetAt).length) = _
  rw [countMaskBits_maskOf, length_map, Span.indices, length_range']

end Sender

/-! ## The spans of the encoder -/

/-- What a sender asks of the encoder. -/
inductive Call
  | packet (payload : Bytes)
  | flush
  deriving DecidableEq, Repr

def Call.payload? : Call → Option Bytes
  | .packet payload => some payload
  | .flush => none

def senderOf (first : UInt16) (calls : List Call) : Sender :=
  { first := first, payloads := calls.filterMap Call.payload? }

/-- One call: the encoder, and the number of packets so far. -/
def encodeCall (first : UInt16) (state : FecEncoder × Nat) (call : Call) :
    (FecEncoder × Nat) × Option FecPacket :=
  match call with
  | .packet payload =>
    let (e, fec) := state.1.addPacket (UInt16.ofNat (first.toNat + state.2)) payload
    ((e, state.2 + 1), fec)
  | .flush =>
    let (e, fec) := state.1.flush
    ((e, state.2), fec)

def emitted (config : FecConfig) (first : UInt16) (calls : List Call) : List FecPacket :=
  (Mealy.run (encodeCall first) (FecEncoder.new config, 0) calls).2.filterMap id

/-- The spans behind `start`, of whose first the encoder holds `held` packets. -/
def spansFrom (config : FecConfig) : Nat → Nat → List Call → List Span
  | _, _, [] => []
  | start, held, .packet _ :: calls =>
    if config.enable1d ∧ config.l ≤ held + 1 then
      ⟨start, held + 1⟩ :: spansFrom config (start + (held + 1)) 0 calls
    else spansFrom config start (held + 1) calls
  | start, held, .flush :: calls =>
    if held ≠ 0 ∧ config.enable1d then ⟨start, held⟩ :: spansFrom config (start + held) 0 calls
    else spansFrom config start held calls

def spansOf (config : FecConfig) (calls : List Call) : List Span :=
  spansFrom config 0 0 calls

section Encoder

variable (config : FecConfig) (s : Sender)

def holding (start held : Nat) : FecEncoder × Nat :=
  ({ config := config, currentGroup := (Span.indices ⟨start, held⟩).map s.packetAt }, start + held)

theorem length_indices (span : Span) : span.indices.length = span.len :=
  length_range'

theorem encodeCall_packet (start held : Nat) :
    encodeCall s.first (holding config s start held) (.packet (s.payloadAt (start + held))) =
      if config.enable1d ∧ config.l ≤ held + 1 then
        (holding config s (start + (held + 1)) 0, some (s.fecOf ⟨start, held + 1⟩))
      else (holding config s start (held + 1), none) := by
  have hgroup : (Span.indices ⟨start, held⟩).map s.packetAt ++
      [(UInt16.ofNat (s.first.toNat + (start + held)), s.payloadAt (start + held))] =
        (Span.indices ⟨start, held + 1⟩).map s.packetAt := by
    rw [Span.indices, Span.indices, range'_concat, map_append, Nat.one_mul]
    rfl
  have hlength : ((Span.indices ⟨start, held + 1⟩).map s.packetAt).length = held + 1 := by
    rw [length_map, length_indices]
  simp only [encodeCall, holding, FecEncoder.addPacket, hgroup, hlength]
  by_cases hfull : config.enable1d = true ∧ config.l ≤ held + 1
  · simp only [if_pos hfull]
    rfl
  · simp only [if_neg hfull]
    rfl

theorem flush_eq (group : List MediaPacket) :
    FecEncoder.flush ⟨config, group⟩ =
      if group ≠ [] ∧ config.enable1d then (⟨config, []⟩, some (buildFecPacket group))
      else (⟨config, group⟩, none) := by
  rw [FecEncoder.flush]
  by_cases hempty : group = []
  · rw [if_pos hempty, if_neg (fun h => h.1 hempty)]
  · rw [if_neg hempty]
    by_cases henabled : config.enable1d = true
    · rw [if_pos henabled, if_pos ⟨hempty, henabled⟩]
    · rw [if_neg henabled, if_neg (fun h => henabled h.2)]

theorem encodeCall_flush (start held : Nat) :
    encodeCall s.first (holding config s start held) .flush =
      if held ≠ 0 ∧ config.enable1d then
        (holding config s (start + held) 0, some (s.fecOf ⟨start, held⟩))
      else (holding config s start held, none) := by
  have hempty : (Span.indices ⟨start, held⟩).map s.packetAt = [] ↔ held = 0 := by
    rw [map_eq_nil_iff, ← length_eq_zero_iff, length_indices]
  have hiff : (Span.indices ⟨start, held⟩).map s.packetAt ≠ [] ∧ config.enable1d = true ↔
      held ≠ 0 ∧ config.enable1d = true :=
    and_congr_left' (not_congr hempty)
  simp only [encodeCall, holding, flush_eq, hiff]
  split <;> rfl

theorem run_holding (calls : List Call) (front : List Bytes) (start held : Nat)
    (hpayloads : s.payloads = front ++ calls.filterMap Call.payload?) (hfront : front.length = start + held) :
    (Mealy.run (encodeCall s.first) (holding config s start held) calls).2.filterMap id =
      (spansFrom config start held calls).map s.fecOf := by
  induction calls generalizing front start held with
  | nil => rfl
  | cons call calls ih =>
    cases call with
    | packet payload =>
      obtain rfl : s.payloadAt (start + held) = payload := by
        rw [Sender.payloadAt, hpayloads, ← hfront]
        simp [Call.payload?]
      have hsent : s.payloads = (front ++ [s.payloadAt (start + held)]) ++
          calls.filterMap Call.payload? := by
        rw [append_assoc]
        exact hpayloads
      have hlength : (front ++ [s.payloadAt (start + held)]).length = start + (held + 1) := by
        rw [length_append, length_singleton, hfront]
        omega
      rw [Mealy.run_cons, spansFrom, encodeCall_packet]
      split
      · rw [map_cons, ← ih _ (start + (held + 1)) 0 hsent hlength]
        rfl
      · rw [← ih _ start (held + 1) hsent hlength]
        rfl
    | flush =>
      rw [Mealy.run_cons, spansFrom, encodeCall_flush]
      split
      · rw [map_cons, ← ih _ (start + held) 0 hpayloads hfront]
        rfl
      · rw [← ih _ start held hpayloads hfront]
        rfl

end Encoder

theorem emitted_eq (config : FecConfig) (first : UInt16) (calls : List Call) :
    emitted config first calls = (spansOf config calls).map (senderOf first calls).fecOf :=
  run_holding config (senderOf first calls) calls [] 0 0 rfl rfl

structure Spaced (start : Nat) (spans : List Span) : Prop where
  ordered : spans.Pairwise fun a b => a.start + a.len ≤ b.start
  bounds : ∀ span ∈ spans, start ≤ span.start ∧ 0 < span.len ∧ span.len ≤ 256

variable {total start : Nat}

theorem Spaced.cons {span : Span} {spans : List Span} (hlow : start ≤ span.start) (hpos : 0 < span.len)
    (hle : span.len ≤ 256) (hend : span.start + span.len ≤ total)
    (h : Spaced (span.start + span.len) spans ∧ ∀ other ∈ spans, other.start + other.len ≤ total) :
    Spaced start (span :: spans) ∧ ∀ other ∈ span :: spans, other.start + other.len ≤ total := by
  obtain ⟨⟨hordered, hbounds⟩, hends⟩ := h
  refine ⟨⟨pairwise_cons.mpr ⟨fun other hother => (hbounds other hother).1, hordered⟩, ?_⟩,
    forall_mem_cons.mpr ⟨hend, hends⟩⟩
  refine forall_mem_cons.mpr ⟨⟨hlow, hpos, hle⟩, fun other hother => ?_⟩
  have := hbounds other hother
  omega

variable {config : FecConfig}

/-- The spans lie one behind the other, and among the packets of the calls. -/
theorem spaced_spansFrom (hl : config.l ≤ 256) (calls : List Call) (start held : Nat)
    (hheld : config.enable1d = true → held ≤ 255)
    (htotal : start + held + (calls.filterMap Call.payload?).length ≤ total) :
    Spaced start (spansFrom config start held calls) ∧
      ∀ span ∈ spansFrom config start held calls, span.start + span.len ≤ total := by
  induction calls generalizing start held with
  | nil => exact ⟨⟨Pairwise.nil, by simp [spansFrom]⟩, by simp [spansFrom]⟩
  | cons call calls ih =>
    cases call with
    | packet payload =>
      change start + held + ((calls.filterMap Call.payload?).length + 1) ≤ total at htotal
      rw [spansFrom]
      split
      next hfull =>
        have hroom : held + 1 ≤ 256 := succ_le_succ (hheld hfull.1)
        exact Spaced.cons (le_refl _) (succ_pos _) hroom (by dsimp only; omega)
          (ih _ 0 (by omega) (by dsimp only; omega))
      next hfull =>
        refine ih start (held + 1) (fun henabled => ?_) (by omega)
        have hroom : ¬ config.l ≤ held + 1 := fun hle => hfull ⟨henabled, hle⟩
        omega
    | flush =>
      rw [filterMap_cons_none rfl] at htotal
      rw [spansFrom]
      split
      next hflush =>
        have hroom : held ≤ 256 := le_succ_of_le (hheld hflush.2)
        exact Spaced.cons (Nat.le_refl _) (Nat.pos_of_ne_zero hflush.1) hroom (by dsimp only; omega)
          (ih _ 0 (by omega) (by omega))
      next =>
        exact ih start held hheld htotal

/-! ## Recovery -/

theorem parity_xorLengths : Parity xorLengths where
  comm acc x y := by
    rw [xorLengths, xorLengths, xorLengths, xorLengths, UInt16.xor_assoc, UInt16.xor_comm (lengthField x),
      UInt16.xor_assoc]
  cancel acc x := by
    rw [xorLengths, xorLengths, UInt16.xor_assoc, UInt16.xor_self, UInt16.xor_zero]

namespace Sender

variable (s : Sender)

def slotsFor (arrived : List Nat) (span : Span) : List (Option MediaPacket) :=
  span.indices.map fun i => if i ∈ arrived then some (s.packetAt i) else none

def missingOf (arrived : List Nat) (span : Span) : List Nat :=
  span.indices.filter fun i => decide (i ∉ arrived)

theorem length_slotsFor (arrived : List Nat) (span : Span) : (s.slotsFor arrived span).length = span.len := by
  rw [slotsFor, length_map, length_indices]

theorem countP_slotsFor (arrived : List Nat) (span : Span) :
    (s.slotsFor arrived span).countP Option.isNone = (missingOf arrived span).length := by
  rw [slotsFor, countP_map, missingOf, ← countP_eq_length_filter]
  refine countP_congr fun i _ => ?_
  by_cases hi : i ∈ arrived <;> simp [hi]

theorem filterMap_slotsFor (arrived : List Nat) (span : Span) :
    ((s.slotsFor arrived span).filterMap id).map Prod.snd =
      (span.indices.filter fun i => decide (i ∈ arrived)).map s.payloadAt := by
  rw [slotsFor]
  induction span.indices with
  | nil => rfl
  | cons i rest ih =>
    by_cases hi : i ∈ arrived
    · rw [map_cons, if_pos hi, filter_cons_of_pos (by simpa using hi), map_cons, ← ih]
      rfl
    · rw [map_cons, if_neg hi, filterMap_cons_none rfl, ih, filter_cons_of_neg (by simpa using hi)]

variable {arrived : List Nat} {span : Span}

theorem perm_payloads {j : Nat} (h : missingOf arrived span = [j]) :
    (span.indices.map s.payloadAt).Perm
      (s.payloadAt j :: (span.indices.filter fun i => decide (i ∈ arrived)).map s.payloadAt) := by
  have hperm := filter_append_perm (fun i => decide (i ∉ arrived)) span.indices
  have hothers : (span.indices.filter fun i => !decide (i ∉ arrived)) =
      span.indices.filter fun i => decide (i ∈ arrived) :=
    filter_congr fun i _ => by simp
  rw [← missingOf, h, hothers] at hperm
  exact (hperm.map s.payloadAt).symm

/-- With one packet missing the others and the FEC packet give its payload. -/
theorem recover_payload {j : Nat} (h : missingOf arrived span = [j])
    (hshort : (s.payloadAt j).length < 2 ^ 16) (received : List Bytes)
    (hreceived : received = (span.indices.filter fun i => decide (i ∈ arrived)).map s.payloadAt) :
    resize (received.foldl xorLengths (s.fecOf span).lengthRecovery).toNat
      (received.foldl xorInto (s.fecOf span).payload) = s.payloadAt j := by
  have hperm := s.perm_payloads h
  rw [← hreceived] at hperm
  have hlengths : received.foldl xorLengths (s.fecOf span).lengthRecovery = xorLengths 0 (s.payloadAt j) := by
    show received.foldl xorLengths (((span.indices.map s.packetAt).map Prod.snd).foldl xorLengths 0) = _
    rw [payloads_of_span, parity_xorLengths.recover hperm]
  have hpayload : received.foldl xorInto (s.fecOf span).payload =
      xorInto (replicate (maxLen (span.indices.map s.payloadAt)) 0) (s.payloadAt j) := by
    show received.foldl xorInto (((span.indices.map s.packetAt).map Prod.snd).foldl xorInto
      (replicate (maxLen ((span.indices.map s.packetAt).map Prod.snd)) 0)) = _
    rw [payloads_of_span, parity_xorInto.recover hperm]
  have hlen : (xorLengths 0 (s.payloadAt j)).toNat = (s.payloadAt j).length := by
    rw [xorLengths, UInt16.zero_xor, lengthField, SeqNum.toNat_ofNat, mod_eq_of_lt hshort]
  have hmax : (s.payloadAt j).length ≤ maxLen (span.indices.map s.payloadAt) := by
    rw [maxLen, foldl_eq_foldr]
    exact le_max_of_le' 0 (mem_map_of_mem (hperm.mem_iff.mpr mem_cons_self)) (le_refl _)
  rw [hlengths, hpayload, hlen, resize, if_pos (by simpa using hmax), xorInto_zeros hmax, take_left]

/-- The slot that `find` gives is the one of the missing packet. -/
theorem findIdx_slotsFor {j : Nat} (h : missingOf arrived span = [j]) :
    (s.slotsFor arrived span).findIdx? Option.isNone = some (j - span.start) := by
  have hmissing : ∀ i, i ∈ span.indices ∧ i ∉ arrived ↔ i = j := by
    intro i
    rw [← mem_singleton, ← h, missingOf, mem_filter, decide_eq_true_iff]
  obtain ⟨hj, hjnot⟩ := (hmissing j).mpr rfl
  obtain ⟨hlow, hhigh⟩ := Span.mem_indices.mp hj
  have hlength := s.length_slotsFor arrived span
  have hslot : ∀ m, (hm : m < (s.slotsFor arrived span).length) →
      (s.slotsFor arrived span)[m] =
        if span.start + m ∈ arrived then some (s.packetAt (span.start + m)) else none := by
    intro m hm
    simp [slotsFor, Span.indices]
  rw [findIdx?_eq_some_iff_getElem]
  refine ⟨by omega, ?_, ?_⟩
  · rw [hslot, Nat.add_sub_cancel' hlow, if_neg hjnot]
    rfl
  · intro m hm
    rw [hslot]
    by_cases harrived : span.start + m ∈ arrived
    · simp [harrived]
    · have := (hmissing (span.start + m)).mp ⟨Span.mem_indices.mpr (by omega), harrived⟩
      omega

theorem tryRecover_sound {g : FecGroup}
    (hslots : g.mediaPackets = s.slotsFor arrived span) (hfecs : ∀ fec ∈ g.fecPackets, fec = s.fecOf span)
    (hshort : ∀ i ∈ span.indices, (s.payloadAt i).length < 2 ^ 16) {payload : Bytes}
    (h : g.tryRecover = some payload) :
    ∃ j ∈ span.indices, j ∉ arrived ∧ payload = s.payloadAt j ∧
      g.mediaPackets.findIdx? Option.isNone = some (j - span.start) ∧
      g.fecPackets.head?.map FecPacket.snBase = some (s.fecOf span).snBase := by
  rw [FecGroup.tryRecover, hslots, countP_slotsFor] at h
  split at h
  · cases h
  · next hone =>
      obtain ⟨j, hj⟩ := length_eq_one_iff.mp (not_not.mp hone)
      have hmem : j ∈ missingOf arrived span := by
        rw [hj]
        exact mem_singleton.mpr rfl
      obtain ⟨hindex, hnot⟩ := mem_filter.mp hmem
      cases hfec : g.fecPackets with
      | nil =>
        rw [hfec] at h
        cases h
      | cons fec rest =>
        obtain rfl : fec = s.fecOf span := hfecs fec (by rw [hfec]; exact mem_cons_self)
        rw [hfec] at h
        have hreceived : g.received = (span.indices.filter fun i => decide (i ∈ arrived)).map s.payloadAt := by
          rw [FecGroup.received, hslots, filterMap_slotsFor]
        have hpayload := s.recover_payload hj (hshort j hindex) g.received hreceived
        refine ⟨j, hindex, by simpa using hnot, (Option.some.inj h).symm.trans hpayload, ?_, rfl⟩
        rw [hslots, s.findIdx_slotsFor hj]

end Sender

end LingVoice.LmTransport

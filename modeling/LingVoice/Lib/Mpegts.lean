import LingVoice.Lib.Bytes
import Mathlib.Data.List.Chain
import Mathlib.Data.List.Range
import Mathlib.Data.List.TakeDrop

/-!
# Mpegts — MPEG transport stream packets

Readings of the fixed fields of a 188-byte packet, `Carries` for "this packet has these fields and this
payload", and `Counted` for the continuity counters of a sequence of packets.
-/

namespace LingVoice.Lib.Mpegts

open List

/-! ## Fields of a packet -/

def sync (p : Bytes) : UInt8 := p.getD 0 0

/-- payload_unit_start_indicator -/
def pusi (p : Bytes) : Bool := p.getD 1 0 &&& 0x40 != 0

def pid (p : Bytes) : UInt16 := (p.getD 1 0 &&& 0x1F).toUInt16 <<< 8 ||| (p.getD 2 0).toUInt16

/-- adaptation_field_control -/
def afc (p : Bytes) : UInt8 := (p.getD 3 0 >>> 4) &&& 0x03

/-- continuity_counter -/
def cc (p : Bytes) : UInt8 := p.getD 3 0 &&& 0x0F

/-- adaptation_field_length, when there is an adaptation field -/
def adaptationLength (p : Bytes) : Nat := (p.getD 4 0).toNat

def payloadOffset (p : Bytes) : Nat :=
  if afc p = 2 ∨ afc p = 3 then 5 + adaptationLength p else 4

def payload (p : Bytes) : Bytes := p.drop (payloadOffset p)

/-- A packet a decoder can take apart: right size, sync byte, a payload, and an adaptation field
that ends before it. -/
structure Valid (p : Bytes) : Prop where
  length : p.length = 188
  sync : sync p = 0x47
  control : afc p = 1 ∨ afc p = 3
  inside : afc p = 3 → 5 + adaptationLength p < 188

structure Carries (p : Bytes) (start : Bool) (id : UInt16) (control counter : UInt8)
    (data : Bytes) : Prop where
  length : p.length = 188
  sync : sync p = 0x47
  pusi : pusi p = start
  pid : pid p = id
  afc : afc p = control
  cc : cc p = counter
  payload : payload p = data
  inside : payloadOffset p < 188

variable {control : UInt8} {ps : List Bytes}

theorem Carries.valid {p : Bytes} {start : Bool} {id : UInt16} {counter : UInt8}
    {data : Bytes} (h : Carries p start id control counter data)
    (hcontrol : control = 1 ∨ control = 3) : Valid p := by
  refine ⟨h.length, h.sync, ?_, ?_⟩
  · rw [h.afc]
    exact hcontrol
  · intro hthree
    have hinside := h.inside
    simpa [payloadOffset, hthree] using hinside

theorem ne_two_of_payload (h : control = 1 ∨ control = 3) : control ≠ 2 := by
  rcases h with rfl | rfl
  · decide
  · decide

/-- A packet from its parts: four header bytes, an adaptation field, if the control bits announce it, and a payload. -/
theorem carries_of_parts {b1 b2 b3 : UInt8} {field data : Bytes}
    (hfill : field.length + data.length = 184) (hdata : data ≠ [])
    (hfield : ((b3 >>> 4) &&& 0x03 = 3 ∧ ∃ body, field = UInt8.ofNat body.length :: body) ∨
      (((b3 >>> 4) &&& 0x03 = 0 ∨ (b3 >>> 4) &&& 0x03 = 1) ∧ field = [])) :
    Carries ([0x47, b1, b2, b3] ++ field ++ data) (b1 &&& 0x40 != 0)
      ((b1 &&& 0x1F).toUInt16 <<< 8 ||| b2.toUInt16) ((b3 >>> 4) &&& 0x03) (b3 &&& 0x0F) data := by
  have hlen : 0 < data.length := length_pos_iff.2 hdata
  have hafc : afc ([0x47, b1, b2, b3] ++ field ++ data) = (b3 >>> 4) &&& 0x03 := rfl
  -- the payload starts behind the header and the whole adaptation field
  have hoffset : payloadOffset ([0x47, b1, b2, b3] ++ field ++ data) = 4 + field.length := by
    rcases hfield with ⟨hthree, body, rfl⟩ | ⟨hnone, rfl⟩
    · have hbody : body.length < 256 := by
        simp only [length_cons] at hfill
        omega
      have hcount : (UInt8.ofNat body.length).toNat = body.length := by
        rw [UInt8.toNat_ofNat', Nat.mod_eq_of_lt hbody]
      have hlength : adaptationLength ([0x47, b1, b2, b3] ++ (UInt8.ofNat body.length :: body) ++ data) =
          body.length := hcount
      rw [payloadOffset, hafc, hthree, if_pos (.inr rfl), hlength, length_cons]
      omega
    · have hno : ¬ ((b3 >>> 4) &&& 0x03 = 2 ∨ (b3 >>> 4) &&& 0x03 = 3) := by
        rcases hnone with h0 | h1
        · rw [h0]
          decide
        · rw [h1]
          decide
      rw [payloadOffset, hafc, if_neg hno]
      rfl
  refine ⟨?_, rfl, rfl, rfl, rfl, rfl, ?_, ?_⟩
  · simp only [length_append, length_cons, length_nil]
    omega
  · rw [payload, hoffset]
    apply drop_left'
    simp only [length_append, length_cons, length_nil]
  · rw [hoffset]
    omega

/-! ## Continuity counters -/

/-- From one packet to the next of the same PID the counter goes up by one, modulo 16. -/
def Continuous (packets : List Bytes) : Prop :=
  ∀ id, ((packets.filter (fun p => pid p == id)).map cc).IsChain
    (fun a b => b.toNat = (a.toNat + 1) % 16)

/-- The packets count on from `before` to `after`, PID by PID. -/
structure Counted (before : UInt16 → Nat) (packets : List Bytes) (after : UInt16 → Nat) :
    Prop where
  cc : ∀ id, (packets.filter (fun p => pid p == id)).map cc =
    (List.range (packets.filter (fun p => pid p == id)).length).map
      (fun i => UInt8.ofNat ((before id + i) % 16))
  after : ∀ id, after id % 16 = (before id + (packets.filter (fun p => pid p == id)).length) % 16

namespace Counted

variable {a b c : UInt16 → Nat} {ps qs : List Bytes}

theorem nil (a : UInt16 → Nat) : Counted a [] a := by
  refine ⟨?_, ?_⟩
  · intro id
    rfl
  · intro id
    rfl

theorem append (h1 : Counted a ps b) (h2 : Counted b qs c) : Counted a (ps ++ qs) c := by
  refine ⟨?_, ?_⟩
  · intro id
    have hmid := h1.after id
    rw [filter_append, map_append, h1.cc id, h2.cc id, length_append, range_add, map_append, map_map]
    congr 1
    apply map_congr_left
    -- the second part counts on from where the first ended
    intro i _
    simp only [Function.comp_apply]
    congr 1
    omega
  · intro id
    have hmid := h1.after id
    have hend := h2.after id
    rw [filter_append, length_append]
    omega

theorem singleton {p : Bytes} (hcc : Mpegts.cc p = UInt8.ofNat (a (pid p) % 16))
    (hself : b (pid p) % 16 = (a (pid p) + 1) % 16) (hothers : ∀ id, id ≠ pid p → b id = a id) : Counted a [p] b := by
  refine ⟨?_, ?_⟩
  · intro id
    -- on another PID the packet is filtered out and nothing has moved
    by_cases hid : pid p = id
    · subst hid
      simp [hcc]
    · simp [hid]
  · intro id
    by_cases hid : pid p = id
    · subst hid
      simp [hself]
    · simp [hid, hothers id (Ne.symm hid)]

/-- A counter that is kept as a byte, of which the packet shows the low four bits. -/
theorem of_carries {p data : Bytes} {start : Bool} {id : UInt16} {control counter : UInt8}
    (h : Carries p start id control (counter &&& 0x0F) data) (hself : a id = counter.toNat)
    (hnext : b id % 16 = (counter.toNat + 1) % 16) (hothers : ∀ id', id' ≠ id → b id' = a id') : Counted a [p] b := by
  have hmask : counter &&& 0x0F = UInt8.ofNat (counter.toNat % 16) := by
    apply UInt8.toNat_inj.1
    have hlow : (0x0F : UInt8).toNat = 2 ^ 4 - 1 := rfl
    rw [UInt8.toNat_and, hlow, Nat.and_two_pow_sub_one_eq_mod, UInt8.toNat_ofNat']
    omega
  apply singleton
  · rw [h.cc, h.pid, hself, hmask]
  · rw [h.pid, hself, hnext]
  · rw [h.pid]
    exact hothers

theorem isChain_counts (start n : Nat) :
    ((List.range n).map (fun i => UInt8.ofNat ((start + i) % 16))).IsChain
      (fun a b => b.toNat = (a.toNat + 1) % 16) := by
  rw [isChain_map, isChain_range]
  intro i _
  have hlt : ∀ k, (UInt8.ofNat (k % 16)).toNat = k % 16 := by
    intro k
    rw [UInt8.toNat_ofNat', Nat.mod_eq_of_lt (by omega)]
  rw [hlt, hlt]
  omega

theorem continuous (h : Counted a ps b) : Continuous ps := by
  intro id
  rw [h.cc id]
  exact isChain_counts _ _

end Counted

/-! ## Cutting a byte string into packets -/

def packetsAux : Nat → Bytes → List Bytes
  | 0, _ => []
  | n + 1, bytes => if bytes = [] then [] else bytes.take 188 :: packetsAux n (bytes.drop 188)

def packets (bytes : Bytes) : List Bytes :=
  packetsAux bytes.length bytes

theorem length_flatten (hlen : ∀ p ∈ ps, p.length = 188) : ps.flatten.length = 188 * ps.length := by
  induction ps with
  | nil => rfl
  | cons p ps ih =>
    rw [forall_mem_cons] at hlen
    rw [flatten_cons, length_append, hlen.1, ih hlen.2, length_cons]
    omega

theorem packetsAux_flatten (hlen : ∀ p ∈ ps, p.length = 188) (n : Nat)
    (hn : ps.length ≤ n) : packetsAux n ps.flatten = ps := by
  induction ps generalizing n with
  | nil =>
    cases n with
    | zero => rfl
    | succ n => simp [packetsAux]
  | cons p ps ih =>
    rw [forall_mem_cons] at hlen
    cases n with
    | zero => simp at hn
    | succ n =>
      -- a first packet is there, so the string is not at its end
      have hne : (p :: ps).flatten ≠ [] := by
        intro hnil
        have hzero := congrArg List.length hnil
        simp only [flatten_cons, length_append, length_nil] at hzero
        omega
      rw [packetsAux, if_neg hne, flatten_cons, take_left' hlen.1, drop_left' hlen.1, ih hlen.2 n (by simpa using hn)]

theorem packets_flatten (hlen : ∀ p ∈ ps, p.length = 188) : packets ps.flatten = ps := by
  apply packetsAux_flatten hlen
  rw [length_flatten hlen]
  omega

/-- A byte string that is a sequence of valid packets with running counters. -/
structure ValidStream (bytes : Bytes) : Prop where
  valid : ∀ p ∈ packets bytes, Valid p
  continuous : Continuous (packets bytes)

end LingVoice.Lib.Mpegts

import LingVoice.LmTransport.FecGroup
import Mathlib.Data.List.Flatten
import Mathlib.Data.List.Pairwise

/-!
# FecSoundness — what the decoder returns over a whole run

Packets and FEC packets of a sender reach the decoder in any order, several times or not at all.  The decoder
knows them by their 16-bit numbers only and keeps them for ever.  As long as no two different packets that it
has heard of share a number, every payload that it returns is one that was sent and has not arrived.
-/

namespace LingVoice.LmTransport

open Lib List FecDecoder LingVoice.LmTransport.Span

/-! ## Runs -/

inductive Delivery
  | media (i : Nat)
  | fec (k : Nat)
  deriving DecidableEq, Repr

/-- An order in which a hash map is visited. -/
structure HashOrder where
  visit : List (UInt16 × FecGroup) → List (UInt16 × FecGroup)
  perm : ∀ groups, (visit groups).Perm groups

def HashOrder.same : HashOrder :=
  ⟨id, fun _ => List.Perm.refl _⟩

/-- A delivery, and the order of the groups at that time. -/
structure Arrival where
  delivery : Delivery
  order : HashOrder

/-- What the call for a delivery returned. -/
inductive Recovered
  | media (payload : Option Bytes)
  | fec (packet : Option MediaPacket)
  deriving DecidableEq, Repr

def receiveFec (s : Sender) (fecs : List FecPacket) (d : FecDecoder) (a : Arrival) : FecDecoder × Recovered :=
  let d := { d with groups := a.order.visit d.groups }
  match a.delivery with
  | .media i =>
    let (d, payload) := d.addMediaPacket (s.packetAt i)
    (d, .media payload)
  | .fec k =>
    match fecs[k]? with
    | none => (d, .fec none)
    | some fec =>
      let (d, packet) := d.addFecPacket fec
      (d, .fec packet)

def mediaOf (past : List Delivery) : List Nat :=
  past.filterMap fun
    | .media i => some i
    | .fec _ => none

def spansIn (spans : List Span) (past : List Delivery) : List Span :=
  past.filterMap fun
    | .media _ => none
    | .fec k => spans[k]?

/-- The packets that the decoder has heard of. -/
def touched (spans : List Span) (past : List Delivery) : List Nat :=
  mediaOf past ++ (spansIn spans past).flatMap Span.indices

/-- No two packets that the decoder hears of share a number, and the lengths of those that it may have to
recover fit the length field. -/
structure Unambiguous (s : Sender) (spans : List Span) (past : List Delivery) : Prop where
  numbers : ∀ i ∈ touched spans past, ∀ j ∈ touched spans past, s.seqAt i = s.seqAt j → i = j
  lengths : ∀ span ∈ spansIn spans past, ∀ i ∈ span.indices, (s.payloadAt i).length < 2 ^ 16

/-- A recovered packet was sent and is not among those delivered; with its number if there is one. -/
def Recovered.Sound (s : Sender) (past : List Delivery) : Recovered → Prop
  | .media payload =>
    ∀ bytes ∈ payload, ∃ j < s.payloads.length, j ∉ mediaOf past ∧ bytes = s.payloadAt j
  | .fec packet =>
    ∀ p ∈ packet, ∃ j < s.payloads.length, j ∉ mediaOf past ∧ p = s.packetAt j

/-! ## Slots -/

namespace Sender

variable (s : Sender)

variable {arrived : List Nat} {span : Span}

theorem slotsFor_congr {other : List Nat}
    (h : ∀ i ∈ span.indices, i ∈ arrived ↔ i ∈ other) : s.slotsFor arrived span = s.slotsFor other span := by
  refine map_congr_left fun i hi => ?_
  simp only [h i hi]

theorem slotsFor_getElem? (arrived : List Nat) (span : Span) (o : Nat) :
    (s.slotsFor arrived span)[o]? =
      if o < span.len then
        some (if span.start + o ∈ arrived then some (s.packetAt (span.start + o)) else none)
      else none := by
  rw [slotsFor, getElem?_map, indices]
  split
  next hlt =>
    rw [getElem?_range' hlt, Nat.one_mul]
    rfl
  next hge =>
    rw [getElem?_eq_none (by rw [length_range']; omega)]
    rfl

theorem toNat_seqAt_sub {i j : Nat} (hle : i ≤ j) (hlt : j - i < 2 ^ 16) : (s.seqAt j - s.seqAt i).toNat = j - i := by
  rw [seqAt, seqAt, SeqNum.toNat_sub_of_le (by omega) (by omega)]
  omega

/-- The free slot that a number leads to is the one of its packet, if no other packet of the span has the
number. -/
theorem hasSlot_iff {i : Nat} (hlen : span.len ≤ 256) (hnumbers : ∀ j ∈ span.indices, s.seqAt i = s.seqAt j → i = j) :
    HasSlot (s.seqAt span.start) (s.slotsFor arrived span) (s.packetAt i).1 ↔ i ∈ span.indices ∧ i ∉ arrived := by
  show HasSlot _ _ (s.seqAt i) ↔ _
  rw [HasSlot, slotsFor_getElem?]
  constructor
  · rintro ⟨-, hslot⟩
    split at hslot
    next hlt =>
      have hsame : s.seqAt i = s.seqAt (span.start + (s.seqAt i - s.seqAt span.start).toNat) := by
        rw [seqAt_add, UInt16.ofNat_toNat, UInt16.add_comm, UInt16.sub_add_cancel]
      have hmem : span.start + (s.seqAt i - s.seqAt span.start).toNat ∈ span.indices :=
        mem_indices.mpr (by omega)
      rw [← hnumbers _ hmem hsame] at hslot hmem
      refine ⟨hmem, fun harrived => ?_⟩
      rw [if_pos harrived] at hslot
      cases hslot
    next =>
      cases hslot
  · rintro ⟨hmem, hnot⟩
    obtain ⟨hlow, hhigh⟩ := mem_indices.mp hmem
    have hoffset := s.toNat_seqAt_sub hlow (by omega)
    have hbyte : (256 : UInt16).toNat = 256 := rfl
    rw [UInt16.lt_iff_toNat_lt, hoffset, if_pos (by omega), Nat.add_sub_cancel' hlow, if_neg hnot]
    exact ⟨by omega, rfl⟩

theorem fillSlot_eq {i : Nat} (hlen : span.len ≤ 256) (hmem : i ∈ span.indices) :
    fillSlot (s.seqAt span.start) (s.slotsFor arrived span) (s.packetAt i) = s.slotsFor (arrived ++ [i]) span := by
  obtain ⟨hlow, hhigh⟩ := mem_indices.mp hmem
  have hoffset := s.toNat_seqAt_sub hlow (by omega)
  refine ext_getElem? fun o => ?_
  show ((s.slotsFor arrived span).set (s.seqAt i - s.seqAt span.start).toNat (some (s.packetAt i)))[o]? = _
  rw [hoffset, getElem?_set, slotsFor_getElem?, slotsFor_getElem?]
  by_cases ho : i - span.start = o
  · subst ho
    have hlength := s.length_slotsFor arrived span
    rw [if_pos rfl, if_pos (by omega), if_pos (by omega), Nat.add_sub_cancel' hlow, if_pos (by simp)]
  · have hiff : span.start + o ∈ arrived ++ [i] ↔ span.start + o ∈ arrived := by
      rw [mem_append, mem_singleton, or_iff_left (by omega)]
    rw [if_neg ho]
    simp only [hiff]

/-- The pending packets of a span go to its slots; the others stay. -/
theorem fillPending_eq (hlen : span.len ≤ 256) (waiting arrived : List Nat)
    (hnumbers : ∀ i ∈ waiting, ∀ j ∈ span.indices, s.seqAt i = s.seqAt j → i = j) :
    ∃ still, fillPending (s.seqAt span.start) (waiting.map s.packetAt) (s.slotsFor arrived span) =
        (s.slotsFor (arrived ++ waiting) span, still.map s.packetAt) ∧
      still ⊆ waiting ∧ ∀ i ∈ waiting, i ∉ span.indices → i ∈ still := by
  induction waiting generalizing arrived with
  | nil => exact ⟨[], by rw [append_nil]; rfl, Subset.refl _, by simp⟩
  | cons i waiting ih =>
    obtain ⟨hi, hrest⟩ := forall_mem_cons.mp hnumbers
    have hslot : HasSlot (s.seqAt span.start) (s.slotsFor arrived span) (s.packetAt i).1 ↔ _ :=
      s.hasSlot_iff hlen hi
    rw [map_cons, fillPending]
    by_cases hfree : i ∈ span.indices ∧ i ∉ arrived
    · obtain ⟨still, heq, hsub, hstay⟩ := ih (arrived ++ [i]) hrest
      rw [if_pos (hslot.mpr hfree), s.fillSlot_eq hlen hfree.1, heq, append_assoc, singleton_append]
      refine ⟨still, rfl, fun j hj => mem_cons_of_mem _ (hsub hj), fun j hj hnot => ?_⟩
      rcases mem_cons.mp hj with rfl | hj
      · exact absurd hfree.1 hnot
      · exact hstay j hj hnot
    · obtain ⟨still, heq, hsub, hstay⟩ := ih arrived hrest
      -- the packet is of another span, or there already
      have hsame : s.slotsFor (arrived ++ waiting) span = s.slotsFor (arrived ++ i :: waiting) span := by
        refine s.slotsFor_congr fun j hj => ?_
        simp only [mem_append, mem_cons]
        refine ⟨Or.imp_right Or.inr, ?_⟩
        rintro (h | rfl | h)
        · exact Or.inl h
        · exact Or.inl (not_not.mp fun hnot => hfree ⟨hj, hnot⟩)
        · exact Or.inr h
      rw [if_neg (mt hslot.mp hfree), heq, hsame]
      refine ⟨i :: still, rfl, cons_subset_cons _ hsub, fun j hj hnot => ?_⟩
      rcases mem_cons.mp hj with rfl | hj
      · exact mem_cons_self
      · exact mem_cons_of_mem _ (hstay j hj hnot)

end Sender

/-! ## The loop over the groups -/

namespace FecDecoder

def visited (packet : MediaPacket) (entry : UInt16 × FecGroup) : UInt16 × FecGroup :=
  (entry.1, (placeInGroup packet entry).getD entry.2)

section Loop

variable (packet : MediaPacket) (groups : List (UInt16 × FecGroup)) (placed : Bool) (recovered : Option Bytes)

/-- The packet is placed when some group has a free slot for it, and what is recovered comes from such a group. -/
theorem placeLoop_spec :
    (placeLoop packet groups placed recovered).1 = groups.map (visited packet) ∧
      ((placeLoop packet groups placed recovered).2.1 = true ↔
        placed = true ∨ ∃ entry ∈ groups, (placeInGroup packet entry).isSome) ∧
      ∀ payload ∈ (placeLoop packet groups placed recovered).2.2, recovered = some payload ∨
        ∃ entry ∈ groups, ∃ group, placeInGroup packet entry = some group ∧ group.tryRecover = some payload := by
  induction groups generalizing placed recovered with
  | nil => simp [placeLoop]
  | cons entry groups ih =>
    rw [placeLoop, map_cons, visited]
    cases hplace : placeInGroup packet entry with
    | none => simpa [hplace] using ih placed recovered
    | some group =>
      obtain ⟨hgroups, hplaced, hrecovered⟩ := ih true (group.tryRecover.or recovered)
      refine ⟨congrArg ((entry.1, group) :: ·) hgroups, by simpa [hplace] using hplaced, fun payload h => ?_⟩
      rcases hrecovered payload h with h | ⟨other, hother, hrec⟩
      · rcases Option.or_eq_some_iff.mp h with h | ⟨-, h⟩
        · exact Or.inr ⟨entry, mem_cons_self, group, hplace, h⟩
        · exact Or.inl h
      · exact Or.inr ⟨other, mem_cons_of_mem _ hother, hrec⟩

end Loop

theorem addMediaPacket_eq (d : FecDecoder) (packet : MediaPacket) :
    d.addMediaPacket packet =
      ({ groups := (placeLoop packet d.groups false none).1
         pendingMedia := if (placeLoop packet d.groups false none).2.1 then d.pendingMedia
           else d.pendingMedia ++ [packet] }, (placeLoop packet d.groups false none).2.2) :=
  rfl

end FecDecoder

/-! ## What was delivered -/

section Past

variable {spans : List Span} {past : List Delivery}

theorem mediaOf_media (i : Nat) : mediaOf (past ++ [.media i]) = mediaOf past ++ [i] := by
  rw [mediaOf, filterMap_append]
  rfl

theorem mediaOf_fec (k : Nat) : mediaOf (past ++ [.fec k]) = mediaOf past := by
  rw [mediaOf, filterMap_append]
  exact append_nil _

theorem spansIn_media (i : Nat) : spansIn spans (past ++ [.media i]) = spansIn spans past := by
  rw [spansIn, filterMap_append]
  exact append_nil _

variable {span : Span} {i : Nat}

theorem spansIn_fec {k : Nat} (h : spans[k]? = some span) :
    spansIn spans (past ++ [.fec k]) = spansIn spans past ++ [span] := by
  rw [spansIn, filterMap_append]
  refine congrArg (_ ++ ·) ?_
  simp [h]

theorem mem_spansIn_fec (past : List Delivery) {k : Nat} (h : spans[k]? = some span) :
    span ∈ spansIn spans (past ++ [.fec k]) := by
  rw [spansIn_fec h]
  exact mem_concat_self

theorem mem_spans_of_mem (h : span ∈ spansIn spans past) : span ∈ spans := by
  obtain ⟨delivery, -, hspan⟩ := mem_filterMap.mp h
  cases delivery with
  | media i => cases hspan
  | fec k => exact mem_of_getElem? hspan

theorem touched_media (h : i ∈ mediaOf past) : i ∈ touched spans past :=
  mem_append_left _ h

theorem touched_span (hspan : span ∈ spansIn spans past) (h : i ∈ span.indices) : i ∈ touched spans past :=
  mem_append_right _ (mem_flatMap_of_mem hspan h)

theorem Unambiguous.of_append {s : Sender} {after : List Delivery}
    (h : Unambiguous s spans (past ++ after)) : Unambiguous s spans past := by
  have hpast : past <+ past ++ after := sublist_append_left past after
  have hspans : spansIn spans past <+ spansIn spans (past ++ after) := hpast.filterMap _
  have htouched : touched spans past ⊆ touched spans (past ++ after) :=
    ((hpast.filterMap _).append (hspans.flatMap _)).subset
  exact ⟨fun i hi j hj => h.numbers i (htouched hi) j (htouched hj),
    fun span hspan => h.lengths span (hspans.subset hspan)⟩

end Past

theorem Spaced.eq_of_common {start : Nat} {spans : List Span} (h : Spaced start spans) {a b : Span} (ha : a ∈ spans)
    (hb : b ∈ spans) {i : Nat} (hia : i ∈ a.indices) (hib : i ∈ b.indices) : a = b := by
  have hpairs : spans.Pairwise fun a b => a.start + a.len ≤ b.start ∨ b.start + b.len ≤ a.start :=
    h.ordered.imp Or.inl
  have hsymm : Std.Symm fun a b : Span => a.start + a.len ≤ b.start ∨ b.start + b.len ≤ a.start :=
    ⟨fun _ _ => Or.symm⟩
  by_contra hne
  have hapart := hpairs.forall ha hb hne
  have := mem_indices.mp hia
  have := mem_indices.mp hib
  omega

/-! ## The decoder knows what was delivered -/

structure GroupOf (s : Sender) (arrived : List Nat) (span : Span) (entry : UInt16 × FecGroup) : Prop where
  base : entry.1 = s.seqAt span.start
  slots : entry.2.mediaPackets = s.slotsFor arrived span
  fecs : ∀ fec ∈ entry.2.fecPackets, fec = s.fecOf span

/-- A group for each span that was delivered, with the packets of the span that were, and the packets that
belong to no such span among the pending ones. -/
structure Tracks (s : Sender) (spans : List Span) (past : List Delivery) (d : FecDecoder) : Prop where
  entries : ∀ entry ∈ d.groups, ∃ span ∈ spansIn spans past, GroupOf s (mediaOf past) span entry
  known : ∀ span ∈ spansIn spans past, ∃ entry ∈ d.groups, entry.1 = s.seqAt span.start
  waiting : ∃ waiting, d.pendingMedia = waiting.map s.packetAt ∧ waiting ⊆ mediaOf past ∧
    ∀ i ∈ mediaOf past, (∀ span ∈ spansIn spans past, i ∉ span.indices) → i ∈ waiting

/-- The spans of a sender. -/
structure Layout (s : Sender) (spans : List Span) : Prop where
  spaced : Spaced 0 spans
  sent : ∀ span ∈ spans, span.start + span.len ≤ s.payloads.length

section Steps

variable {s : Sender} {spans : List Span} {past : List Delivery} {d : FecDecoder}

theorem tracks_new : Tracks s spans [] new :=
  ⟨by simp [new], by simp [spansIn], [], rfl, Subset.refl _, by simp [mediaOf]⟩

theorem Tracks.reorder (h : Tracks s spans past d) (order : HashOrder) :
    Tracks s spans past { d with groups := order.visit d.groups } := by
  refine ⟨fun entry hentry => h.entries entry ((order.perm _).mem_iff.mp hentry), fun span hspan => ?_, h.waiting⟩
  obtain ⟨entry, hentry, hbase⟩ := h.known span hspan
  exact ⟨entry, (order.perm _).mem_iff.mpr hentry, hbase⟩

variable {arrived : List Nat} {span : Span} {entry : UInt16 × FecGroup}

theorem placeInGroup_of_groupOf {i : Nat} (h : GroupOf s arrived span entry) (hlen : span.len ≤ 256)
    (hnumbers : ∀ j ∈ span.indices, s.seqAt i = s.seqAt j → i = j) :
    placeInGroup (s.packetAt i) entry =
      if i ∈ span.indices ∧ i ∉ arrived then
        some { entry.2 with mediaPackets := s.slotsFor (arrived ++ [i]) span }
      else none := by
  have hslot : HasSlot (s.seqAt span.start) (s.slotsFor arrived span) (s.packetAt i).1 ↔ _ :=
    s.hasSlot_iff hlen hnumbers
  rw [placeInGroup, h.base, h.slots]
  by_cases hfree : i ∈ span.indices ∧ i ∉ arrived
  · rw [if_pos (hslot.mpr hfree), if_pos hfree, s.fillSlot_eq hlen hfree.1]
  · rw [if_neg (mt hslot.mp hfree), if_neg hfree]

theorem groupOf_visited {i : Nat} (h : GroupOf s arrived span entry) (hlen : span.len ≤ 256)
    (hnumbers : ∀ j ∈ span.indices, s.seqAt i = s.seqAt j → i = j) :
    GroupOf s (arrived ++ [i]) span (visited (s.packetAt i) entry) := by
  rw [visited, placeInGroup_of_groupOf h hlen hnumbers]
  by_cases hfree : i ∈ span.indices ∧ i ∉ arrived
  · rw [if_pos hfree]
    exact ⟨h.base, rfl, h.fecs⟩
  · rw [if_neg hfree]
    refine ⟨h.base, h.slots.trans (s.slotsFor_congr fun j hj => ?_), h.fecs⟩
    rw [mem_append, mem_singleton]
    refine ⟨Or.inl, ?_⟩
    rintro (harrived | rfl)
    · exact harrived
    · exact not_not.mp fun hnot => hfree ⟨hj, hnot⟩

variable (hlayout : Layout s spans)

include hlayout

/-- What a group recovers was sent and did not arrive. -/
theorem Layout.recovered (hspan : span ∈ spans)
    (h : GroupOf s arrived span entry) (hlengths : ∀ i ∈ span.indices, (s.payloadAt i).length < 2 ^ 16)
    {payload : Bytes} (hrecover : entry.2.tryRecover = some payload) :
    ∃ j < s.payloads.length, j ∉ arrived ∧ payload = s.payloadAt j ∧
      entry.2.tryRecoverWithSeq = some (s.packetAt j) := by
  obtain ⟨j, hj, hnot, hpayload, hidx, hbase⟩ := s.tryRecover_sound h.slots h.fecs hlengths hrecover
  obtain ⟨hlow, hhigh⟩ := mem_indices.mp hj
  have hsent := hlayout.sent span hspan
  have hpos := (hlayout.spaced.bounds span hspan).2.1
  refine ⟨j, by omega, hnot, hpayload, ?_⟩
  have hseq : s.seqAt span.start + UInt16.ofNat (j - span.start) = s.seqAt j := by
    rw [← s.seqAt_add, Nat.add_sub_cancel' hlow]
  simp only [FecGroup.tryRecoverWithSeq, hrecover, hidx, hbase, Option.getD_some, Option.map_some,
    s.snBase_fecOf hpos, hseq, hpayload]
  rfl

namespace Tracks

variable (h : Tracks s spans past d)

include h

/-- The step lemma for a media packet. -/
theorem media {i : Nat} (hclear : Unambiguous s spans (past ++ [.media i])) :
    Tracks s spans (past ++ [.media i]) (d.addMediaPacket (s.packetAt i)).1 ∧
      (Recovered.media (d.addMediaPacket (s.packetAt i)).2).Sound s (past ++ [.media i]) := by
  have hlen : ∀ span ∈ spansIn spans past, span.len ≤ 256 := fun span hspan =>
    (hlayout.spaced.bounds span (mem_spans_of_mem hspan)).2.2
  have hnumbers : ∀ span ∈ spansIn spans past, ∀ j ∈ span.indices, s.seqAt i = s.seqAt j → i = j := by
    intro span hspan j hj
    refine hclear.numbers i (touched_media ?_) j (touched_span ?_ hj)
    · rw [mediaOf_media]
      exact mem_concat_self
    · rwa [spansIn_media]
  obtain ⟨waiting, hwaiting, hsub, hcomplete⟩ := h.waiting
  obtain ⟨hgroups, hplaced, hrecovered⟩ := placeLoop_spec (s.packetAt i) d.groups false none
  have hvisited : ∀ entry ∈ d.groups, ∃ span ∈ spansIn spans past,
      GroupOf s (mediaOf past ++ [i]) span (visited (s.packetAt i) entry) := by
    intro entry hentry
    obtain ⟨span, hspan, hgroup⟩ := h.entries entry hentry
    exact ⟨span, hspan, groupOf_visited hgroup (hlen span hspan) (hnumbers span hspan)⟩
  refine ⟨⟨?_, ?_, ?_⟩, ?_⟩
  · rw [mediaOf_media, spansIn_media]
    intro entry hentry
    rw [addMediaPacket_eq, hgroups] at hentry
    obtain ⟨old, hold, rfl⟩ := mem_map.mp hentry
    exact hvisited old hold
  · rw [spansIn_media]
    intro span hspan
    obtain ⟨entry, hentry, hbase⟩ := h.known span hspan
    refine ⟨visited (s.packetAt i) entry, ?_, hbase⟩
    rw [addMediaPacket_eq, hgroups]
    exact mem_map_of_mem hentry
  · rw [mediaOf_media, spansIn_media, addMediaPacket_eq]
    by_cases hfound : (placeLoop (s.packetAt i) d.groups false none).2.1 = true
    · -- a group took the packet, so it is of a span that was delivered
      refine ⟨waiting, by simp only [hfound, if_true]; exact hwaiting,
        fun j hj => mem_append_left _ (hsub hj), fun j hj hnone => ?_⟩
      rcases mem_append.mp hj with hj | hj
      · exact hcomplete j hj hnone
      · obtain rfl := mem_singleton.mp hj
        rcases hplaced.mp hfound with hfalse | ⟨entry, hentry, hsome⟩
        · cases hfalse
        · obtain ⟨span, hspan, hgroup⟩ := h.entries entry hentry
          rw [placeInGroup_of_groupOf hgroup (hlen span hspan) (hnumbers span hspan)] at hsome
          split at hsome
          next hfree => exact absurd hfree.1 (hnone span hspan)
          next => cases hsome
    · refine ⟨waiting ++ [i], ?_, append_subset.mpr ⟨fun j hj => mem_append_left _ (hsub hj),
        fun j hj => mem_append_right _ hj⟩, fun j hj hnone => ?_⟩
      · simp only [hfound]
        rw [map_append, hwaiting]
        rfl
      · rcases mem_append.mp hj with hj | hj
        · exact mem_append_left _ (hcomplete j hj hnone)
        · exact mem_append_right _ hj
  · intro bytes hbytes
    rcases hrecovered bytes hbytes with hnone | ⟨entry, hentry, group, hplace, hrecover⟩
    · cases hnone
    · obtain ⟨span, hspan, hgroup⟩ := hvisited entry hentry
      rw [visited, hplace] at hgroup
      have hlengths := hclear.of_append.lengths span hspan
      obtain ⟨j, hj, hnot, hpayload, -⟩ :=
        hlayout.recovered (mem_spans_of_mem hspan) hgroup hlengths hrecover
      rw [mediaOf_media]
      exact ⟨j, hj, hnot, hpayload⟩

/-- The group that a FEC packet goes to holds packets of its span only; those of the span that it does not
hold, if they arrived, are pending. -/
theorem groupFor {k : Nat} (hspan : spans[k]? = some span) (hclear : Unambiguous s spans (past ++ [.fec k])) :
    ∃ arrived, arrived ⊆ mediaOf past ∧
      (groupFor d.groups (s.seqAt span.start) span.len).mediaPackets = s.slotsFor arrived span ∧
      (∀ fec ∈ (groupFor d.groups (s.seqAt span.start) span.len).fecPackets, fec = s.fecOf span) ∧
      ∀ i ∈ span.indices, i ∈ mediaOf past → i ∉ arrived → ∀ other ∈ spansIn spans past, i ∉ other.indices := by
  have hmem : span ∈ spans := mem_of_getElem? hspan
  have hin := mem_spansIn_fec past hspan
  have hstart : ∀ other ∈ spans, other.start ∈ other.indices := fun other hother =>
    mem_indices.mpr (by have := (hlayout.spaced.bounds other hother).2.1; omega)
  -- an entry under the number of the span is the one of the span
  have hsame : ∀ other ∈ spansIn spans past, s.seqAt other.start = s.seqAt span.start → other = span := by
    intro other hother hbase
    have hother' : other ∈ spansIn spans (past ++ [.fec k]) := by
      rw [spansIn_fec hspan]
      exact mem_append_left _ hother
    have hotherStart := hstart other (mem_spans_of_mem hother)
    have hindex := hclear.numbers _ (touched_span hother' hotherStart) _ (touched_span hin (hstart span hmem)) hbase
    rw [hindex] at hotherStart
    exact hlayout.spaced.eq_of_common (mem_spans_of_mem hother) hmem hotherStart (hstart span hmem)
  rw [FecDecoder.groupFor]
  cases hlookup : d.groups.lookup (s.seqAt span.start) with
  | none =>
    refine ⟨[], nil_subset _, ?_, by simp, fun i hi _ _ other hother hio => ?_⟩
    · show replicate span.len none = span.indices.map _
      rw [← length_indices span, ← map_const']
      rfl
    · obtain rfl := hlayout.spaced.eq_of_common (mem_spans_of_mem hother) hmem hio hi
      obtain ⟨entry, hentry, hbase⟩ := h.known other hother
      have hne := lookup_eq_none_iff.mp hlookup entry hentry
      rw [hbase] at hne
      simp at hne
  | some group =>
    obtain ⟨before, after, hgroups, -⟩ := lookup_eq_some_iff.mp hlookup
    have hentry : (s.seqAt span.start, group) ∈ d.groups := by
      rw [hgroups]
      exact mem_append_right _ mem_cons_self
    obtain ⟨other, hother, hgroup⟩ := h.entries _ hentry
    obtain rfl := hsame other hother hgroup.base.symm
    have hslots : group.mediaPackets = s.slotsFor (mediaOf past) other := hgroup.slots
    have hlength : group.mediaPackets.length = other.len := by
      rw [hslots, s.length_slotsFor]
    refine ⟨mediaOf past, Subset.refl _, ?_, hgroup.fecs, fun i _ harrived hnot => absurd harrived hnot⟩
    show group.mediaPackets ++ replicate (other.len - group.mediaPackets.length) none = _
    rw [hlength, Nat.sub_self, replicate_zero, append_nil, hslots]

/-- The step lemma for a FEC packet. -/
theorem fec {k : Nat} (hspan : spans[k]? = some span) (hclear : Unambiguous s spans (past ++ [.fec k])) :
    Tracks s spans (past ++ [.fec k]) (d.addFecPacket (s.fecOf span)).1 ∧
      (Recovered.fec (d.addFecPacket (s.fecOf span)).2).Sound s (past ++ [.fec k]) := by
  have hmem : span ∈ spans := mem_of_getElem? hspan
  obtain ⟨-, hpos, hlen⟩ := hlayout.spaced.bounds span hmem
  have hin := mem_spansIn_fec past hspan
  obtain ⟨arrived, hsubset, hslots, hfecs, huncovered⟩ := h.groupFor hlayout hspan hclear
  obtain ⟨waiting, hwaiting, hsub, hcomplete⟩ := h.waiting
  have hnumbers : ∀ i ∈ waiting, ∀ j ∈ span.indices, s.seqAt i = s.seqAt j → i = j := by
    intro i hi j hj
    refine hclear.numbers i (touched_media ?_) j (touched_span hin hj)
    rw [mediaOf_fec]
    exact hsub hi
  obtain ⟨still, hfill, hstill, hstay⟩ := s.fillPending_eq hlen waiting arrived hnumbers
  have hfull : s.slotsFor (arrived ++ waiting) span = s.slotsFor (mediaOf past) span := by
    refine s.slotsFor_congr fun i hi => ?_
    rw [mem_append]
    constructor
    · rintro (harrived | hwait)
      · exact hsubset harrived
      · exact hsub hwait
    · intro hmedia
      by_cases harrived : i ∈ arrived
      · exact Or.inl harrived
      · exact Or.inr (hcomplete i hmedia (huncovered i hi hmedia harrived))
  -- the group of the span with all its packets that arrived
  obtain ⟨group, hgroup, hadd⟩ : ∃ group, GroupOf s (mediaOf past) span (s.seqAt span.start, group) ∧
      d.addFecPacket (s.fecOf span) =
        ({ groups := insertGroup d.groups (s.seqAt span.start) group
           pendingMedia := still.map s.packetAt }, group.tryRecoverWithSeq) := by
    refine ⟨⟨s.slotsFor (mediaOf past) span,
      (FecDecoder.groupFor d.groups (s.seqAt span.start) span.len).fecPackets ++ [s.fecOf span]⟩,
      ⟨rfl, rfl, ?_⟩, ?_⟩
    · intro fec hfec
      rcases mem_append.mp hfec with hfec | hfec
      · exact hfecs fec hfec
      · exact mem_singleton.mp hfec
    · simp only [FecDecoder.addFecPacket, s.snBase_fecOf hpos, s.countMaskBits_fecOf, hslots, hwaiting, hfill, hfull]
  rw [hadd]
  refine ⟨⟨?_, ?_, ?_⟩, ?_⟩
  · rw [mediaOf_fec, spansIn_fec hspan]
    intro entry hentry
    rcases mem_append.mp hentry with hentry | hentry
    · obtain ⟨other, hother, hold⟩ := h.entries entry (mem_of_mem_filter hentry)
      exact ⟨other, mem_append_left _ hother, hold⟩
    · rw [mem_singleton.mp hentry]
      exact ⟨span, mem_concat_self, hgroup⟩
  · rw [spansIn_fec hspan]
    intro other hother
    by_cases hkey : s.seqAt other.start = s.seqAt span.start
    · exact ⟨_, mem_concat_self, hkey.symm⟩
    · rcases mem_append.mp hother with hother | hother
      · obtain ⟨entry, hentry, hbase⟩ := h.known other hother
        refine ⟨entry, mem_append_left _ (mem_filter.mpr ⟨hentry, ?_⟩), hbase⟩
        rw [hbase]
        simpa using hkey
      · rw [mem_singleton.mp hother] at hkey
        exact absurd rfl hkey
  · rw [mediaOf_fec, spansIn_fec hspan]
    refine ⟨still, rfl, fun i hi => hsub (hstill hi), fun i hi hnone => ?_⟩
    refine hstay i (hcomplete i hi fun other hother => hnone other (mem_append_left _ hother)) ?_
    exact hnone span (mem_concat_self)
  · intro packet hpacket
    rw [mediaOf_fec]
    have hlengths := hclear.lengths span hin
    cases hrecover : group.tryRecover with
    | none =>
      have hnone : group.tryRecoverWithSeq = none := by
        rw [FecGroup.tryRecoverWithSeq, hrecover]
      rw [hnone] at hpacket
      cases hpacket
    | some payload =>
      obtain ⟨j, hj, hnot, -, hwith⟩ := hlayout.recovered hmem hgroup hlengths hrecover
      have hsome : group.tryRecoverWithSeq = some packet := hpacket
      exact ⟨j, hj, hnot, Option.some.inj (hsome.symm.trans hwith)⟩

theorem receive (a : Arrival) (hclear : Unambiguous s spans (past ++ [a.delivery])) :
    Tracks s spans (past ++ [a.delivery]) (receiveFec s (spans.map s.fecOf) d a).1 ∧
      (receiveFec s (spans.map s.fecOf) d a).2.Sound s (past ++ [a.delivery]) := by
  have hordered := h.reorder a.order
  obtain ⟨delivery, order⟩ := a
  cases delivery with
  | media i => exact hordered.media hlayout hclear
  | fec k =>
    simp only [receiveFec, getElem?_map]
    cases hspan : spans[k]? with
    | none =>
      -- no such packet was sent
      have hnone : spansIn spans (past ++ [.fec k]) = spansIn spans past := by simp [hspan, spansIn]
      refine ⟨⟨?_, ?_, ?_⟩, nofun⟩
      all_goals simp only [mediaOf_fec, hnone]
      · exact hordered.entries
      · exact hordered.known
      · exact hordered.waiting
    | some span => exact hordered.fec hlayout hspan hclear

end Tracks

end Steps

/-! ## Whole runs -/

def fecDecoderAfter (s : Sender) (fecs : List FecPacket) (past : List Arrival) : FecDecoder :=
  (Mealy.run (receiveFec s fecs) FecDecoder.new past).1

theorem layout_senderOf {config : FecConfig} (hl : config.l ≤ 256) (first : UInt16) (calls : List Call) :
    Layout (senderOf first calls) (spansOf config calls) := by
  obtain ⟨hspaced, hsent⟩ := spaced_spansFrom hl calls 0 0 (by omega) (Nat.le_refl _)
  refine ⟨hspaced, fun span hspan => (hsent span hspan).trans ?_⟩
  rw [Nat.zero_add]
  rfl

/-- In every run in which no two packets share a number, each payload that is returned was sent and has not
arrived, and the number that is returned with it is its own. -/
theorem recovered_sound (config : FecConfig) (hl : config.l ≤ 256) (first : UInt16) (calls : List Call)
    (arrivals : List Arrival)
    (hclear : Unambiguous (senderOf first calls) (spansOf config calls) (arrivals.map Arrival.delivery)) :
    ∀ past a after, arrivals = past ++ a :: after →
      (receiveFec (senderOf first calls) (emitted config first calls)
        (fecDecoderAfter (senderOf first calls) (emitted config first calls) past) a).2.Sound
          (senderOf first calls) ((past ++ [a]).map Arrival.delivery) := by
  have hlayout := layout_senderOf hl first calls
  have hbefore : ∀ past a after, arrivals = past ++ a :: after →
      Unambiguous (senderOf first calls) (spansOf config calls)
        (past.map Arrival.delivery ++ [a.delivery]) := by
    intro past a after heq
    rw [heq, map_append, map_cons, ← singleton_append, ← append_assoc] at hclear
    exact hclear.of_append
  have htracks : ∀ past after, arrivals = past ++ after →
      Tracks (senderOf first calls) (spansOf config calls) (past.map Arrival.delivery)
        (fecDecoderAfter (senderOf first calls) (emitted config first calls) past) := by
    refine Mealy.run_history (fun past a after d heq h => ?_) tracks_new
    rw [map_append, emitted_eq]
    exact (h.receive hlayout a (hbefore past a after heq)).1
  intro past a after heq
  have h := htracks past (a :: after) heq
  rw [emitted_eq] at h ⊢
  rw [map_append]
  exact (h.receive hlayout a (hbefore past a after heq)).2

/-- Two packets of a group on both sides of the wrap: the second and the FEC packet give the first. -/
theorem recovered_sound_wrap :
    Unambiguous (senderOf 65535 [.packet [1], .packet [2, 3], .packet [4]])
        (spansOf ⟨2, true⟩ [.packet [1], .packet [2, 3], .packet [4]]) [.media 1, .fec 0] ∧
      (receiveFec (senderOf 65535 [.packet [1], .packet [2, 3], .packet [4]])
        (emitted ⟨2, true⟩ 65535 [.packet [1], .packet [2, 3], .packet [4]])
        (fecDecoderAfter (senderOf 65535 [.packet [1], .packet [2, 3], .packet [4]])
          (emitted ⟨2, true⟩ 65535 [.packet [1], .packet [2, 3], .packet [4]]) [⟨.media 1, HashOrder.same⟩])
        ⟨.fec 0, HashOrder.same⟩).2.Sound (senderOf 65535 [.packet [1], .packet [2, 3], .packet [4]])
          [.media 1, .fec 0] := by
  have hclear : Unambiguous (senderOf 65535 [.packet [1], .packet [2, 3], .packet [4]])
      (spansOf ⟨2, true⟩ [.packet [1], .packet [2, 3], .packet [4]]) [.media 1, .fec 0] :=
    ⟨by decide +kernel, by decide +kernel⟩
  exact ⟨hclear, recovered_sound ⟨2, true⟩ (by decide) 65535 _ [⟨.media 1, HashOrder.same⟩, ⟨.fec 0, HashOrder.same⟩]
    hclear [⟨.media 1, HashOrder.same⟩] ⟨.fec 0, HashOrder.same⟩ [] rfl⟩

/-- When a packet is sent: FEC packets follow the last packet of their span. -/
def Delivery.position (spans : List Span) : Delivery → Nat
  | .media i => i
  | .fec k => ((spans[k]?.map fun span => span.start + span.len).getD 0) - 1

/-- No packet is delayed by `2 ^ 15` packets. -/
def Punctual (spans : List Span) (past : List Delivery) : Prop :=
  past.Pairwise fun a b => a.position spans < b.position spans + 2 ^ 15

def laterCalls (n : Nat) : List Call :=
  .packet [0] :: .packet [1] :: (List.replicate n (.packet [0]) ++ [.packet [2]])

section Later

variable (n : Nat)

theorem payloads_laterCalls : (senderOf 0 (laterCalls n)).payloads = [0] :: [1] :: (replicate n [0] ++ [[2]]) := by
  show (laterCalls n).filterMap Call.payload? = _
  simp [laterCalls, Call.payload?, filterMap_append, filterMap_replicate]

theorem payloadAt_laterCalls : (senderOf 0 (laterCalls n)).payloadAt (n + 2) = [2] := by
  rw [Sender.payloadAt, payloads_laterCalls]
  simp

theorem payloadAt_laterCalls_ne {j : Nat} (hj : j < (senderOf 0 (laterCalls n)).payloads.length) :
    (senderOf 0 (laterCalls n)).payloadAt j ≠ [3] := by
  have hmem : (senderOf 0 (laterCalls n)).payloadAt j ∈ (senderOf 0 (laterCalls n)).payloads := by
    rw [Sender.payloadAt, getD_eq_getElem?_getD, getElem?_eq_getElem hj]
    exact getElem_mem hj
  intro heq
  rw [heq, payloads_laterCalls] at hmem
  simp [mem_replicate] at hmem

def firstFec : FecPacket :=
  { snBase := 0, tsRecovery := 0, lengthRecovery := 0, payload := [1], mask := [3] }

theorem emitted_laterCalls : (emitted ⟨2, true⟩ 0 (laterCalls n))[0]? = some firstFec := by
  have hfirst : (senderOf 0 (laterCalls n)).payloadAt 0 = [0] := by rfl
  have hsecond : (senderOf 0 (laterCalls n)).payloadAt 1 = [1] := by rfl
  show some (buildFecPacket [((0 : UInt16), (senderOf 0 (laterCalls n)).payloadAt 0),
    ((1 : UInt16), (senderOf 0 (laterCalls n)).payloadAt 1)]) = _
  rw [hfirst, hsecond]
  decide +kernel

end Later

/-- Both packets of the first span are lost, its FEC packet arrives, and then the packet with the number of
the first one: the decoder returns a payload that was never sent. -/
theorem wrapped_packet_unsound :
    Punctual (spansOf ⟨2, true⟩ (laterCalls 65534)) [.fec 0, .media 65536] ∧
      ¬ (receiveFec (senderOf 0 (laterCalls 65534)) (emitted ⟨2, true⟩ 0 (laterCalls 65534))
          (fecDecoderAfter (senderOf 0 (laterCalls 65534)) (emitted ⟨2, true⟩ 0 (laterCalls 65534))
            [⟨.fec 0, HashOrder.same⟩])
          ⟨.media 65536, HashOrder.same⟩).2.Sound (senderOf 0 (laterCalls 65534)) [.fec 0, .media 65536] := by
  have hfec := emitted_laterCalls 65534
  have hpacket : (senderOf 0 (laterCalls 65534)).packetAt 65536 = (0, [2]) := by
    rw [Sender.packetAt, payloadAt_laterCalls 65534]
    rfl
  have hne := fun j hj => payloadAt_laterCalls_ne 65534 (j := j) hj
  constructor
  · refine pairwise_pair.mpr ?_
    show (2 : Nat) - 1 < 65536 + 2 ^ 15
    omega
  · generalize senderOf 0 (laterCalls 65534) = s at *
    generalize emitted ⟨2, true⟩ 0 (laterCalls 65534) = fecs at *
    intro hsound
    have hdecoder : fecDecoderAfter s fecs [⟨.fec 0, HashOrder.same⟩] =
        { groups := [(0, ⟨[none, none], [firstFec]⟩)], pendingMedia := [] } := by
      show (receiveFec s fecs new ⟨.fec 0, HashOrder.same⟩).1 = _
      simp only [receiveFec, hfec]
      decide +kernel
    have hreply : (receiveFec s fecs { groups := [(0, ⟨[none, none], [firstFec]⟩)], pendingMedia := [] }
        ⟨.media 65536, HashOrder.same⟩).2 = .media (some [3]) := by
      simp only [receiveFec, hpacket]
      decide +kernel
    rw [hdecoder, hreply] at hsound
    obtain ⟨j, hj, -, heq⟩ := hsound [3] rfl
    exact hne j hj heq.symm

end LingVoice.LmTransport

import LingVoice.Gb28181.PsPlain
import LingVoice.Lib.Cuts

/-!
# PsCuts — PS streams cut into RTP payloads

Of a packet with payload that is cut, what is behind the first cut is lost.  A header, or a PES packet without payload,
bears a cut.
-/

namespace LingVoice.Gb28181

open Lib (Cutting cuts firstCuts pieces)
open Lib.AnnexB List Element Nat
open Common

/-! ## Cuts that fall into elements without payload -/

theorem Element.opens_take (e : Element) (o : Nat) : Opens (e.bytes.take o) := by
  obtain ⟨code, tail, hbytes⟩ := e.exists_bytes
  rw [hbytes]
  exact Opens.take (.inr (.inr ⟨_, rfl⟩)) o

variable {rest junk : Bytes} {payloads : List Bytes} {elems : List Element} {cut : List (Element × Nat)}

theorem opens_stream_append (elems : List Element) (hrest : Opens rest) : Opens (stream elems ++ rest) := by
  cases elems with
  | nil => exact hrest
  | cons e elems =>
    obtain ⟨code, tail, hbytes⟩ := e.exists_bytes
    refine .inr (.inr ⟨1 :: code :: (tail ++ stream elems ++ rest), ?_⟩)
    rw [stream, flatMap_cons, hbytes]
    rfl

/-- What is left of an element that was cut, whole elements, and the beginning of one. -/
theorem mediaOf_junk_stream (hjunk : CodeFree junk) (elems : List Element) (hrest : Opens rest) :
    mediaOf (junk ++ (elems.flatMap bytes ++ rest)) = elems.flatMap media ++ mediaOf rest := by
  refine (mediaOf_append hjunk (opens_stream_append elems hrest)).trans ?_
  exact mediaOf_stream_append elems rest

/-- No media are lost, and none are added if and only if the elements bear their cuts. -/
theorem mediaOf_cutting (h : Cutting bytes payloads junk elems cut) (hjunk : CodeFree junk)
    (hempty : ∀ c ∈ cut, c.1.layout.IsEmpty) :
    (elems.flatMap media).length ≤ (payloads.flatMap mediaOf).length ∧
      (payloads.flatMap mediaOf = elems.flatMap media ↔ ∀ c ∈ cut, c.1.layout.Bears c.2) := by
  induction h with
  | last junk elems =>
    have hmedia := mediaOf_junk_stream hjunk elems (.inl rfl)
    rw [append_nil, mediaOf_nil, append_nil] at hmedia
    rw [flatMap_cons, flatMap_nil, append_nil, hmedia]
    exact ⟨le_refl _, iff_of_true rfl (forall_mem_nil _)⟩
  | @within _ junk elems cut front _ ih =>
    have hfront : mediaOf front = [] := mediaOf_of_codeFree (hjunk.of_part (prefix_append _ _).isInfix)
    rw [flatMap_cons, hfront, nil_append]
    exact ih (hjunk.of_part (suffix_append _ _).isInfix) hempty
  | @between rest back cut junk front _ ih =>
    have hmedia := mediaOf_junk_stream hjunk front (.inl rfl)
    rw [append_nil, mediaOf_nil, append_nil] at hmedia
    obtain ⟨hle, hiff⟩ := ih (by decide) hempty
    rw [flatMap_cons, hmedia, flatMap_append, length_append, length_append, append_cancel_left_eq]
    exact ⟨Nat.add_le_add_left hle _, hiff⟩
  | @inside rest back cut junk front e o pos lt _ ih =>
    rw [forall_mem_cons] at hempty
    have hmedia := mediaOf_junk_stream hjunk front (e.opens_take o)
    have htail : CodeFree (e.bytes.drop o) := by
      obtain ⟨k, rfl⟩ := exists_eq_add_one_of_ne_zero (ne_of_gt pos)
      rw [← drop_tail]
      exact (codeFree_tail hempty.1).of_part (drop_suffix k _).isInfix
    have hnone : e.media = [] := media_of_isEmpty hempty.1
    obtain ⟨hle, hiff⟩ := ih htail hempty.2
    rw [flatMap_cons, hmedia, flatMap_append, flatMap_cons, hnone, nil_append,
      append_assoc, forall_mem_cons, ← hiff, ← mediaOf_take_eq_nil_iff hempty.1 lt]
    simp only [length_append, append_cancel_left_eq]
    refine ⟨by omega, ?_⟩
    constructor
    · intro heq
      have hlength := congrArg List.length heq
      rw [length_append] at hlength
      have hzero : mediaOf (e.bytes.take o) = [] := length_eq_zero_iff.1 (by omega)
      rw [hzero, nil_append] at heq
      exact ⟨hzero, heq⟩
    · rintro ⟨hzero, heq⟩
      rw [hzero, nil_append]
      exact heq

/-! ## Cuts that fall into plain elements -/

theorem Blocks.cons {b : Bytes} {blocks : List Bytes} (h : Blocks blocks) (hquiet : Quiet b.tail)
    (hopens : Opens (b ++ blocks.flatten)) (hmedia : mediaOf (b ++ blocks.flatten) = mediaOf b ++ mediaOf blocks.flatten) :
    Blocks (b :: blocks) where
  quiet := forall_mem_cons.2 ⟨hquiet, h.quiet⟩
  opens back hback := by
    rcases suffix_cons_iff.1 hback with rfl | hback
    · exact hopens
    · exact h.opens back hback
  media c back hback := by
    rcases suffix_cons_iff.1 hback with heq | hback
    · cases heq
      exact hmedia
    · exact h.media c back hback

theorem mediaOf_bytes (e : Element) : mediaOf e.bytes = e.media := by
  have hmedia := mediaOf_element e []
  rwa [append_nil, mediaOf_nil, append_nil] at hmedia

/-- Whole plain elements and the beginning of one. -/
theorem blocks_plain (elems : List Element) (hopens : Opens rest) (hquiet : Quiet rest.tail) :
    Blocks (elems.map plainBytes ++ [rest]) := by
  induction elems with
  | nil =>
    have hnil : Blocks [] :=
      { quiet := forall_mem_nil _
        opens := by
          intro back hback
          rw [suffix_nil.1 hback]
          exact .inl rfl
        media := by
          intro b back hback
          exact absurd (suffix_nil.1 hback) (cons_ne_nil b back) }
    apply hnil.cons hquiet
    · rw [flatten_nil, append_nil]
      exact hopens
    · rw [flatten_nil, append_nil, mediaOf_nil, append_nil]
  | cons e elems ih =>
    obtain ⟨code, tail, hbytes⟩ := e.plain.exists_bytes
    apply ih.cons e.quiet_tail
    · refine .inr (.inr ⟨1 :: code :: (tail ++ (elems.map plainBytes ++ [rest]).flatten), ?_⟩)
      exact congrArg (· ++ (elems.map plainBytes ++ [rest]).flatten) hbytes
    · refine (mediaOf_element e.plain _).trans ?_
      rw [← mediaOf_bytes e.plain]
      rfl

theorem weight_junk_plain (hjunk : Quiet junk) (elems : List Element) (hopens : Opens rest) (hquiet : Quiet rest.tail) :
    weight (mediaOf (junk ++ (elems.flatMap plainBytes ++ rest))) ≤
      weight (elems.flatMap fun e => e.plain.media) + weight (mediaOf rest) := by
  have hle := weight_mediaOf_le (blocks_plain elems hopens hquiet) hjunk
  have hbytes : (elems.map plainBytes ++ [rest]).flatten = elems.flatMap plainBytes ++ rest := by
    rw [flatten_append, flatten_singleton, flatMap_def]
  have hsum : ((elems.map plainBytes ++ [rest]).map fun b => weight (mediaOf b)).sum =
      weight (elems.flatMap fun e => e.plain.media) + weight (mediaOf rest) := by
    rw [weight_flatMap, map_append, List.sum_append, map_map]
    have helems : elems.map ((fun b => weight (mediaOf b)) ∘ plainBytes) = elems.map fun e => weight e.plain.media := by
      apply map_congr_left
      intro e _
      exact congrArg weight (mediaOf_bytes e.plain)
    rw [helems]
    rfl
  rwa [hbytes, hsum] at hle

/-- The media weigh at most what they should, and less when an element with payload is cut. -/
theorem weight_cutting (h : Cutting plainBytes payloads junk elems cut) (hjunk : Quiet junk) :
    weight (payloads.flatMap mediaOf) ≤ weight (elems.flatMap fun e => e.plain.media) ∧
      (weight (elems.flatMap fun e => e.plain.media) ≤ weight (payloads.flatMap mediaOf) →
        ∀ c ∈ cut, c.1.layout.IsEmpty) := by
  have hnil : Quiet [] := quiet_of_codeFree (by decide)
  induction h with
  | last junk elems =>
    have hle := weight_junk_plain hjunk elems (.inl rfl) hnil
    rw [append_nil] at hle
    rw [flatMap_cons, flatMap_nil, append_nil]
    exact ⟨hle, fun _ => forall_mem_nil _⟩
  | @within _ junk elems cut front _ ih =>
    have hfront : Quiet front := hjunk.of_part (prefix_append _ _).isInfix
    have hnone := weight_junk_plain hfront [] (.inl rfl) hnil
    rw [flatMap_nil, nil_append, append_nil] at hnone
    have hzero : weight (mediaOf front) = 0 := le_zero.1 hnone
    rw [flatMap_cons, weight_append, hzero, zero_add]
    exact ih (hjunk.of_part (suffix_append _ _).isInfix)
  | @between rest back cut junk front _ ih =>
    have hle := weight_junk_plain hjunk front (.inl rfl) hnil
    rw [append_nil, mediaOf_nil, weight_nil] at hle
    obtain ⟨hback, hcut⟩ := ih hnil
    rw [flatMap_cons, flatMap_append, weight_append, weight_append]
    refine ⟨Nat.add_le_add hle hback, ?_⟩
    intro hge
    apply hcut
    omega
  | @inside rest back cut junk front e o pos lt _ ih =>
    obtain ⟨k, rfl⟩ := exists_eq_add_one_of_ne_zero (ne_of_gt pos)
    have htail : Quiet ((plainBytes e).drop (k + 1)) := by
      rw [← drop_tail]
      exact e.quiet_tail.of_part (drop_suffix k _).isInfix
    have hfirst : Quiet ((plainBytes e).take (k + 1)).tail := by
      rw [← drop_one, drop_take, drop_one]
      exact e.quiet_tail.of_part (List.take_prefix _ _).isInfix
    have hopens : Opens ((plainBytes e).take (k + 1)) := e.plain.opens_take (k + 1)
    have hle := weight_junk_plain hjunk front hopens hfirst
    obtain ⟨hback, hcut⟩ := ih htail
    obtain ⟨htake, hempty⟩ := e.weight_take lt
    rw [flatMap_cons, flatMap_append, flatMap_cons, weight_append, weight_append, weight_append, forall_mem_cons]
    refine ⟨by omega, ?_⟩
    intro hge
    exact ⟨hempty (by omega), hcut (by omega)⟩

/-! ## RTP payloads -/

def BearCuts (sizes : List Nat) (layouts : List Layout) : Prop :=
  ∀ c ∈ firstCuts Layout.size (cuts sizes) 0 layouts, c.1.Bears c.2

instance (sizes : List Nat) (layouts : List Layout) : Decidable (BearCuts sizes layouts) :=
  inferInstanceAs (Decidable (∀ c ∈ _, _))

theorem Layout.Bears.isEmpty {l : Layout} {o : Nat} (h : l.Bears o) : l.IsEmpty := by
  cases l with
  | header bytes => trivial
  | video streamID optional units => exact h
  | audio streamID optional payload => exact h.1

/-- The elements that are cut, by an encoding with the sizes of the layouts. -/
theorem firstCuts_layout {encode : Element → Bytes} (hsize : ∀ e, (encode e).length = e.layout.size)
    (cs : List Nat) (elems : List Element) :
    firstCuts Layout.size cs 0 (elems.map layout) =
      (firstCuts (fun e => (encode e).length) cs 0 elems).map fun c => (c.1.layout, c.2) := by
  rw [Lib.firstCuts_map]
  simp only [hsize]

theorem length_plainBytes (e : Element) : (plainBytes e).length = e.layout.size := by
  rw [plainBytes, e.plain.length_bytes, e.layout_plain]

section Stream

variable {elems : List Element} {sizes : List Nat}

theorem mediaOf_stream (elems : List Element) : mediaOf (stream elems) = elems.flatMap media := by
  have hmedia := mediaOf_stream_append elems []
  rwa [append_nil, mediaOf_nil, append_nil] at hmedia

/-- The media of the pieces, when the elements that are cut carry none. -/
theorem mediaOf_pieces_iff (hempty : ∀ c ∈ firstCuts Layout.size (cuts sizes) 0 (elems.map layout), c.1.IsEmpty) :
    (pieces sizes (stream elems)).flatMap mediaOf = elems.flatMap media ↔ BearCuts sizes (elems.map layout) := by
  have hcut : Cutting bytes (pieces sizes (stream elems)) [] elems _ := Lib.cutting_pieces sizes [] elems
  rw [BearCuts]
  rw [firstCuts_layout length_bytes] at hempty ⊢
  rw [forall_mem_map] at hempty ⊢
  exact (mediaOf_cutting hcut (by decide) hempty).2

/-- A plain stream comes through only if the elements that are cut carry no media. -/
theorem isEmpty_of_plain (h : (pieces sizes (stream (elems.map plain))).flatMap mediaOf =
      (elems.map plain).flatMap media) :
    ∀ c ∈ firstCuts Layout.size (cuts sizes) 0 (elems.map layout), c.1.IsEmpty := by
  have hcut : Cutting plainBytes (pieces sizes (elems.flatMap plainBytes)) [] elems _ :=
    Lib.cutting_pieces sizes [] elems
  have hweight := weight_cutting hcut (quiet_of_codeFree (by decide))
  rw [stream, flatMap_map, flatMap_map] at h
  rw [firstCuts_layout length_plainBytes, forall_mem_map]
  apply hweight.2
  rw [← h]
  exact le_refl _

end Stream

namespace PSReceiver

/-- Of every stream of the layout the receiver hands on the same in pieces as in one payload, if and only if every
element that is cut bears its first cut. -/
theorem handed_pieces_iff (r : PSReceiver) (elems : List Element) (sizes : List Nat) :
    (∀ others : List Element, others.map Element.layout = elems.map Element.layout →
      ∀ (pkts : List RtpPacket) (whole : RtpPacket),
        pkts.map RtpPacket.payload = pieces sizes (stream others) → whole.payload = stream others →
          r.handed pkts = r.handed [whole]) ↔
      BearCuts sizes (elems.map Element.layout) := by
  have hwhole (others : List Element) (whole : RtpPacket) (hpayload : whole.payload = stream others) :
      r.handed [whole] = others.flatMap media := by
    rw [handed_eq, map_cons, map_nil, flatMap_cons, flatMap_nil, append_nil, hpayload, mediaOf_stream]
  constructor
  · intro h
    have hpieces (others : List Element) (hlayout : others.map layout = elems.map layout) :
        (pieces sizes (stream others)).flatMap mediaOf = others.flatMap media := by
      have hpayloads : (((pieces sizes (stream others)).map fun payload => (⟨0, 0, false, payload⟩ : RtpPacket))).map
          RtpPacket.payload = pieces sizes (stream others) := by
        rw [map_map]
        exact map_id _
      have hsame := h others hlayout _ ⟨0, 0, false, stream others⟩ hpayloads rfl
      rwa [handed_eq, hpayloads, hwhole others _ rfl] at hsame
    have hplain : (elems.map plain).map layout = elems.map layout := by
      rw [map_map]
      exact map_congr_left fun e _ => e.layout_plain
    exact (mediaOf_pieces_iff (isEmpty_of_plain (hpieces _ hplain))).1 (hpieces elems rfl)
  · intro h others hlayout pkts whole hpkts hpayload
    rw [← hlayout] at h
    rw [hwhole others whole hpayload, handed_eq, hpkts]
    exact (mediaOf_pieces_iff fun c hc => (h c hc).isEmpty).2 h

def oneUnitPes : VideoPes where
  streamID := 0xE0
  flags1 := 0x80
  flags2 := 0x00
  optional := []
  payload := [0, 0, 1, 0x65, 0x88, 0x84, 0x21]
  length_optional := by decide
  length_lt := by decide
  codeFree := by decide
  units := [(false, ⟨[0x65, 0x88, 0x84, 0x21], by decide, by decide, by decide⟩)]
  isVideoId := by decide
  payload_eq := rfl

/-- The packet in two payloads, cut behind the first two bytes of its NAL unit: the other two are lost. -/
theorem handed_oneUnitPes_in_two :
    ∃ pkts : List RtpPacket, (pkts.map RtpPacket.payload).flatten = stream [.video oneUnitPes] ∧
      (PSReceiver.mk "34020000001320000001" 1 false false 0 0).handed pkts = [(.frameVideo, [0x65, 0x88])] ∧
      (PSReceiver.mk "34020000001320000001" 1 false false 0 0).handed [⟨3600, 1, true, stream [.video oneUnitPes]⟩] =
        [(.frameVideo, [0x65, 0x88, 0x84, 0x21])] := by
  refine ⟨[⟨3600, 1, false, (stream [.video oneUnitPes]).take 14⟩, ⟨3600, 2, true, (stream [.video oneUnitPes]).drop 14⟩],
    ?_, ?_, ?_⟩
  · decide +kernel
  · decide +kernel
  · decide +kernel

end PSReceiver

end LingVoice.Gb28181

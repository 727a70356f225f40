import LingVoice.AnnexBSplitters
import LingVoice.Gb28181.PsStream

/-!
# PsPlain — streams in which nothing is lost unseen

Audio payloads may hold anything, so a receiver that has lost its place can by chance hand on what it should.  A plain
stream rules this out: its optional headers are filled with 2, its audio payloads with 3 and its NAL units with 4.
Every stream has a plain one of the same layout.

The weight of media counts the bytes 4 in NAL units and 3 in audio payloads.
-/

namespace LingVoice.Gb28181

open Lib (byteAt u16At be16)
open Lib.AnnexB List Nat
open Common

/-! ## Plain elements -/

def plainUnit (unit : NalUnit) : NalUnit where
  bytes := List.replicate unit.bytes.length 4
  ne_nil := by
    rw [Ne, replicate_eq_nil_iff, length_eq_zero_iff]
    exact unit.ne_nil
  codeFree := by
    intro hcode
    have hzero : (0 : UInt8) ∈ List.replicate unit.bytes.length 4 := hcode.subset mem_cons_self
    exact absurd (eq_of_mem_replicate hzero) (by decide)
  last_ne_zero := by
    intro hlast
    exact absurd (eq_of_mem_replicate (mem_of_getLast? hlast)) (by decide)

def plainUnits (units : List (Bool × NalUnit)) : List (Bool × NalUnit) :=
  units.map fun u => (u.1, plainUnit u.2)

variable (units : List (Bool × NalUnit))

theorem length_assemble_plainUnits : (assemble (plainUnits units)).length = (assemble units).length := by
  simp only [assemble, plainUnits, length_flatMap, map_map, Function.comp_def, length_append,
    plainUnit, length_replicate]

def Pes.refill (p : Pes) (payload : Bytes) (h : payload.length = p.payload.length) : Pes where
  streamID := p.streamID
  flags1 := p.flags1
  flags2 := p.flags2
  optional := List.replicate p.optional.length 2
  payload := payload
  length_optional := by
    rw [length_replicate]
    exact p.length_optional
  length_lt := by
    rw [length_replicate, h]
    exact p.length_lt
  codeFree := by
    have hfront := p.codeFree.of_part (prefix_append _ p.optional).isInfix
    rw [pesHeader, length_replicate, h]
    apply hfront.append
    intro b hb
    rw [eq_of_mem_replicate hb]
    decide

def VideoPes.plain (v : VideoPes) : VideoPes where
  toPes := v.toPes.refill (assemble (plainUnits v.units)) (by rw [length_assemble_plainUnits, v.payload_eq])
  units := plainUnits v.units
  isVideoId := v.isVideoId
  payload_eq := rfl

def AudioPes.plain (a : AudioPes) : AudioPes where
  toPes := a.toPes.refill (List.replicate a.payload.length 3) length_replicate
  isAudioId := a.isAudioId

namespace Element

def plain : Element → Element
  | pack header => pack header
  | system sec => system sec
  | video v => video v.plain
  | audio a => audio a.plain

theorem layout_plain (e : Element) : e.plain.layout = e.layout := by
  cases e with
  | pack header | system sec => rfl
  | video v =>
    simp only [plain, layout, VideoPes.plain, Pes.refill, plainUnits, map_map, Function.comp_def, plainUnit,
      length_replicate]
  | audio a =>
    simp only [plain, layout, AudioPes.plain, Pes.refill, length_replicate]

end Element

def plainBytes (e : Element) : Bytes :=
  e.plain.bytes

/-! ## Start codes inside plain elements -/

/-- All start codes in the bytes are those of sections. -/
def Quiet (bytes : Bytes) : Prop :=
  ∀ b, [0, 0, 1, b] <:+: bytes → b < 0x80

variable {bytes front rest : Bytes} {a b : UInt8} {o : Nat} {blocks back : List Bytes}

theorem Quiet.of_part {part : Bytes} (h : Quiet bytes) (hpart : part <:+: bytes) : Quiet part :=
  fun b hcode => h b (hcode.trans hpart)

theorem quiet_of_codeFree (h : CodeFree bytes) : Quiet bytes := by
  intro b hcode
  have hstart : [0, 0, 1] <:+: [0, 0, 1, b] := ⟨[], [b], rfl⟩
  exact absurd (hstart.trans hcode) h

theorem quiet_cons (h : Quiet bytes) (hfirst : ∀ b, [0, 0, 1, b] <+: a :: bytes → b < 0x80) : Quiet (a :: bytes) := by
  intro b hcode
  rcases infix_cons_iff.1 hcode with hstart | hinfix
  · exact hfirst b hstart
  · exact h b hinfix

/-- The first byte of a NAL unit, or one that is in no start code. -/
theorem Quiet.append_cons {c : UInt8} (hc : 1 < c) (hlt : c < 0x80) (hfront : Quiet front)
    (hrest : Quiet rest) : Quiet (front ++ c :: rest) := by
  have hc0 : (0 : UInt8) ≠ c := by
    rintro rfl
    exact absurd hc (by decide)
  have hc1 : (1 : UInt8) ≠ c := by
    rintro rfl
    exact absurd hc (by decide)
  induction front with
  | nil =>
    apply quiet_cons hrest
    intro b hcode
    exact absurd (cons_prefix_cons.1 hcode).1 hc0
  | cons a front ih =>
    apply quiet_cons (ih (hfront.of_part (suffix_cons a front).isInfix))
    intro b hcode
    match front with
    | [] => simp [hc0] at hcode
    | [d] => simp [hc1] at hcode
    | [d, e] =>
      simp only [cons_append, nil_append, cons_prefix_cons] at hcode
      rw [hcode.2.2.2.1]
      exact hlt
    | d :: e :: f :: front =>
      simp only [cons_append, cons_prefix_cons] at hcode
      obtain ⟨rfl, rfl, rfl, rfl, -⟩ := hcode
      exact hfront b ⟨[], front, rfl⟩

theorem quiet_append_startCode (h : CodeFree front) (long : Bool) : Quiet (front ++ startCode long) := by
  -- no start code is complete before the last byte
  have hzeros : ∀ n, CodeFree (front ++ replicate n 0) := by
    intro n
    induction n with
    | zero =>
      rw [replicate_zero, append_nil]
      exact h
    | succ n ih =>
      rw [replicate_succ', ← append_assoc]
      intro hcode
      rcases infix_concat_iff.1 hcode with hsuffix | hinfix
      · obtain ⟨t, ht⟩ := hsuffix
        have hlast := congrArg getLast? ht
        simp at hlast
      · exact ih hinfix
  have hcode (n : Nat) : Quiet (front ++ replicate n 0 ++ [1]) := by
    intro b hb
    exfalso
    rcases infix_concat_iff.1 hb with hsuffix | hinfix
    · obtain ⟨t, ht⟩ := hsuffix
      have hinit := congrArg dropLast ht
      rw [dropLast_concat] at hinit
      refine hzeros n ⟨t, [], ?_⟩
      rw [← hinit, append_nil, dropLast_append_of_ne_nil (by simp)]
      rfl
    · exact (hzeros n) (IsInfix.trans ⟨[], [b], rfl⟩ hinfix)
  cases long with
  | false =>
    have hshort := hcode 2
    rw [append_assoc] at hshort
    exact hshort
  | true =>
    have hlong := hcode 3
    rw [append_assoc] at hlong
    exact hlong

theorem quiet_append_assemble (h : CodeFree front) (units : List (Bool × NalUnit)) :
    Quiet (front ++ assemble (plainUnits units)) := by
  induction units generalizing front with
  | nil =>
    rw [plainUnits, map_nil, assemble, flatMap_nil, append_nil]
    exact quiet_of_codeFree h
  | cons u units ih =>
    obtain ⟨n, hn⟩ : ∃ n, u.2.bytes.length = n + 1 :=
      exists_eq_succ_of_ne_zero fun hzero => u.2.ne_nil (length_eq_zero_iff.1 hzero)
    have hfree : CodeFree (replicate n 4) := by
      apply codeFree_of_forall
      intro b hb
      rw [eq_of_mem_replicate hb]
      decide
    have hbytes : front ++ assemble (plainUnits (u :: units)) =
        (front ++ startCode u.1) ++ 4 :: (replicate n 4 ++ assemble (plainUnits units)) := by
      simp only [plainUnits, map_cons, assemble_cons, plainUnit, hn, replicate_succ, append_assoc, cons_append]
    rw [hbytes]
    exact Quiet.append_cons (by decide) (by decide) (quiet_append_startCode h u.1) (ih hfree)

theorem Element.quiet_tail (e : Element) : Quiet (plainBytes e).tail := by
  cases e with
  | pack header => exact quiet_of_codeFree (codeFree_behind (by decide) header.codeFree)
  | system sec => exact quiet_of_codeFree (codeFree_behind sec.code_section.2.1 sec.codeFree)
  | video v =>
    exact quiet_append_assemble (codeFree_behind v.streamID_gt v.plain.codeFree) v.units
  | audio a =>
    apply quiet_of_codeFree
    apply (codeFree_behind a.streamID_gt a.plain.codeFree).append
    intro b hb
    rw [eq_of_mem_replicate hb]
    decide

/-! ## The weight of media -/

def mediaWeight : FrameType × Bytes → Nat
  | (.frameVideo, nal) => nal.count 4
  | (.frameAudio, payload) => payload.count 3

def weight (media : List (FrameType × Bytes)) : Nat :=
  (media.map mediaWeight).sum

@[simp] theorem weight_nil : weight [] = 0 := rfl

theorem weight_append (media later : List (FrameType × Bytes)) :
    weight (media ++ later) = weight media + weight later := by
  rw [weight, map_append, List.sum_append]
  rfl

theorem weight_flatMap {α : Type} (f : α → List (FrameType × Bytes)) (xs : List α) :
    weight (xs.flatMap f) = (xs.map fun x => weight (f x)).sum := by
  induction xs with
  | nil => rfl
  | cons x xs ih =>
    rw [flatMap_cons, weight_append, ih, map_cons, sum_cons]

variable (payload : Bytes)

theorem weight_audioMedia : weight (audioMedia payload) = payload.count 3 := by
  unfold audioMedia
  split
  · rename_i hnil
    rw [hnil]
    rfl
  · exact add_zero _

theorem weight_videoMedia : weight (videoMedia payload) = (splitAnnexB payload).flatten.count 4 := by
  unfold videoMedia
  induction splitAnnexB payload with
  | nil => rfl
  | cons nal nals ih =>
    rw [flatten_cons, count_append, ← ih]
    cases nal with
    | nil => exact (zero_add _).symm
    | cons b nal => rfl

theorem splitLoop_sublist (fuel : Nat) (data : Bytes) : (splitLoop fuel data).flatten.Sublist data := by
  induction fuel generalizing data with
  | zero => exact nil_sublist data
  | succ fuel ih =>
    cases data with
    | nil => exact Sublist.refl []
    | cons b rest =>
      rw [splitLoop]
      split
      · exact (ih rest).trans (sublist_cons_self b rest)
      · have hdrop := drop_sublist (startCodeLen (b :: rest)) (b :: rest)
        refine Sublist.trans ?_ hdrop
        cases hfind : findStartCode (((b :: rest).drop (startCodeLen (b :: rest))).drop 1) with
        | none =>
          simp only [hfind, flatten_cons, flatten_nil, append_nil]
          exact Sublist.refl _
        | some next =>
          have hsuffix := (findStartCode_eq_some hfind).1.trans (drop_suffix 1 _)
          obtain ⟨unit, hunit⟩ := hsuffix
          simp only [hfind, flatten_cons]
          rw [← hunit, length_append, Nat.add_sub_cancel, take_left]
          exact (ih next).append_left unit

theorem weight_videoMedia_le : weight (videoMedia payload) ≤ payload.count 4 := by
  rw [weight_videoMedia]
  exact (splitLoop_sublist _ payload).count_le 4

theorem weight_videoMedia_assemble : weight (videoMedia (assemble units)) = (assemble units).count 4 := by
  have hgap (units : List (Bool × NalUnit)) : (gap units).count 4 = 0 := by
    match units with
    | [] | (false, _) :: _ | (true, _) :: _ => rfl
  have hcode (long : Bool) : (startCode long).count 4 = 0 := by
    cases long with
    | false | true => rfl
  rw [weight_videoMedia, splitAnnexB_assemble]
  induction units with
  | nil => rfl
  | cons u units ih =>
    rcases u with ⟨long, unit⟩
    simp only [withGaps, flatten_cons, count_append, hgap, ih, assemble_cons, hcode]
    omega

/-! ## Plain elements that are cut off -/

/-- Of a payload that ends in `v` some `v` is lost when the packet is cut off. -/
theorem Pes.count_seen (p : Pes) {v : UInt8} (hoptional : v ∉ p.optional)
    (hpayload : ∀ b, p.payload.getLast? = some b → b = v) (ho : o < p.bytes.length) :
    (p.seen o).count v ≤ p.payload.count v ∧ (p.payload.count v ≤ (p.seen o).count v → p.payload = []) := by
  rw [p.length_bytes] at ho
  have hseen : (p.seen o).count v ≤ (p.payload.take (o - 9 - p.optional.length)).count v := by
    unfold seen
    split
    · have hnone : v ∉ p.optional.take (o - 9) := fun hmem => hoptional (mem_of_mem_take hmem)
      rw [count_eq_zero_of_not_mem hnone]
      exact zero_le _
    · exact le_refl _
  have hsplit : p.payload.count v = (p.payload.take (o - 9 - p.optional.length)).count v +
      (p.payload.drop (o - 9 - p.optional.length)).count v := by
    rw [← count_append, take_append_drop]
  refine ⟨by omega, ?_⟩
  intro hle
  by_contra hne
  have hlt : o - 9 - p.optional.length < p.payload.length := by
    have hpos := length_pos_of_ne_nil hne
    omega
  -- the last byte of the payload is behind the cut
  have hlast : v ∈ p.payload.drop (o - 9 - p.optional.length) := by
    obtain ⟨b, hb⟩ := Option.ne_none_iff_exists'.1 (mt getLast?_eq_none_iff.1 hne)
    apply mem_of_getLast?
    rw [getLast?_drop, if_neg (Nat.not_le_of_lt hlt), hb, hpayload b hb]
  have hpos := count_pos_iff.2 hlast
  omega

theorem getLast?_assemble_plainUnits (h : (assemble (plainUnits units)).getLast? = some b) : b = 4 := by
  rcases eq_nil_or_concat units with rfl | ⟨front, u, rfl⟩
  · cases h
  · have hbytes : assemble (plainUnits (front ++ [u])) =
        (assemble (plainUnits front) ++ startCode u.1) ++ (plainUnit u.2).bytes := by
      simp only [assemble, plainUnits, map_append, map_cons, map_nil, flatMap_append,
        flatMap_cons, flatMap_nil, append_nil, append_assoc]
    rw [concat_eq_append, hbytes, getLast?_append_of_ne_nil _ (plainUnit u.2).ne_nil] at h
    exact eq_of_mem_replicate (mem_of_getLast? h)

theorem not_mem_replicate (n : Nat) (h : a ≠ b) : a ∉ replicate n b :=
  fun hmem => h (eq_of_mem_replicate hmem)

/-- A plain element that is cut off weighs less, unless it has no payload. -/
theorem Element.weight_take (e : Element) (ho : o < (plainBytes e).length) :
    weight (mediaOf ((plainBytes e).take o)) ≤ weight e.plain.media ∧
      (weight e.plain.media ≤ weight (mediaOf ((plainBytes e).take o)) → e.layout.IsEmpty) := by
  cases e with
  | pack header =>
    have hnone : mediaOf ((plainBytes (pack header)).take o) = [] := mediaOf_take_pack header o
    rw [hnone]
    exact ⟨zero_le _, fun _ => trivial⟩
  | system sec =>
    have hnone : mediaOf ((plainBytes (system sec)).take o) = [] := mediaOf_take_system sec o
    rw [hnone]
    exact ⟨zero_le _, fun _ => trivial⟩
  | video v =>
    have htake : mediaOf ((plainBytes (video v)).take o) = videoMedia (v.plain.seen o) :=
      v.plain.mediaOf_take v.plain.isOf ho
    have hmedia : weight (video v).plain.media = v.plain.payload.count 4 := weight_videoMedia_assemble _
    have hle := weight_videoMedia_le (v.plain.seen o)
    have hcount := v.plain.count_seen (not_mem_replicate _ (by decide))
      (fun b => getLast?_assemble_plainUnits v.units) ho
    rw [htake, hmedia]
    refine ⟨le_trans hle hcount.1, ?_⟩
    intro hge
    have hunits : plainUnits v.units = [] := v.plain.payload_eq_nil_iff.1 (hcount.2 (le_trans hge hle))
    rw [plainUnits, map_eq_nil_iff] at hunits
    exact map_eq_nil_iff.2 hunits
  | audio a =>
    have htake : mediaOf ((plainBytes (audio a)).take o) = audioMedia (a.plain.seen o) :=
      a.plain.mediaOf_take a.plain.isOf ho
    have hmedia : weight (audio a).plain.media = a.plain.payload.count 3 := weight_audioMedia _
    have hcount := a.plain.count_seen (not_mem_replicate _ (by decide))
      (fun b hb => eq_of_mem_replicate (mem_of_getLast? hb)) ho
    rw [htake, hmedia, weight_audioMedia]
    refine ⟨hcount.1, ?_⟩
    intro hge
    exact (replicate_eq_nil_iff 3).1 (hcount.2 hge)

/-! ## A receiver that has lost its place -/

/-- The elements behind a place, the last of them perhaps cut off. -/
structure Blocks (blocks : List Bytes) : Prop where
  quiet : ∀ b ∈ blocks, Quiet b.tail
  opens : ∀ back, back <:+ blocks → Opens back.flatten
  media : ∀ b back, b :: back <:+ blocks → mediaOf (b ++ back.flatten) = mediaOf b ++ mediaOf back.flatten

theorem Blocks.of_suffix (h : Blocks blocks) (hback : back <:+ blocks) :
    Blocks back where
  quiet b hb := h.quiet b (hback.subset hb)
  opens later hlater := h.opens later (hlater.trans hback)
  media b later hlater := h.media b later (hlater.trans hback)

/-- A start code that begins in quiet bytes is that of a section, also when it ends behind them. -/
theorem Quiet.code_lt {u : Bytes} (hu : Quiet u) (hne : u ≠ []) (hrest : Opens rest)
    {tail : Bytes} (h : u ++ rest = 0 :: 0 :: 1 :: b :: tail) : b < 0x80 := by
  match u with
  | [] => exact absurd rfl hne
  | [_] | [_, _] =>
    rcases hrest with rfl | rfl | ⟨later, rfl⟩
    · simp at h
    · simp at h
    · simp at h
  | [_, _, _] =>
    -- the next element begins with 0
    rcases hrest with rfl | rfl | ⟨later, rfl⟩
    · simp at h
    · simp only [cons_append, nil_append, cons.injEq] at h
      rw [← h.2.2.2.1]
      decide
    · simp only [cons_append, nil_append, cons.injEq] at h
      rw [← h.2.2.2.1]
      decide
  | c0 :: c1 :: c2 :: c3 :: u =>
    simp only [cons_append, cons.injEq] at h
    obtain ⟨rfl, rfl, rfl, rfl, -⟩ := h
    exact hu c3 ⟨[], u, rfl⟩

/-- The receiver hands on no more than what the elements behind its place weigh. -/
theorem weight_mediaOf_le (hblocks : Blocks blocks) {junk : Bytes} (hjunk : Quiet junk) :
    weight (mediaOf (junk ++ blocks.flatten)) ≤ (blocks.map fun b => weight (mediaOf b)).sum := by
  induction hn : junk.length + blocks.flatten.length + blocks.length using Nat.strong_induction_on
    generalizing junk blocks with
  | _ n ih =>
    have hscan : (∃ u, u ≠ [] ∧ u <:+ junk ∧ AtStartCode (u ++ blocks.flatten) ∧
        findStartCode (junk ++ blocks.flatten) = some (u ++ blocks.flatten)) ∨
        findStartCode (junk ++ blocks.flatten) = findStartCode blocks.flatten :=
      Lib.firstSuffix_append_cases junk blocks.flatten
    rcases hscan with ⟨u, hne, hsuffix, hcode, hfind⟩ | hfind
    · -- a section is found in the junk
      have hquiet : Quiet u := hjunk.of_part hsuffix.isInfix
      have hu := length_pos_of_ne_nil hne
      have hlength := hsuffix.length_le
      obtain ⟨b, tail, hfound⟩ := atStartCode_iff.1 hcode
      have hb : b < 0x80 := hquiet.code_lt hne (hblocks.opens blocks suffix_rfl) hfound
      have hmedia : mediaOf (junk ++ blocks.flatten) = mediaOf (0 :: 0 :: 1 :: b :: tail) := by
        apply mediaOf_congr
        rw [hfind, hfound, findStartCode_cons]
      rw [hmedia]
      have hvideo : ¬ IsVideoId b := fun h => absurd (UInt8.lt_of_le_of_lt h.1 hb) (by decide)
      have haudio : ¬ IsAudioId b := fun h => absurd (UInt8.lt_of_le_of_lt h.1 hb) (by decide)
      rcases mediaOf_skip hvideo haudio tail with hnone | ⟨k, hk, hlater⟩
      · rw [hnone]
        exact zero_le _
      · rw [hlater, ← hfound, drop_append]
        by_cases hinside : k ≤ u.length
        · rw [Nat.sub_eq_zero_of_le hinside, drop_zero]
          apply ih _ _ hblocks (hquiet.of_part (drop_suffix k u).isInfix) rfl
          rw [length_drop]
          omega
        · rw [drop_of_length_le (Nat.le_of_not_le hinside), nil_append]
          obtain ⟨front, back, hdrop, hback, hfront⟩ := Lib.exists_drop_flatMap id blocks (k - u.length)
          rw [flatMap_id, flatMap_id] at hdrop
          have hshort := congrArg length hdrop
          rw [length_drop, length_append] at hshort
          have hfrontQuiet : Quiet front := by
            rcases hfront with rfl | ⟨x, hx, hsub⟩
            · exact quiet_of_codeFree (by decide)
            · exact (hblocks.quiet x hx).of_part hsub.isInfix
          rw [hdrop]
          refine le_trans (ih _ ?_ (hblocks.of_suffix hback) hfrontQuiet rfl)
            ((hback.sublist.map _).sum_le_sum fun _ _ => zero_le _)
          have hcount := hback.length_le
          omega
    · -- the receiver comes to the first element
      rw [mediaOf_congr hfind]
      cases blocks with
      | nil => exact zero_le _
      | cons b back =>
        have hback : back <:+ b :: back := suffix_cons b back
        have hsmaller : back.flatten.length + back.length < n := by
          rw [flatten_cons, length_append, length_cons] at hn
          omega
        have hrest := ih _ hsmaller (hblocks.of_suffix hback) (quiet_of_codeFree (by decide : CodeFree []))
          (by rw [length_nil, zero_add])
        rw [flatten_cons, hblocks.media b back suffix_rfl, weight_append, map_cons, sum_cons]
        exact Nat.add_le_add_left hrest _

end LingVoice.Gb28181

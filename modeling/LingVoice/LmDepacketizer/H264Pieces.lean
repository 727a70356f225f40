import LingVoice.Lib.AnnexBContent
import LingVoice.LmDepacketizer.H264

/-!
# H264Pieces — pieces of a frame as RTP payloads

A sender that cuts the bytes of an Annex B frame into pieces and sends every piece as an RTP payload does not send
what RFC 6184 asks for: the first byte of a piece is taken for the header of a unit.  The depacketizer drops the
piece, takes it for a whole unit, or for an aggregate or a fragment.
-/

namespace LingVoice.LmDepacketizer

open Lib.AnnexB List Nat

/-! ## The scanner on any bytes -/

theorem naluEnd_cons_le (a : UInt8) (rest : Bytes) : naluEnd (a :: rest) ≤ naluEnd rest + 1 := by
  by_cases hshort : [0, 0, 1] <+: a :: rest
  · obtain ⟨tail, htail⟩ := hshort
    rw [← htail]
    exact zero_le _
  · by_cases hlong : [0, 0, 0, 1] <+: a :: rest
    · obtain ⟨tail, htail⟩ := hlong
      rw [← htail]
      exact zero_le _
    · exact le_of_eq (naluEnd_cons hshort hlong)

theorem naluEnd_code_le (front : Bytes) (long : Bool) (rest : Bytes) :
    naluEnd (front ++ (startCode long ++ rest)) ≤ front.length := by
  induction front with
  | nil =>
    cases long with
    | true | false => exact le_refl 0
  | cons a front ih => exact (naluEnd_cons_le a _).trans (succ_le_succ ih)

theorem naluEnd_le_length (bytes : Bytes) : naluEnd bytes ≤ bytes.length := by
  induction bytes with
  | nil => exact le_refl 0
  | cons a rest ih => exact (naluEnd_cons_le a rest).trans (succ_le_succ ih)

theorem naluEnd_drop (bytes : Bytes) : naluEnd (bytes.drop (naluEnd bytes)) = 0 := by
  fun_induction naluEnd bytes with
  | case1 rest => rfl
  | case2 rest => rfl
  | case3 a rest hshort hlong ih => exact ih
  | case4 => rfl

variable {bytes rest : Bytes}

theorem exists_startCode (hstop : naluEnd bytes = 0) (hne : bytes ≠ []) :
    ∃ long rest, bytes = startCode long ++ rest := by
  revert hstop
  fun_cases naluEnd bytes with
  | case1 rest => exact fun _ => ⟨false, rest, rfl⟩
  | case2 rest => exact fun _ => ⟨true, rest, rfl⟩
  | case3 => exact fun h => absurd h (succ_ne_zero _)
  | case4 => exact absurd rfl hne

/-- A start code, the bytes up to the next one, which may be none, and the rest. -/
theorem exists_unit (hstop : naluEnd bytes = 0) (hne : bytes ≠ []) :
    ∃ long unit rest, bytes = startCode long ++ (unit ++ rest) ∧ naluEnd (unit ++ rest) = unit.length ∧
      naluEnd rest = 0 ∧
      ∀ fuel, splitNalus (fuel + 1) bytes =
        if unit = [] then splitNalus fuel rest else unit :: splitNalus fuel rest := by
  obtain ⟨long, tail, rfl⟩ := exists_startCode hstop hne
  have hsplit : tail.take (naluEnd tail) ++ tail.drop (naluEnd tail) = tail := take_append_drop _ _
  have hlength : (tail.take (naluEnd tail)).length = naluEnd tail := by
    rw [length_take]
    exact min_eq_left (naluEnd_le_length tail)
  refine ⟨long, tail.take (naluEnd tail), tail.drop (naluEnd tail), ?_, ?_, naluEnd_drop tail, ?_⟩
  · rw [hsplit]
  · rw [hsplit, hlength]
  · intro fuel
    have hcode : splitNalus (fuel + 1) (startCode long ++ tail) =
        if 0 < naluEnd tail then tail.take (naluEnd tail) :: splitNalus fuel (tail.drop (naluEnd tail))
        else splitNalus fuel tail := by
      cases long <;> rfl
    rw [hcode]
    by_cases hpos : 0 < naluEnd tail
    · rw [if_pos hpos, if_neg]
      apply ne_nil_of_length_pos
      rw [hlength]
      exact hpos
    · have hzero : naluEnd tail = 0 := Nat.eq_zero_of_not_pos hpos
      rw [if_neg hpos, hzero, take_zero, drop_zero, if_pos rfl]

/-- Induction along the units of what begins with a start code. -/
@[elab_as_elim]
theorem units_induction {motive : (bytes : Bytes) → naluEnd bytes = 0 → Prop} (nil : motive [] rfl)
    (unit : ∀ long unit rest (hstop : naluEnd (startCode long ++ (unit ++ rest)) = 0) (hrest : naluEnd rest = 0),
      naluEnd (unit ++ rest) = unit.length →
      (∀ fuel, splitNalus (fuel + 1) (startCode long ++ (unit ++ rest)) =
        if unit = [] then splitNalus fuel rest else unit :: splitNalus fuel rest) →
      motive rest hrest → motive (startCode long ++ (unit ++ rest)) hstop)
    (bytes : Bytes) (hstop : naluEnd bytes = 0) : motive bytes hstop := by
  induction hn : bytes.length using Nat.strong_induction_on generalizing bytes with
  | _ n ih =>
    by_cases hne : bytes = []
    · subst hne
      exact nil
    · obtain ⟨long, part, rest, rfl, hend, hrest, hsplit⟩ := exists_unit hstop hne
      refine unit long part rest hstop hrest hend hsplit (ih rest.length ?_ rest hrest rfl)
      have hcode := length_pos_of_ne_nil (startCode_ne_nil long)
      rw [← hn, length_append, length_append]
      omega

theorem splitNalus_flatten_sublist (fuel : Nat) (bytes : Bytes) :
    (splitNalus fuel bytes).flatten.Sublist bytes := by
  fun_induction splitNalus fuel bytes with
  | case1 bytes => exact nil_sublist bytes
  | case2 fuel rest hpos ih =>
    have hparts := (Sublist.refl (rest.take (naluEnd rest))).append ih
    rw [take_append_drop] at hparts
    exact hparts.trans (sublist_append_right [0, 0, 0, 1] rest)
  | case3 fuel rest hpos ih =>
    exact ih.trans (sublist_append_right [0, 0, 0, 1] rest)
  | case4 fuel rest hpos ih =>
    have hparts := (Sublist.refl (rest.take (naluEnd rest))).append ih
    rw [take_append_drop] at hparts
    exact hparts.trans (sublist_append_right [0, 0, 1] rest)
  | case5 fuel rest hpos ih => exact ih.trans (sublist_append_right [0, 0, 1] rest)
  | case6 fuel a rest hlong hshort ih => exact ih.trans (sublist_cons_self a rest)
  | case7 fuel => exact nil_sublist []

/-- Between start codes everything that is not `0` is content. -/
theorem content_of_codeFree {p q : UInt8} (hfree : CodeFree (p :: q :: bytes)) :
    content (p, q) bytes = bytes.countP (· ≠ 0) := by
  induction bytes generalizing p q with
  | nil => rfl
  | cons x rest ih =>
    obtain ⟨hfront, hrest⟩ := codeFree_cons.1 hfree
    have hcode : ¬ (x = 1 ∧ (p, q) = (0, 0)) := by
      rintro ⟨rfl, hzeros⟩
      cases hzeros
      exact hfront (prefix_append [0, 0, 1] rest)
    rw [content, ih hrest, countP_cons, add_comm]
    by_cases hx : x = 0
    · rw [if_pos (.inl hx), if_neg (by simp [hx])]
    · rw [if_neg (not_or.2 ⟨hx, hcode⟩), if_pos (decide_eq_true hx)]

theorem codeFree_of_naluEnd {unit : Bytes} (hend : naluEnd (unit ++ rest) = unit.length) : CodeFree unit := by
  rintro ⟨front, behind, rfl⟩
  have hle := naluEnd_code_le front false (behind ++ rest)
  rw [startCode, if_neg Bool.false_ne_true] at hle
  simp only [append_assoc, length_append] at hend hle
  rw [hend] at hle
  simp at hle

/-- The units hold no more than the content of the data. -/
theorem countP_splitNalus_le (hstop : naluEnd bytes = 0) (before : UInt8 × UInt8) (fuel : Nat) :
    (splitNalus fuel bytes).flatten.countP (· ≠ 0) ≤ content before bytes := by
  induction bytes, hstop using units_induction generalizing before fuel with
  | nil =>
    cases fuel with
    | zero | succ fuel => exact zero_le _
  | unit long unit rest _ _ hend hsplit ih =>
    cases fuel with
    | zero => exact zero_le _
    | succ fuel =>
      have hunit : content (0, 1) unit = unit.countP (· ≠ 0) := by
        apply content_of_codeFree
        simp [codeFree_cons, codeFree_of_naluEnd hend]
      have hrest := ih (lastTwo (0, 1) unit) fuel
      rw [hsplit, content_startCode, content_append, hunit]
      split
      · exact hrest.trans (le_add_left _ _)
      · rw [flatten_cons, countP_append]
        exact Nat.add_le_add_left hrest _

/-- No zero of a start code is the last byte of it, or stands right before a start code of four bytes. -/
theorem not_zero_of_startCode {long : Bool} {front back tail : Bytes}
    (hcode : startCode long = front ++ 0 :: back) (hrest : back ++ tail = rest) :
    ¬ (rest = [] ∨ ∃ tail, rest = startCode true ++ tail) := by
  subst hrest
  have hback : back = [1] ∨ back = [0, 1] ∨ back = [0, 0, 1] := by
    have hsuffix : 0 :: back ∈ (startCode long).tails := (mem_tails _ _).2 ⟨front, hcode.symm⟩
    cases long with
    | true | false =>
      simp [startCode] at hsuffix
      tauto
  rcases hback with rfl | rfl | rfl
  · simp [startCode]
  · simp [startCode]
  · simp [startCode]

/-- A zero at the end of the data, or right before a start code of four bytes, is in no start code: the unit that
it is in ends with it. -/
theorem exists_trailing_zero (hstop : naluEnd bytes = 0) {fuel : Nat} {front : Bytes}
    (hfuel : bytes.length ≤ fuel) (hbytes : bytes = front ++ 0 :: rest)
    (hrest : rest = [] ∨ ∃ tail, rest = startCode true ++ tail) :
    ∃ unit ∈ splitNalus fuel bytes, unit.getLast? = some 0 := by
  induction bytes, hstop using units_induction generalizing fuel front with
  | nil => exact absurd hbytes (by simp)
  | unit long unit after _ _ hend hsplit ih =>
    obtain ⟨fuel, rfl⟩ : ∃ n, fuel = n + 1 := by
      apply exists_eq_succ_of_ne_zero
      have hcode := length_pos_of_ne_nil (startCode_ne_nil long)
      rw [length_append] at hfuel
      omega
    have hshorter : after.length ≤ fuel := by
      have hcode := length_pos_of_ne_nil (startCode_ne_nil long)
      rw [length_append, length_append] at hfuel
      omega
    have hlater : ∀ back, after = back ++ 0 :: rest →
        ∃ u ∈ splitNalus (fuel + 1) (startCode long ++ (unit ++ after)), u.getLast? = some 0 := by
      intro back hback
      obtain ⟨u, hu, hlast⟩ := ih hshorter hback
      refine ⟨u, ?_, hlast⟩
      rw [hsplit]
      split
      · exact hu
      · exact mem_cons_of_mem unit hu
    have hinside : ∀ front, unit ++ after = front ++ 0 :: rest →
        ∃ u ∈ splitNalus (fuel + 1) (startCode long ++ (unit ++ after)), u.getLast? = some 0 := by
      intro front hunit
      rcases append_eq_append_iff.1 hunit with ⟨back, rfl, hafter⟩ | ⟨back, rfl, hzero⟩
      · exact hlater back hafter
      · cases back with
        | nil => exact hlater [] hzero.symm
        | cons b back =>
          rw [cons_append] at hzero
          obtain ⟨rfl, rfl⟩ := cons.inj hzero
          by_cases hback : back = []
          · subst hback
            refine ⟨front ++ [0], ?_, getLast?_concat⟩
            rw [hsplit, if_neg (by simp)]
            exact mem_cons_self
          · -- the unit would go on past the start code
            rcases hrest with hnil | ⟨tail, htail⟩
            · exact absurd (append_eq_nil_iff.1 hnil).1 hback
            · have hle := naluEnd_code_le (front ++ [0]) true tail
              rw [← htail] at hle
              simp only [append_assoc, cons_append, nil_append] at hle hend
              have hpos := length_pos_of_ne_nil hback
              rw [hend] at hle
              simp only [length_append, length_cons, length_nil] at hle
              omega
    rcases append_eq_append_iff.1 hbytes with ⟨front', rfl, hunit⟩ | ⟨back, hcode, hzero⟩
    · exact hinside front' hunit
    · cases back with
      | nil => exact hinside [] hzero.symm
      | cons b back =>
        obtain ⟨rfl, hback⟩ := cons.inj hzero
        exact absurd hrest (not_zero_of_startCode hcode hback.symm)

/-! ## What the depacketizer makes of a piece -/

namespace H264Depacketizer

/-- Bytes that are in no start code, of the frame and of the fragmented unit. -/
def weight (d : H264Depacketizer) : Nat :=
  d.frameBuffer.countP (1 < ·) + d.fuBuffer.countP (1 < ·)

/-- The next packet of the timestamp goes on with the frame. -/
def GoesOn (timestamp : UInt32) (d : H264Depacketizer) : Prop :=
  d.frameBuffer = [] ∨ (d.frameStarted = true ∧ d.currentTimestamp = timestamp)

/-- A piece is taken for a unit, or lost, or it is taken apart and loses bytes. -/
inductive Taken (timestamp : UInt32) (piece : Bytes) (d d' : H264Depacketizer) : Prop
  | kept (hne : piece ≠ []) (hhead : piece.head? ≠ some 0)
      (hframe : d'.frameBuffer = (d.openFrame timestamp).frameBuffer ++ (startCode true ++ piece))
      (hfu : d'.fuBuffer = d.fuBuffer) (hgoesOn : GoesOn timestamp d')
  | lost (hframe : d'.frameBuffer = d.frameBuffer) (hfu : d'.fuBuffer = d.fuBuffer)
      (hgoesOn : GoesOn timestamp d → GoesOn timestamp d')
  | garbled (hweight : d'.weight < d.weight + piece.countP (1 < ·))

variable {d d' : H264Depacketizer} {timestamp : UInt32}

theorem openFrame_frameBuffer (h : GoesOn timestamp d) : (d.openFrame timestamp).frameBuffer = d.frameBuffer := by
  rw [openFrame]
  split
  · rename_i hnew
    rcases h with hempty | ⟨hstarted, htimestamp⟩
    · exact hempty.symm
    · simp [hstarted, htimestamp] at hnew
  · rfl

theorem openFrame_fuBuffer (timestamp : UInt32) (d : H264Depacketizer) :
    (d.openFrame timestamp).fuBuffer = d.fuBuffer := by
  rw [openFrame]
  split
  · rfl
  · rfl

theorem weight_openFrame_le (timestamp : UInt32) (d : H264Depacketizer) :
    (d.openFrame timestamp).weight ≤ d.weight := by
  rw [weight, weight, openFrame_fuBuffer]
  apply Nat.add_le_add_right
  rw [openFrame]
  split
  · exact zero_le _
  · exact le_refl _

theorem countP_startCode (long : Bool) : (startCode long).countP (fun b => decide (1 < b)) = 0 := by
  cases long with
  | true | false => rfl

theorem Taken.weight_le {piece : Bytes}
    (h : Taken timestamp piece d d') : d'.weight ≤ d.weight + piece.countP (1 < ·) := by
  cases h with
  | kept _ _ hframe hfu _ =>
    have hopen := weight_openFrame_le timestamp d
    rw [weight, openFrame_fuBuffer] at hopen
    rw [weight, hframe, hfu, countP_append, countP_append, countP_startCode]
    omega
  | lost hframe hfu _ =>
    rw [weight, weight, hframe, hfu]
    exact le_add_right _ _
  | garbled hweight => exact le_of_lt hweight

theorem weight_appendNalu (d : H264Depacketizer) (nalu : Bytes) :
    (d.appendNalu nalu).weight = d.weight + nalu.countP (1 < ·) := by
  simp only [weight, appendNalu, countP_append]
  have hcode : [0, 0, 0, 1].countP (fun b : UInt8 => decide (1 < b)) = 0 := rfl
  omega

theorem weight_appendStapA_le (fuel : Nat) (d : H264Depacketizer) (bytes : Bytes) :
    (appendStapA fuel d bytes).weight ≤ d.weight + bytes.countP (1 < ·) := by
  fun_induction appendStapA fuel d bytes with
  | case1 fuel d high low rest size hshort => exact le_add_right _ _
  | case2 fuel d high low rest size hfits ih =>
    have hparts : rest.countP (fun b => decide (1 < b)) =
        (rest.take size).countP (fun b => decide (1 < b)) + (rest.drop size).countP (fun b => decide (1 < b)) := by
      rw [← countP_append, take_append_drop]
    rw [weight_appendNalu] at ih
    rw [countP_cons, countP_cons]
    omega
  | case3 => exact le_add_right _ _

theorem weight_finishFu (d : H264Depacketizer) : d.finishFu.weight = d.weight := by
  simp only [weight, finishFu, appendNalu, countP_append, countP_nil]
  have hcode : [0, 0, 0, 1].countP (fun b : UInt8 => decide (1 < b)) = 0 := rfl
  omega

/-- The header bytes of an aggregate and of a fragment are in no start code, nor is the second byte of the first
fragment. -/
theorem one_lt_headers (b : UInt8) :
    (H264NaluType.fromByte b = .stapA → 1 < b) ∧ (H264NaluType.fromByte b = .fuA → 1 < b) ∧
      (b &&& 0x80 ≠ 0 → 1 < b) ∧ (∀ t, H264NaluType.fromByte b = .single t → b ≠ 0) := by
  refine ⟨?_, ?_, ?_, ?_⟩
  · revert b
    exact Lib.forall_byte (by decide +kernel)
  · revert b
    exact Lib.forall_byte (by decide +kernel)
  · revert b
    exact Lib.forall_byte (by decide +kernel)
  · rintro t h rfl
    cases h

theorem acceptFuA_taken (d : H264Depacketizer) {fuIndicator header : UInt8} {fuPayload : Bytes} (marker : Bool)
    (timestamp : UInt32) (hindicator : 1 < fuIndicator) :
    Taken timestamp (fuIndicator :: header :: fuPayload) d
      (d.acceptFuA fuIndicator header fuPayload marker timestamp).1 := by
  have hfinish : ∀ (isEnd : Bool) (d' : H264Depacketizer), (if isEnd then d'.finishFu else d').weight = d'.weight := by
    intro isEnd d'
    cases isEnd with
    | true => exact weight_finishFu d'
    | false => rfl
  rw [acceptFuA]
  split
  · -- the first fragment: two bytes go, one comes
    rename_i hstart
    apply Taken.garbled
    have hheader : 1 < header := (one_lt_headers header).2.2.1 (by simpa using hstart)
    have hopen := weight_openFrame_le timestamp d
    rw [hfinish, countP_cons, countP_cons, if_pos (decide_eq_true hindicator), if_pos (decide_eq_true hheader)]
    rw [weight] at hopen ⊢
    dsimp only
    rw [countP_cons]
    split
    · omega
    · omega
  · split
    · apply Taken.garbled
      rw [hfinish, countP_cons, countP_cons, if_pos (decide_eq_true hindicator)]
      rw [weight, weight]
      dsimp only
      rw [countP_append]
      omega
    · exact Taken.lost rfl rfl id

theorem acceptPacket_taken (d : H264Depacketizer) (timestamp : UInt32) (piece : Bytes) (marker : Bool) :
    Taken timestamp piece d (d.acceptPacket piece marker timestamp).1 := by
  unfold acceptPacket
  cases piece with
  | nil => exact Taken.lost rfl rfl id
  | cons b rest =>
    rw [headD_cons]
    cases htype : H264NaluType.fromByte b with
    | single t =>
      refine Taken.kept (cons_ne_nil b rest) ?_ ?_ (openFrame_fuBuffer timestamp d) ?_
      · intro h
        exact (one_lt_headers b).2.2.2 t htype (Option.some.inj h)
      · exact append_assoc _ _ _
      · exact .inr ⟨openFrame_frameStarted d timestamp, openFrame_currentTimestamp d timestamp⟩
    | stapA =>
      apply Taken.garbled
      have happend := weight_appendStapA_le (b :: rest).length (d.openFrame timestamp) rest
      have hopen := weight_openFrame_le timestamp d
      rw [countP_cons, if_pos (decide_eq_true ((one_lt_headers b).1 htype))]
      dsimp only [tail_cons]
      omega
    | fuA =>
      cases rest with
      | nil => exact Taken.lost rfl rfl id
      | cons header fuPayload => exact acceptFuA_taken d marker timestamp ((one_lt_headers b).2.1 htype)
    | other t => exact Taken.lost rfl rfl id

theorem pushPacket_taken (d : H264Depacketizer) (timestamp : UInt32) (piece : Bytes) (marker : Bool)
    (sequenceNumber : UInt16) : Taken timestamp piece d (d.pushPacket piece marker sequenceNumber timestamp).1 := by
  rw [pushPacket]
  split
  · exact Taken.lost rfl rfl id
  · split
    · exact Taken.lost rfl rfl id
    · -- the number of the packet is not looked at again
      have htaken := acceptPacket_taken { d with lastSeq := some sequenceNumber } timestamp piece marker
      cases htaken with
      | kept hne hhead hframe hfu hgoesOn =>
        rw [openFrame_setLastSeq] at hframe
        exact .kept hne hhead hframe hfu hgoesOn
      | lost hframe hfu hgoesOn => exact .lost hframe hfu hgoesOn
      | garbled hweight => exact .garbled hweight

theorem pushPacket_ne_frameComplete (d : H264Depacketizer) (payload : Bytes) (sequenceNumber : UInt16)
    (timestamp : UInt32) : (d.pushPacket payload false sequenceNumber timestamp).2 ≠ .frameComplete := by
  have hmore : completeOn false ≠ .frameComplete := by decide
  rw [pushPacket]
  split
  · simp
  · split
    · simp
    · unfold acceptPacket
      split
      · exact hmore
      · exact hmore
      · split
        · rw [acceptFuA]
          split
          · exact hmore
          · split
            · exact hmore
            · simp
        · simp
      · simp

theorem data_of_takeFrame {frame : LmCore.MediaFrame} (h : d.takeFrame.2 = some frame) :
    d.frameBuffer ≠ [] ∧ frame.data = d.frameBuffer := by
  rw [takeFrame] at h
  split at h
  · cases h
  · rename_i hready
    cases h
    refine ⟨?_, rfl⟩
    intro hempty
    rw [hempty] at hready
    exact hready rfl

/-- A piece that begins with a zero is lost. -/
theorem pushPacket_of_headD_eq_zero (d : H264Depacketizer) {payload : Bytes} (hhead : payload.headD 0 = 0)
    (marker : Bool) (sequenceNumber : UInt16) (timestamp : UInt32) :
    (d.pushPacket payload marker sequenceNumber timestamp).1.frameBuffer = d.frameBuffer ∧
      (d.pushPacket payload marker sequenceNumber timestamp).1.fuBuffer = d.fuBuffer := by
  rw [pushPacket]
  split
  · exact ⟨rfl, rfl⟩
  · split
    · exact ⟨rfl, rfl⟩
    · unfold acceptPacket
      rw [hhead]
      exact ⟨rfl, rfl⟩

/-! ## What it makes of all pieces -/

/-- The packets of a timestamp with these payloads have been pushed, whatever their numbers and markers. -/
inductive Fed (timestamp : UInt32) : List Bytes → H264Depacketizer → H264Depacketizer → Prop
  | nil (d : H264Depacketizer) : Fed timestamp [] d d
  | cons {piece : Bytes} {pieces : List Bytes} {d d' : H264Depacketizer} (marker : Bool)
      (sequenceNumber : UInt16)
      (h : Fed timestamp pieces (d.pushPacket piece marker sequenceNumber timestamp).1 d') :
      Fed timestamp (piece :: pieces) d d'

def joined (pieces : List (Bool × Bytes)) : Bytes :=
  pieces.flatMap fun piece => if piece.1 then startCode true ++ piece.2 else []

/-- Either every piece was kept as it is or lost, or bytes that are in no start code are missing. -/
theorem fed_cases {pieces : List Bytes} (h : Fed timestamp pieces d d') :
    d'.weight ≤ d.weight + pieces.flatten.countP (1 < ·) ∧
      (GoesOn timestamp d →
        d'.weight < d.weight + pieces.flatten.countP (1 < ·) ∨
          ∃ marked : List (Bool × Bytes), marked.map Prod.snd = pieces ∧
            (∀ piece ∈ marked, piece.1 = true → piece.2 ≠ [] ∧ piece.2.head? ≠ some 0) ∧
            d'.frameBuffer = d.frameBuffer ++ joined marked) := by
  induction h with
  | nil d =>
    refine ⟨le_add_right _ _, fun _ => .inr ⟨[], rfl, by simp, ?_⟩⟩
    exact (append_nil _).symm
  | @cons piece pieces d d' marker sequenceNumber _ ih =>
    obtain ⟨hle, hmarked⟩ := ih
    have htaken := pushPacket_taken d timestamp piece marker sequenceNumber
    have hweight := htaken.weight_le
    rw [flatten_cons, countP_append]
    refine ⟨by omega, fun hgoesOn => ?_⟩
    cases htaken with
    | kept hne hhead hframe hfu hnext =>
      rcases hmarked hnext with hless | ⟨marked, hpieces, hkept, hbuffer⟩
      · exact .inl (by omega)
      · refine .inr ⟨(true, piece) :: marked, ?_, ?_, ?_⟩
        · rw [map_cons, hpieces]
        · exact forall_mem_cons.2 ⟨fun _ => ⟨hne, hhead⟩, hkept⟩
        · rw [hbuffer, hframe, openFrame_frameBuffer hgoesOn, append_assoc]
          rfl
    | lost hframe hfu hnext =>
      rcases hmarked (hnext hgoesOn) with hless | ⟨marked, hpieces, hkept, hbuffer⟩
      · exact .inl (by omega)
      · refine .inr ⟨(false, piece) :: marked, ?_, ?_, ?_⟩
        · rw [map_cons, hpieces]
        · exact forall_mem_cons.2 ⟨fun h => absurd h Bool.false_ne_true, hkept⟩
        · rw [hbuffer, hframe]
          rfl
    | garbled hless => exact .inl (by omega)

theorem joined_cases (pieces : List (Bool × Bytes)) :
    joined pieces = [] ∨ ∃ tail, joined pieces = startCode true ++ tail := by
  induction pieces with
  | nil => exact .inl rfl
  | cons piece pieces ih =>
    obtain ⟨kept, bytes⟩ := piece
    cases kept with
    | true => exact .inr ⟨bytes ++ joined pieces, append_assoc _ _ _⟩
    | false => exact ih

theorem naluEnd_joined (pieces : List (Bool × Bytes)) : naluEnd (joined pieces) = 0 := by
  rcases joined_cases pieces with h | ⟨tail, h⟩
  · rw [h]
    rfl
  · rw [h]
    rfl

theorem content_joined (before : UInt8 × UInt8) (pieces : List (Bool × Bytes)) :
    content before (joined pieces) = keptContent pieces := by
  induction pieces generalizing before with
  | nil => rfl
  | cons piece pieces ih =>
    obtain ⟨kept, bytes⟩ := piece
    cases kept with
    | true =>
      have hcons : joined ((true, bytes) :: pieces) = startCode true ++ (bytes ++ joined pieces) :=
        append_assoc _ _ _
      rw [hcons, content_startCode, content_append, ih, keptContent_cons, if_pos rfl]
    | false =>
      rw [keptContent_cons, if_neg Bool.false_ne_true, zero_add]
      exact ih before

/-- A piece that is kept and ends in a zero gives a unit that does. -/
theorem last_ne_zero_of_joined {pieces : List (Bool × Bytes)}
    (hunits : ∀ unit ∈ splitAnnexbNalus (joined pieces), unit.getLast? ≠ some 0) :
    ∀ piece ∈ pieces, piece.1 = true → piece.2.getLast? ≠ some 0 := by
  rintro ⟨kept, bytes⟩ hmem rfl hlast
  obtain ⟨before, after, rfl⟩ := append_of_mem hmem
  obtain ⟨front, rfl⟩ : ∃ front, bytes = front ++ [0] := by
    rcases eq_nil_or_concat bytes with rfl | ⟨front, b, rfl⟩
    · cases hlast
    · rw [concat_eq_append, getLast?_concat] at hlast
      cases hlast
      exact ⟨front, concat_eq_append⟩
  have hbytes : joined (before ++ (true, front ++ [0]) :: after) =
      (joined before ++ startCode true ++ front) ++ 0 :: joined after := by
    simp [joined]
  obtain ⟨unit, hunit, hzero⟩ := exists_trailing_zero (naluEnd_joined _) (le_refl _) hbytes (joined_cases after)
  exact hunits unit hunit hzero

theorem countP_assemble (units : List (Bool × NalUnit)) :
    (assemble units).countP (fun b => decide (1 < b)) =
      (units.flatMap fun u => u.2.bytes).countP (fun b => decide (1 < b)) := by
  induction units with
  | nil => rfl
  | cons u units ih =>
    rw [assemble_cons, flatMap_cons, countP_append, countP_append, countP_append, countP_startCode, ih, zero_add]

theorem pieces_of_marked {marked : List (Bool × Bytes)}
    (hlengths : ∀ piece ∈ (marked.map Prod.snd).dropLast, 5 ≤ piece.length) (hkept : ∀ piece ∈ marked, piece.1 = true →
      piece.2 ≠ [] ∧ piece.2.head? ≠ some 0 ∧ piece.2.getLast? ≠ some 0) : Pieces marked := by
  induction marked with
  | nil => exact trivial
  | cons piece rest ih =>
    obtain ⟨hpiece, hrest⟩ := forall_mem_cons.1 hkept
    refine ⟨?_, hpiece, ih ?_ hrest⟩
    · intro hne
      apply hlengths
      obtain ⟨next, rest, rfl⟩ := exists_cons_of_ne_nil hne
      exact mem_cons_self
    · intro later hlater
      apply hlengths
      cases rest with
      | nil => cases hlater
      | cons next rest => exact mem_cons_of_mem piece.2 hlater

/-- The pieces of a frame without the first one, each a payload: the units of the frame do not come out. -/
theorem fed_units_ne {units : List (Bool × NalUnit)} (hheads : ∀ u ∈ units, u.2.bytes.head? ≠ some 0)
    {first : Bytes} {pieces : List Bytes} (hfirst : 10 ≤ first.length)
    (hlengths : ∀ piece ∈ pieces.dropLast, 5 ≤ piece.length) (hstream : assemble units = first ++ pieces.flatten)
    (hframe : d.frameBuffer = []) (hfu : d.fuBuffer = []) (hfed : Fed timestamp pieces d d') :
    splitAnnexbNalus d'.frameBuffer ≠ splitAnnexbNalus (assemble units) := by
  intro heq
  rw [splitAnnexbNalus_assemble] at heq
  have hflatten : (splitAnnexbNalus d'.frameBuffer).flatten = units.flatMap fun u => u.2.bytes := by
    rw [heq]
    rfl
  rcases (fed_cases hfed).2 (.inl hframe) with hless | ⟨marked, rfl, hkept, hbuffer⟩
  · -- a byte that is in no start code is missing
    have hzero : d.weight = 0 := by
      rw [weight, hframe, hfu]
      rfl
    have hsub := (splitNalus_flatten_sublist d'.frameBuffer.length d'.frameBuffer).countP_le
      (p := fun b => decide (1 < b))
    have hunits := countP_assemble units
    rw [← hflatten, hstream, countP_append, splitAnnexbNalus] at hunits
    rw [hzero, weight] at hless
    omega
  · rw [hframe, nil_append] at hbuffer
    rw [hbuffer] at heq hflatten
    have hlast : ∀ unit ∈ splitAnnexbNalus (joined marked), unit.getLast? ≠ some 0 := by
      intro unit hunit
      rw [heq] at hunit
      obtain ⟨u, _, rfl⟩ := mem_map.1 hunit
      exact u.2.last_ne_zero
    have hpieces : Pieces marked := by
      apply pieces_of_marked hlengths
      intro piece hmem htrue
      obtain ⟨hne, hhead⟩ := hkept piece hmem htrue
      exact ⟨hne, hhead, last_ne_zero_of_joined hlast piece hmem htrue⟩
    have hcount := countP_splitNalus_le (naluEnd_joined marked) (1, 1) (joined marked).length
    rw [← splitAnnexbNalus, hflatten, content_joined] at hcount
    have hlt := keptContent_lt hheads hfirst hpieces hstream
    omega

end H264Depacketizer

end LingVoice.LmDepacketizer

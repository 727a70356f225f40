import LingVoice.Gb28181.PsMedia
import LingVoice.Lib.AnnexB

/-!
# PsStream — well-formed PS streams

A stream is a list of pack headers, system headers, program stream maps and PES packets.  In the headers no start code
`00 00 01` occurs; in a video payload one stands before every NAL unit, and an audio payload may hold anything.
-/

namespace LingVoice.Gb28181

open Lib (byteAt u16At be16)
open Lib.AnnexB List Nat
open Common

/-- The bytes behind the start code `00 00 01 BA`.  The low bits of the last field count the stuffing bytes. -/
structure PackHeader where
  fields : Bytes
  stuffing : Bytes
  length_fields : fields.length = 10
  length_stuffing : stuffing.length = (byteAt fields 9 &&& 0x07).toNat
  codeFree : CodeFree (fields ++ stuffing)

/-- A system header or a program stream map. -/
structure SystemSection where
  code : UInt8
  body : Bytes
  code_eq : code = 0xBB ∨ code = 0xBC
  ne_nil : body ≠ []
  length_lt : body.length < 2 ^ 16
  codeFree : CodeFree (be16 (UInt16.ofNat body.length) ++ body)

/-- What stands between the stream id and the payload of a PES packet. -/
def pesHeader (flags1 flags2 : UInt8) (optional : Bytes) (payloadLength : Nat) : Bytes :=
  be16 (UInt16.ofNat (3 + optional.length + payloadLength)) ++
    [flags1, flags2, UInt8.ofNat optional.length] ++ optional

/-- A PES packet.  In a PS stream the length field is never 0. -/
structure Pes where
  streamID : UInt8
  flags1 : UInt8
  flags2 : UInt8
  optional : Bytes
  payload : Bytes
  length_optional : optional.length < 2 ^ 8
  length_lt : 3 + optional.length + payload.length < 2 ^ 16
  codeFree : CodeFree (pesHeader flags1 flags2 optional payload.length)

structure VideoPes extends Pes where
  units : List (Bool × NalUnit)
  isVideoId : IsVideoId streamID
  payload_eq : payload = assemble units

structure AudioPes extends Pes where
  isAudioId : IsAudioId streamID

inductive Element
  | pack (header : PackHeader)
  | system (sec : SystemSection)
  | video (pes : VideoPes)
  | audio (pes : AudioPes)

namespace Pes

def header (p : Pes) : Bytes :=
  pesHeader p.flags1 p.flags2 p.optional p.payload.length

def bytes (p : Pes) : Bytes :=
  0 :: 0 :: 1 :: p.streamID :: (p.header ++ p.payload)

end Pes

namespace Element

def bytes : Element → Bytes
  | pack header => 0 :: 0 :: 1 :: 0xBA :: (header.fields ++ header.stuffing)
  | system sec => 0 :: 0 :: 1 :: sec.code :: (be16 (UInt16.ofNat sec.body.length) ++ sec.body)
  | video pes => pes.bytes
  | audio pes => pes.bytes

def media : Element → List (FrameType × Bytes)
  | pack _ => []
  | system _ => []
  | video pes => videoMedia pes.payload
  | audio pes => audioMedia pes.payload

end Element

/-- An element without the contents of optional headers and payloads. -/
inductive Layout
  | header (bytes : Bytes)
  | video (streamID : UInt8) (optional : Nat) (units : List (Bool × Nat))
  | audio (streamID : UInt8) (optional payload : Nat)
  deriving DecidableEq, Repr

def Element.layout : Element → Layout
  | .pack header => .header (Element.pack header).bytes
  | .system sec => .header (Element.system sec).bytes
  | .video pes => .video pes.streamID pes.optional.length (pes.units.map fun u => (u.1, u.2.bytes.length))
  | .audio pes => .audio pes.streamID pes.optional.length pes.payload.length

namespace Layout

def size : Layout → Nat
  | header bytes => bytes.length
  | video _ optional units => 9 + optional + (units.map fun u => (startCode u.1).length + u.2).sum
  | audio _ optional payload => 9 + optional + payload

def IsEmpty : Layout → Prop
  | header _ => True
  | video _ _ units => units = []
  | audio _ _ payload => payload = 0

/-- Nothing is lost or added when the element is cut `o` bytes behind its beginning: it carries no media, and of an
audio packet the cut leaves the optional header for the next piece. -/
def Bears (o : Nat) : Layout → Prop
  | header _ => True
  | video _ _ units => units = []
  | audio _ _ payload => payload = 0 ∧ o ≤ 9

instance (l : Layout) (o : Nat) : Decidable (l.Bears o) :=
  match l with
  | header _ => inferInstanceAs (Decidable True)
  | video _ _ units => inferInstanceAs (Decidable (units = []))
  | audio _ _ payload => inferInstanceAs (Decidable (payload = 0 ∧ o ≤ 9))

end Layout

def stream (elems : List Element) : Bytes :=
  elems.flatMap Element.bytes

/-! ## The scan for start codes -/

variable {b : UInt8} {tail junk rest : Bytes} {n o : Nat} {kind : TrackKind}

theorem mediaOf_of_error {e : String}
    (h : parseStartCode (0 :: 0 :: 1 :: b :: tail) = .error e) : mediaOf (0 :: 0 :: 1 :: b :: tail) = [] := by
  rw [mediaOf_eq, findStartCode_cons]
  simp only [h]

theorem mediaOf_of_ok {unit : Option (TrackKind × PesPacket)} {stop : Nat}
    (h : parseStartCode (0 :: 0 :: 1 :: b :: tail) = .ok (unit, stop)) :
    mediaOf (0 :: 0 :: 1 :: b :: tail) = pesMedia unit ++ mediaOf ((0 :: 0 :: 1 :: b :: tail).drop stop) := by
  rw [mediaOf_eq, findStartCode_cons]
  simp only [h]

/-- What is not a PES packet gives nothing; the receiver goes on somewhere behind the start code. -/
theorem mediaOf_skip (hvideo : ¬ IsVideoId b) (haudio : ¬ IsAudioId b) (tail : Bytes) :
    mediaOf (0 :: 0 :: 1 :: b :: tail) = [] ∨
      ∃ n, 0 < n ∧ mediaOf (0 :: 0 :: 1 :: b :: tail) = mediaOf ((0 :: 0 :: 1 :: b :: tail).drop n) := by
  cases hparse : parseStartCode (0 :: 0 :: 1 :: b :: tail) with
  | error e => exact .inl (mediaOf_of_error hparse)
  | ok read =>
    have hmedia : pesMedia read.1 = [] := by
      rw [parseStartCode_eq] at hparse
      split_ifs at hparse with hpack hvideo' haudio'
      · obtain ⟨_, _, rfl⟩ := map_eq_ok.1 hparse
        rfl
      · exact absurd hvideo' hvideo
      · exact absurd haudio' haudio
      · obtain ⟨_, _, rfl⟩ := map_eq_ok.1 hparse
        rfl
    refine .inr ⟨read.2, stop_pos hparse, ?_⟩
    rw [mediaOf_of_ok hparse, hmedia, nil_append]

/-- Bytes without a start code are passed over. -/
theorem mediaOf_append (hjunk : CodeFree junk) (hrest : Opens rest) : mediaOf (junk ++ rest) = mediaOf rest := by
  apply mediaOf_congr
  apply Lib.firstSuffix_append
  intro u hne hsuffix hcode
  exact (hjunk.of_part hsuffix.isInfix).not_begins hne hrest hcode.begins

theorem mediaOf_of_codeFree (hjunk : CodeFree junk) : mediaOf junk = [] := by
  have hmedia := mediaOf_append hjunk (.inl rfl)
  rw [append_nil] at hmedia
  exact hmedia

/-- A start code that is cut off is none. -/
theorem mediaOf_of_length_lt {data : Bytes} (h : data.length < 4) : mediaOf data = [] := by
  have hfind : findStartCode data = none := by
    apply Lib.firstSuffix_eq_none
    intro u _ hsuffix hcode
    have hle := hsuffix.length_le
    have hfour := hcode.1
    omega
  rw [mediaOf_eq, hfind]

/-- What begins with a start code, cut off: without the code, or with it. -/
theorem take_startCode (code : UInt8) (tail : Bytes) (o : Nat) :
    mediaOf ((0 :: 0 :: 1 :: code :: tail).take o) = [] ∧ o < 4 ∨
      ∃ k, o = 4 + k ∧ (0 :: 0 :: 1 :: code :: tail).take o = 0 :: 0 :: 1 :: code :: tail.take k := by
  by_cases hcode : o < 4
  · refine .inl ⟨mediaOf_of_length_lt ?_, hcode⟩
    rw [length_take]
    omega
  · obtain ⟨k, rfl⟩ := Nat.exists_eq_add_of_le (Nat.le_of_not_lt hcode)
    refine .inr ⟨k, rfl, ?_⟩
    rw [add_comm]
    rfl

/-! ## Headers and sections -/

theorem skipPackHeader_fields (header : PackHeader) (tail : Bytes) :
    skipPackHeader (0 :: 0 :: 1 :: 0xBA :: (header.fields ++ tail)) =
      if tail.length < header.stuffing.length then .error "gb28181 ps: pack header stuffing overflow"
      else .ok (14 + header.stuffing.length) := by
  have hlength : (0 :: 0 :: 1 :: 0xBA :: (header.fields ++ tail)).length = 14 + tail.length := by
    simp only [length_cons, length_append, header.length_fields]
    omega
  have hstuffing : byteAt (0 :: 0 :: 1 :: 0xBA :: (header.fields ++ tail)) 13 = byteAt header.fields 9 := by
    have hnine : 9 < header.fields.length := by
      rw [header.length_fields]
      omega
    change byteAt (header.fields ++ tail) 9 = _
    simp only [byteAt, getD_eq_getElem?_getD, getElem?_append_left hnine]
  rw [skipPackHeader, if_neg (by omega)]
  simp only [hlength, hstuffing, ← header.length_stuffing, add_lt_add_iff_left]

variable (sec : SystemSection)

theorem skipSection_length (tail : Bytes) :
    skipSection (0 :: 0 :: 1 :: sec.code :: (be16 (UInt16.ofNat sec.body.length) ++ tail)) =
      .ok (6 + min sec.body.length tail.length) := by
  obtain ⟨hi, lo, hbytes, hvalue⟩ := Lib.be16_bytes (UInt16.ofNat sec.body.length)
  have hnat : (UInt16.ofNat sec.body.length).toNat = sec.body.length := UInt16.toNat_ofNat_of_lt sec.length_lt
  have hlength : (0 :: 0 :: 1 :: sec.code :: hi :: lo :: tail).length = 6 + tail.length := by
    simp only [length_cons]
    omega
  have hu16 : u16At (0 :: 0 :: 1 :: sec.code :: hi :: lo :: tail) 4 = u16At [hi, lo] 0 := rfl
  have hpos := length_pos_of_ne_nil sec.ne_nil
  rw [hbytes]
  change skipSection (0 :: 0 :: 1 :: sec.code :: hi :: lo :: tail) = _
  rw [skipSection, if_neg (by omega)]
  simp only [hlength, hu16, hvalue, hnat, if_neg (ne_of_gt hpos)]
  split
  · congr 1
    omega
  · congr 1
    omega

/-! ## PES packets -/

/-- A PES packet of which `n` bytes are announced behind the length of the optional header. -/
theorem parsePES_cons {hi lo : UInt8} (hlength : (u16At [hi, lo] 0).toNat = 3 + n)
    (id flags1 flags2 len : UInt8) (tail : Bytes) :
    ∃ pes, parsePES (0 :: 0 :: 1 :: id :: hi :: lo :: flags1 :: flags2 :: len :: tail) =
        .ok (pes, 9 + min n tail.length) ∧
      pes.payload = (tail.take n).drop (if tail.length < len.toNat then 0 else len.toNat) := by
  have hlen : (0 :: 0 :: 1 :: id :: hi :: lo :: flags1 :: flags2 :: len :: tail).length = 9 + tail.length := by
    simp only [length_cons]
    omega
  have hu16 : u16At (0 :: 0 :: 1 :: id :: hi :: lo :: flags1 :: flags2 :: len :: tail) 4 = u16At [hi, lo] 0 := rfl
  have hbyte : byteAt (0 :: 0 :: 1 :: id :: hi :: lo :: flags1 :: flags2 :: len :: tail) 8 = len := rfl
  have hne : ¬ 3 + n = 0 := by omega
  have hstop : min (6 + (3 + n)) (9 + tail.length) = 9 + min n tail.length := by omega
  rw [parsePES, if_neg (by rw [hlen]; omega)]
  simp only [hlen, hu16, hbyte, hlength, if_neg hne, hstop]
  refine ⟨_, rfl, ?_⟩
  have hcut : min (9 + if 9 + tail.length < 9 + len.toNat then 0 else len.toNat) (9 + min n tail.length) =
      9 + min (if tail.length < len.toNat then 0 else len.toNat) (min n tail.length) := by
    simp only [add_lt_add_iff_left]
    omega
  have hkept : (tail.take n).length = min n tail.length := length_take
  rw [hcut]
  generalize (if tail.length < len.toNat then 0 else len.toNat) = skipped
  have htake : (0 :: 0 :: 1 :: id :: hi :: lo :: flags1 :: flags2 :: len :: tail).take (9 + min n tail.length) =
      0 :: 0 :: 1 :: id :: hi :: lo :: flags1 :: flags2 :: len :: tail.take n := by
    rw [take_eq_take_min (i := n), add_comm]
    rfl
  have hdrop : ∀ k, (0 :: 0 :: 1 :: id :: hi :: lo :: flags1 :: flags2 :: len :: tail.take n).drop (9 + k) =
      (tail.take n).drop k := by
    intro k
    rw [add_comm]
    rfl
  rw [htake, hdrop, ← hkept, ← drop_eq_drop_min]

variable (p : Pes)

theorem Pes.exists_bytes :
    ∃ hi lo, (u16At [hi, lo] 0).toNat = 3 + (p.optional.length + p.payload.length) ∧
      p.bytes = 0 :: 0 :: 1 :: p.streamID :: hi :: lo :: p.flags1 :: p.flags2 :: UInt8.ofNat p.optional.length ::
        (p.optional ++ p.payload) := by
  obtain ⟨hi, lo, hbytes, hvalue⟩ := Lib.be16_bytes (UInt16.ofNat (3 + p.optional.length + p.payload.length))
  refine ⟨hi, lo, ?_, ?_⟩
  · have hnat : (UInt16.ofNat (3 + p.optional.length + p.payload.length)).toNat =
        3 + p.optional.length + p.payload.length := UInt16.toNat_ofNat_of_lt p.length_lt
    rw [hvalue, hnat, add_assoc]
  · rw [bytes, header, pesHeader, hbytes]
    simp

theorem Pes.toNat_length_optional : (UInt8.ofNat p.optional.length).toNat = p.optional.length :=
  UInt8.toNat_ofNat_of_lt p.length_optional

theorem Pes.length_bytes : p.bytes.length = 9 + p.optional.length + p.payload.length := by
  obtain ⟨hi, lo, _, hbytes⟩ := p.exists_bytes
  rw [hbytes]
  simp only [length_cons, length_append]
  omega

theorem Pes.parsePES_append (rest : Bytes) :
    ∃ pes, parsePES (p.bytes ++ rest) = .ok (pes, p.bytes.length) ∧ pes.payload = p.payload := by
  obtain ⟨hi, lo, hlength, hbytes⟩ := p.exists_bytes
  obtain ⟨pes, hparse, hpayload⟩ := parsePES_cons hlength p.streamID p.flags1 p.flags2
    (UInt8.ofNat p.optional.length) (p.optional ++ p.payload ++ rest)
  rw [p.toNat_length_optional, if_neg (by simp only [length_append]; omega)] at hpayload
  refine ⟨pes, ?_, ?_⟩
  · rw [p.length_bytes]
    rw [hbytes]
    refine hparse.trans ?_
    congr 2
    simp only [length_append]
    omega
  · rw [hpayload, ← length_append, take_left, drop_left]

/-- A packet that is cut off behind its fixed part: what is there of the optional header is taken for the payload
when the header is not all there. -/
theorem Pes.parsePES_take (hn : 9 + n < p.bytes.length) :
    ∃ pes, parsePES (p.bytes.take (9 + n)) = .ok (pes, 9 + n) ∧
      pes.payload =
        if n < p.optional.length then p.optional.take n else p.payload.take (n - p.optional.length) := by
  obtain ⟨hi, lo, hlength, hbytes⟩ := p.exists_bytes
  obtain ⟨pes, hparse, hpayload⟩ := parsePES_cons hlength p.streamID p.flags1 p.flags2
    (UInt8.ofNat p.optional.length) ((p.optional ++ p.payload).take n)
  rw [p.length_bytes] at hn
  have hshort : ((p.optional ++ p.payload).take n).length = n := by
    rw [length_take, length_append]
    omega
  rw [p.toNat_length_optional, hshort, take_take] at hpayload
  rw [hshort, min_eq_right (by omega)] at hparse
  refine ⟨pes, ?_, ?_⟩
  · rw [hbytes, add_comm 9 n]
    rw [add_comm 9 n] at hparse
    exact hparse
  · rw [hpayload, min_eq_right (by omega)]
    by_cases hoptional : n < p.optional.length
    · rw [if_pos hoptional, if_pos hoptional, drop_zero, take_append_of_le_length (le_of_lt hoptional)]
    · rw [if_neg hoptional, if_neg hoptional, take_append, take_of_length_le (Nat.le_of_not_lt hoptional), drop_left]

/-! ## Elements -/

def kindMedia : TrackKind → Bytes → List (FrameType × Bytes)
  | .trackVideo => videoMedia
  | .trackAudio => audioMedia

theorem pesMedia_some (kind : TrackKind) (pes : PesPacket) :
    pesMedia (some (kind, pes)) = kindMedia kind pes.payload := by
  cases kind with
  | trackVideo | trackAudio => rfl

theorem SystemSection.code_section : sec.code ≠ 0xBA ∧ 1 < sec.code ∧ ¬ IsVideoId sec.code ∧ ¬ IsAudioId sec.code := by
  rcases sec.code_eq with h | h
  · rw [h]
    decide
  · rw [h]
    decide

theorem SystemSection.parseStartCode_cons (tail : Bytes) :
    parseStartCode (0 :: 0 :: 1 :: sec.code :: tail) =
      (skipSection (0 :: 0 :: 1 :: sec.code :: tail)).map fun stop => (none, stop) := by
  obtain ⟨hpack, -, hvideo, haudio⟩ := sec.code_section
  rw [parseStartCode_eq]
  exact (if_neg hpack).trans ((if_neg hvideo).trans (if_neg haudio))

/-- The receiver takes a packet with that id for one of that kind. -/
def Pes.IsOf (p : Pes) (kind : TrackKind) : Prop :=
  ∀ tail, parseStartCode (0 :: 0 :: 1 :: p.streamID :: tail) =
    (parsePES (0 :: 0 :: 1 :: p.streamID :: tail)).map fun r => (some (kind, r.1), r.2)

theorem VideoPes.isOf (v : VideoPes) : v.toPes.IsOf .trackVideo :=
  fun _ => parseStartCode_video v.isVideoId

theorem AudioPes.isOf (a : AudioPes) : a.toPes.IsOf .trackAudio :=
  fun _ => parseStartCode_audio a.isAudioId

theorem Pes.parseStartCode_append (hkind : p.IsOf kind) (rest : Bytes) :
    ∃ unit, parseStartCode (p.bytes ++ rest) = .ok (unit, p.bytes.length) ∧
      pesMedia unit = kindMedia kind p.payload := by
  obtain ⟨pes, hparse, hpayload⟩ := p.parsePES_append rest
  refine ⟨some (kind, pes), ?_, ?_⟩
  · refine (hkind _).trans ?_
    exact congrArg (Except.map fun r => (some (kind, r.1), r.2)) hparse
  · rw [pesMedia_some, hpayload]

namespace Element

theorem length_bytes (e : Element) : e.bytes.length = e.layout.size := by
  cases e with
  | pack header | system sec => rfl
  | video v =>
    have hlength : (video v).bytes.length = 9 + v.optional.length + v.payload.length := v.toPes.length_bytes
    rw [hlength, v.payload_eq, assemble, length_flatMap]
    simp only [layout, Layout.size, map_map, Function.comp_def, length_append]
  | audio a => exact a.toPes.length_bytes

theorem exists_bytes (e : Element) : ∃ code tail, e.bytes = 0 :: 0 :: 1 :: code :: tail := by
  cases e with
  | pack header | system sec | video v | audio a => exact ⟨_, _, rfl⟩

theorem parseStartCode_append (e : Element) (rest : Bytes) :
    ∃ unit, parseStartCode (e.bytes ++ rest) = .ok (unit, e.bytes.length) ∧ pesMedia unit = e.media := by
  cases e with
  | pack header =>
    have hskip := skipPackHeader_fields header (header.stuffing ++ rest)
    rw [if_neg (by rw [length_append]; omega), ← append_assoc] at hskip
    refine ⟨none, ?_, rfl⟩
    refine (congrArg (Except.map fun stop => (none, stop)) hskip).trans ?_
    have hlength : 14 + header.stuffing.length = (pack header).bytes.length := by
      simp only [bytes, length_cons, length_append, header.length_fields]
      omega
    rw [← hlength]
    rfl
  | system sec =>
    have hskip := skipSection_length sec (sec.body ++ rest)
    rw [min_eq_left (by rw [length_append]; omega), ← append_assoc] at hskip
    refine ⟨none, ?_, rfl⟩
    refine (sec.parseStartCode_cons _).trans ?_
    refine (congrArg (Except.map fun stop => (none, stop)) hskip).trans ?_
    have hlength : 6 + sec.body.length = (system sec).bytes.length := by
      simp only [bytes, length_cons, length_append, Lib.length_be16]
      omega
    rw [← hlength]
    rfl
  | video v => exact v.parseStartCode_append v.isOf rest
  | audio a => exact a.parseStartCode_append a.isOf rest

end Element

/-- A whole element gives its media, whatever follows it. -/
theorem mediaOf_element (e : Element) (rest : Bytes) : mediaOf (e.bytes ++ rest) = e.media ++ mediaOf rest := by
  obtain ⟨unit, hparse, hmedia⟩ := e.parseStartCode_append rest
  obtain ⟨code, tail, hbytes⟩ := e.exists_bytes
  rw [hbytes] at hparse ⊢
  refine (mediaOf_of_ok hparse).trans ?_
  have hdrop : ((0 :: 0 :: 1 :: code :: tail) ++ rest).drop (0 :: 0 :: 1 :: code :: tail).length = rest :=
    drop_left
  exact congrArg₂ (· ++ mediaOf ·) hmedia hdrop

theorem mediaOf_stream_append (elems : List Element) (rest : Bytes) :
    mediaOf (stream elems ++ rest) = elems.flatMap Element.media ++ mediaOf rest := by
  induction elems with
  | nil => rfl
  | cons e elems ih =>
    rw [stream, flatMap_cons, append_assoc, mediaOf_element]
    exact (congrArg (e.media ++ ·) ih).trans (append_assoc _ _ _).symm

/-! ## Elements that are cut off -/

/-- What the receiver takes for the payload of a packet of which `o` bytes are there: the optional header, when this
is not all there. -/
def Pes.seen (p : Pes) (o : Nat) : Bytes :=
  if o - 9 < p.optional.length then p.optional.take (o - 9) else p.payload.take (o - 9 - p.optional.length)

theorem Pes.seen_of_le (h : o ≤ 9) : p.seen o = [] := by
  rw [seen, Nat.sub_eq_zero_of_le h, Nat.zero_sub, take_zero, take_zero, ite_self]

theorem kindMedia_nil (kind : TrackKind) : kindMedia kind [] = [] := by
  cases kind with
  | trackVideo | trackAudio => rfl

theorem Pes.mediaOf_take (hkind : p.IsOf kind) (ho : o < p.bytes.length) :
    mediaOf (p.bytes.take o) = kindMedia kind (p.seen o) := by
  have hlength : (p.bytes.take o).length = o := by
    rw [length_take]
    omega
  rcases take_startCode p.streamID (p.header ++ p.payload) o with ⟨hmedia, hlt⟩ | ⟨k, rfl, htake⟩
  · rw [p.seen_of_le (by omega), kindMedia_nil]
    exact hmedia
  rw [← bytes] at htake
  by_cases hfixed : 4 + k < 9
  · rw [p.seen_of_le (by omega), kindMedia_nil]
    have herror : parsePES (p.bytes.take (4 + k)) = .error _ := if_pos (by omega)
    rw [htake] at herror ⊢
    apply mediaOf_of_error
    rw [hkind, herror]
    rfl
  · obtain ⟨n, hn⟩ := Nat.exists_eq_add_of_le (Nat.le_of_not_lt hfixed)
    rw [hn] at ho
    obtain ⟨pes, hparse, hpayload⟩ := p.parsePES_take ho
    have hseen : p.seen (4 + k) = pes.payload := by
      rw [hpayload, seen, hn, Nat.add_sub_cancel_left]
    have hend : (p.bytes.take (4 + k)).drop (4 + k) = [] := drop_of_length_le (le_of_eq hlength)
    rw [← hn] at hparse
    rw [htake] at hparse hend ⊢
    have hok : parseStartCode (0 :: 0 :: 1 :: p.streamID :: (p.header ++ p.payload).take k) =
        .ok (some (kind, pes), 4 + k) := by
      rw [hkind, hparse]
      rfl
    rw [mediaOf_of_ok hok, hend, mediaOf_nil, append_nil, pesMedia_some, hseen]

section Empty

/-- Bytes behind a start code, without one of their own. -/
theorem codeFree_behind {code : UInt8} {body : Bytes} (hcode : 1 < code) (hbody : CodeFree body) :
    CodeFree (0 :: 1 :: code :: body) := by
  have hfront : CodeFree [0, 1] := by decide
  exact hfront.append_cons hcode hbody

theorem VideoPes.streamID_gt (v : VideoPes) : 1 < v.streamID :=
  UInt8.lt_of_lt_of_le (by decide) v.isVideoId.1

theorem AudioPes.streamID_gt (a : AudioPes) : 1 < a.streamID :=
  UInt8.lt_of_lt_of_le (by decide) a.isAudioId.1

theorem VideoPes.payload_eq_nil_iff (v : VideoPes) : v.payload = [] ↔ v.units = [] := by
  rw [v.payload_eq]
  cases v.units with
  | nil => exact iff_of_true rfl rfl
  | cons u units =>
    refine iff_of_false ?_ (cons_ne_nil u units)
    intro hnil
    exact startCode_ne_nil u.1 (append_eq_nil_iff.1 (append_eq_nil_iff.1 hnil).1).1

variable {e : Element} {data : Bytes}

theorem Element.codeFree_tail (h : e.layout.IsEmpty) : CodeFree e.bytes.tail := by
  cases e with
  | pack header => exact codeFree_behind (by decide) header.codeFree
  | system sec => exact codeFree_behind sec.code_section.2.1 sec.codeFree
  | video v =>
    have hpayload : v.payload = [] := v.payload_eq_nil_iff.2 (map_eq_nil_iff.1 h)
    have htail : (video v).bytes.tail = 0 :: 1 :: v.streamID :: (v.header ++ v.payload) := rfl
    rw [htail, hpayload, append_nil]
    exact codeFree_behind v.streamID_gt v.codeFree
  | audio a =>
    have hpayload : a.payload = [] := length_eq_zero_iff.1 h
    have htail : (audio a).bytes.tail = 0 :: 1 :: a.streamID :: (a.header ++ a.payload) := rfl
    rw [htail, hpayload, append_nil]
    exact codeFree_behind a.streamID_gt a.codeFree

theorem Element.media_of_isEmpty (h : e.layout.IsEmpty) : e.media = [] := by
  cases e with
  | pack header | system sec => rfl
  | video v =>
    rw [media, v.payload_eq_nil_iff.2 (map_eq_nil_iff.1 h)]
    rfl
  | audio a =>
    rw [media, length_eq_zero_iff.1 h]
    rfl

theorem startCodeLen_of_codeFree (h : CodeFree data) : startCodeLen data = 0 := by
  unfold startCodeLen
  split
  · rename_i hlong
    match data, hlong with
    | a :: b :: c :: d :: tail, ⟨_, h0, h1, h2, h3⟩ =>
      obtain ⟨rfl, rfl, rfl, rfl⟩ : a = 0 ∧ b = 0 ∧ c = 0 ∧ d = 1 := ⟨h0, h1, h2, h3⟩
      exact absurd ⟨[0], tail, rfl⟩ h
  · split
    · rename_i hshort
      match data, hshort with
      | a :: b :: c :: tail, ⟨_, h0, h1, h2⟩ =>
        obtain ⟨rfl, rfl, rfl⟩ : a = 0 ∧ b = 0 ∧ c = 1 := ⟨h0, h1, h2⟩
        exact absurd ⟨[], tail, rfl⟩ h
    · rfl

theorem videoMedia_of_codeFree (h : CodeFree data) : videoMedia data = [] := by
  have hsplit (fuel : Nat) : splitLoop fuel data = [] := by
    induction data generalizing fuel with
    | nil =>
      cases fuel with
      | zero | succ fuel => rfl
    | cons b rest ih =>
      cases fuel with
      | zero => rfl
      | succ fuel =>
        rw [splitLoop, if_pos (startCodeLen_of_codeFree h)]
        exact ih (codeFree_cons.1 h).2 fuel
  rw [videoMedia, splitAnnexB, hsplit]
  rfl

namespace Element

/-- A header of which the end is missing. -/
theorem mediaOf_take_header {code : UInt8} (hcode : 1 < code ∧ ¬ IsVideoId code ∧ ¬ IsAudioId code)
    (hfree : CodeFree data) (o : Nat) : mediaOf ((0 :: 0 :: 1 :: code :: data).take o) = [] := by
  rcases take_startCode code data o with ⟨hmedia, -⟩ | ⟨k, rfl, htake⟩
  · exact hmedia
  rw [htake]
  rcases mediaOf_skip hcode.2.1 hcode.2.2 (data.take k) with hnone | ⟨n, hpos, hlater⟩
  · exact hnone
  · -- behind its first byte there is no start code
    obtain ⟨n, rfl⟩ := exists_eq_add_one_of_ne_zero (ne_of_gt hpos)
    have hbehind := codeFree_behind hcode.1 (hfree.of_part (List.take_prefix k data).isInfix)
    rw [hlater, drop_succ_cons]
    exact mediaOf_of_codeFree (hbehind.of_part (drop_suffix n _).isInfix)

theorem mediaOf_take_pack (header : PackHeader) (o : Nat) : mediaOf ((pack header).bytes.take o) = [] :=
  mediaOf_take_header (by decide) header.codeFree o

theorem mediaOf_take_system (o : Nat) : mediaOf ((system sec).bytes.take o) = [] :=
  mediaOf_take_header sec.code_section.2 sec.codeFree o

/-- What an element without payload gives when it is cut off. -/
theorem mediaOf_take_eq_nil_iff {e : Element} (hempty : e.layout.IsEmpty) {o : Nat} (ho : o < e.bytes.length) :
    mediaOf (e.bytes.take o) = [] ↔ e.layout.Bears o := by
  cases e with
  | pack header => exact iff_of_true (mediaOf_take_pack header o) trivial
  | system sec => exact iff_of_true (mediaOf_take_system sec o) trivial
  | video v =>
    refine iff_of_true ?_ hempty
    have hpayload : v.payload = [] := v.payload_eq_nil_iff.2 (map_eq_nil_iff.1 hempty)
    have hfree : CodeFree v.optional := v.codeFree.of_part (suffix_append _ _).isInfix
    have hseen : CodeFree (v.seen o) := by
      rw [Pes.seen, hpayload, take_nil]
      split
      · exact hfree.of_part (List.take_prefix _ _).isInfix
      · decide
    exact (v.mediaOf_take v.isOf ho).trans (videoMedia_of_codeFree hseen)
  | audio a =>
    have hpayload : a.payload = [] := length_eq_zero_iff.1 hempty
    have hlength : o < 9 + a.optional.length + a.payload.length := a.length_bytes ▸ ho
    have hseen : a.seen o = [] ↔ o ≤ 9 := by
      rw [hpayload, length_nil] at hlength
      by_cases hle : o ≤ 9
      · exact iff_of_true (a.seen_of_le hle) hle
      · refine iff_of_false ?_ hle
        have hcut : o - 9 < a.optional.length := by omega
        rw [Pes.seen, if_pos hcut, take_eq_nil_iff]
        rintro (hzero | hnil)
        · omega
        · rw [hnil] at hcut
          exact not_lt_zero _ hcut
    have hmedia : audioMedia (a.seen o) = [] ↔ a.seen o = [] := by
      unfold audioMedia
      split
      · rename_i hnil
        exact iff_of_true rfl hnil
      · rename_i hne
        exact iff_of_false (cons_ne_nil _ _) hne
    have htake : mediaOf ((audio a).bytes.take o) = audioMedia (a.seen o) := a.mediaOf_take a.isOf ho
    rw [htake, hmedia, hseen]
    exact ⟨fun hle => ⟨hempty, hle⟩, fun h => h.2⟩

end Element

end Empty

end LingVoice.Gb28181

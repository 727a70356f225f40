import LingVoice.Lib.ByteReader
import LingVoice.Lib.Field
import Mathlib.Algebra.Order.Ring.Int

/-!
# Transport — MoQ messages on a stream (`pkg/protocol/moq/transport.go`)

A message is written behind its length.  `ReadMessage` refuses a length above `math.MaxInt32`, which two strings of
less than `2 ^ 30` bytes can reach; all shorter messages are read back (`messages_roundTrip_iff`).

A Go string is given by its bytes.
-/

namespace LingVoice.Moq

open Lib List

/-- `quicvarint`: what `Append` writes is read back by `Read` and by `Parse`.  Above `2 ^ 62` there is no encoding. -/
structure Varint where
  append : UInt64 → Bytes
  read : Bytes → Except String (UInt64 × Bytes)
  parse : Bytes → Except String (UInt64 × Nat)
  read_append : ∀ v : UInt64, v.toNat < 2 ^ 62 → ∀ rest, read (append v ++ rest) = .ok (v, rest)
  parse_append : ∀ v : UInt64, v.toNat < 2 ^ 62 → ∀ rest, parse (append v ++ rest) = .ok (v, (append v).length)

inductive Message
  | object (trackAlias groupID objectID timestamp : UInt64) (payload : Bytes)
  | subscribe (subscribeID trackAlias : UInt64) (trackNamespace trackName : Bytes) (startGroup endGroup : UInt64)
  | announce (trackNamespace : Bytes) (trackNames : List Bytes)
  | goAway (newURI : Bytes)
  deriving DecidableEq, Repr

def msgObject : UInt64 := 0x00
def msgSubscribe : UInt64 := 0x10
def msgAnnounce : UInt64 := 0x20
def msgGoAway : UInt64 := 0x30

def maxInt32 : UInt64 := 2147483647

namespace Varint

variable (q : Varint)

def width (v : UInt64) : Nat :=
  (q.append v).length

def stringSize (data : Bytes) : Nat :=
  q.width (UInt64.ofNat data.length) + data.length

/-! ## Writing -/

def appendLengthPrefixed (data : Bytes) : Bytes :=
  q.append (UInt64.ofNat data.length) ++ data

def encode : Message → Bytes
  | .object trackAlias groupID objectID timestamp payload =>
    q.append msgObject ++ (q.append trackAlias ++ (q.append groupID ++ (q.append objectID ++ (q.append timestamp ++
      q.appendLengthPrefixed payload))))
  | .subscribe subscribeID trackAlias trackNamespace trackName startGroup endGroup =>
    q.append msgSubscribe ++ (q.append subscribeID ++ (q.append trackAlias ++ (q.appendLengthPrefixed trackNamespace ++
      (q.appendLengthPrefixed trackName ++ (q.append startGroup ++ q.append endGroup)))))
  | .announce trackNamespace trackNames =>
    q.append msgAnnounce ++ (q.appendLengthPrefixed trackNamespace ++ (q.append (UInt64.ofNat trackNames.length) ++
      trackNames.flatMap q.appendLengthPrefixed))
  | .goAway newURI => q.append msgGoAway ++ q.appendLengthPrefixed newURI

/-- How many bytes the fields of a message take. -/
def size : Message → Nat
  | .object trackAlias groupID objectID timestamp payload =>
    q.width msgObject + q.width trackAlias + q.width groupID + q.width objectID + q.width timestamp +
      q.stringSize payload
  | .subscribe subscribeID trackAlias trackNamespace trackName startGroup endGroup =>
    q.width msgSubscribe + q.width subscribeID + q.width trackAlias + q.stringSize trackNamespace +
      q.stringSize trackName + q.width startGroup + q.width endGroup
  | .announce trackNamespace trackNames =>
    q.width msgAnnounce + q.stringSize trackNamespace + q.width (UInt64.ofNat trackNames.length) +
      (trackNames.map q.stringSize).sum
  | .goAway newURI => q.width msgGoAway + q.stringSize newURI

/-- What is written to the stream; `Append` panics if there are too many bytes for a length. -/
def encodeMessage (msg : Message) : Option Bytes :=
  if (q.encode msg).length < 2 ^ 62 then some (q.appendLengthPrefixed (q.encode msg)) else none

/-! ## Reading -/

/-- `fmt.Errorf` with the error behind a text. -/
def wrap {α : Type} (text : String) (m : Reader String α) : Reader String α :=
  m.mapError fun e => text ++ ": " ++ e

def readVarint : Reader String UInt64 :=
  q.read

/-- `io.ReadFull` -/
def readBytes (n : Nat) : Reader String Bytes :=
  Reader.mapError (fun | .eof => "EOF" | .unexpectedEof => "unexpected EOF") (Lib.readFull n)

def readLengthPrefixed : Reader String Bytes := do
  let n ← wrap "read length" q.readVarint
  if maxInt32 < n then throw ("length too large: " ++ toString n) else wrap "read payload" (readBytes n.toNat)

def decodeObjectMessage : Reader String Message := do
  let trackAlias ← wrap "read track_alias" q.readVarint
  let groupID ← wrap "read group_id" q.readVarint
  let objID ← wrap "read object_id" q.readVarint
  let ts ← wrap "read timestamp" q.readVarint
  let payload ← wrap "read payload" q.readLengthPrefixed
  return .object trackAlias groupID objID ts payload

def decodeSubscribeMessage : Reader String Message := do
  let subID ← wrap "read subscribe_id" q.readVarint
  let trackAlias ← wrap "read track_alias" q.readVarint
  let ns ← wrap "read track_namespace" q.readLengthPrefixed
  let name ← wrap "read track_name" q.readLengthPrefixed
  let start ← wrap "read start_group" q.readVarint
  let stop ← wrap "read end_group" q.readVarint
  return .subscribe subID trackAlias ns name start stop

/-- The names from number `i` on. -/
def readNames (i : Nat) : Nat → Reader String (List Bytes)
  | 0 => return []
  | count + 1 => do
    let name ← wrap ("read track_name[" ++ toString i ++ "]") q.readLengthPrefixed
    let names ← readNames (i + 1) count
    return name :: names

def decodeAnnounceMessage : Reader String Message := do
  let ns ← wrap "read track_namespace" q.readLengthPrefixed
  let count ← wrap "read track_names count" q.readVarint
  if maxInt32 < count then throw ("track_names count too large: " ++ toString count)
  else do
    let names ← q.readNames 0 count.toNat
    return .announce ns names

def decodeGoAwayMessage : Reader String Message := do
  let uri ← wrap "read new_uri" q.readLengthPrefixed
  return .goAway uri

def decodeMessageBody (msgType : UInt64) : Reader String Message :=
  if msgType = msgObject then q.decodeObjectMessage
  else if msgType = msgSubscribe then q.decodeSubscribeMessage
  else if msgType = msgAnnounce then q.decodeAnnounceMessage
  else if msgType = msgGoAway then q.decodeGoAwayMessage
  else throw "unsupported message type"

def readMessage : Reader String (UInt64 × Bytes) := do
  let n ← wrap "read message length" q.readVarint
  if maxInt32 < n then throw ("message too large: " ++ toString n)
  else do
    let buf ← wrap "read message body" (readBytes n.toNat)
    match q.parse buf with
    | .error e => throw ("parse message type: " ++ e)
    | .ok (val, consumed) => return (val, buf.drop consumed)

/-- `ReadMessage` and `DecodeMessageBody`; what the body has behind the message is not looked at. -/
def receive : Reader String Message := do
  let (msgType, body) ← q.readMessage
  match q.decodeMessageBody msgType body with
  | .error e => throw e
  | .ok (msg, _) => return msg

def receiveAll : Nat → Reader String (List Message)
  | 0 => return []
  | n + 1 => do
    let msg ← q.receive
    let msgs ← receiveAll n
    return msg :: msgs

def encodeAll : List Message → Option Bytes
  | [] => some []
  | msg :: msgs => do
    let front ← q.encodeMessage msg
    let back ← encodeAll msgs
    return front ++ back

/-- The messages are written, and read back until nothing is left. -/
def RoundTrip (msgs : List Message) : Prop :=
  ∃ stream, q.encodeAll msgs = some stream ∧ q.receiveAll msgs.length stream = .ok (msgs, [])

end Varint

/-- Integers below `2 ^ 62`, strings and payloads shorter than `2 ^ 30` bytes. -/
def Message.Valid : Message → Prop
  | .object trackAlias groupID objectID timestamp payload =>
    trackAlias.toNat < 2 ^ 62 ∧ groupID.toNat < 2 ^ 62 ∧ objectID.toNat < 2 ^ 62 ∧ timestamp.toNat < 2 ^ 62 ∧
      payload.length < 2 ^ 30
  | .subscribe subscribeID trackAlias trackNamespace trackName startGroup endGroup =>
    subscribeID.toNat < 2 ^ 62 ∧ trackAlias.toNat < 2 ^ 62 ∧ trackNamespace.length < 2 ^ 30 ∧
      trackName.length < 2 ^ 30 ∧ startGroup.toNat < 2 ^ 62 ∧ endGroup.toNat < 2 ^ 62
  | .announce trackNamespace trackNames =>
    trackNamespace.length < 2 ^ 30 ∧ ∀ name ∈ trackNames, name.length < 2 ^ 30
  | .goAway newURI => newURI.length < 2 ^ 30

namespace Varint

variable {q : Varint} {v : UInt64} {data : Bytes} {msg : Message}

/-! ## Fields -/

theorem toNat_length {n : Nat} (h : n < 2 ^ 62) : (UInt64.ofNat n).toNat = n :=
  UInt64.toNat_ofNat_of_lt' (Nat.lt_trans h (by decide))

theorem reads_varint (hv : v.toNat < 2 ^ 62) (text : String) : Reads (wrap text q.readVarint) (q.append v) v :=
  Reads.mapError (q.read_append v hv) _

theorem reads_bytes {n : Nat} (h : data.length = n) (text : String) : Reads (wrap text (readBytes n)) data data :=
  Reads.mapError (Reads.mapError (readFull_append h) _) _

theorem not_maxInt32_lt {n : Nat} (h : n < 2 ^ 31) : ¬ maxInt32 < UInt64.ofNat n := by
  rw [UInt64.lt_iff_toNat_lt, toNat_length (by omega)]
  exact Nat.not_lt.2 (Nat.le_of_lt_succ h)

theorem reads_lengthPrefixed (h : data.length < 2 ^ 30) (text : String) :
    Reads (wrap text q.readLengthPrefixed) (q.appendLengthPrefixed data) data := by
  have hlength := @toNat_length data.length (by omega)
  refine Reads.mapError (Reads.bind (reads_varint (by omega) _) ?_) _
  rw [if_neg (not_maxInt32_lt (by omega))]
  exact reads_bytes hlength.symm _

theorem reads_names {names : List Bytes} (h : ∀ name ∈ names, name.length < 2 ^ 30) (i : Nat) :
    Reads (q.readNames i names.length) (names.flatMap q.appendLengthPrefixed) names := by
  induction names generalizing i with
  | nil => exact .pure _
  | cons name names ih =>
    obtain ⟨hname, hrest⟩ := forall_mem_cons.1 h
    exact (reads_lengthPrefixed hname _).bind ((ih hrest (i + 1)).bind_last (.pure _))

/-- Else it would be read in front of everything. -/
theorem append_ne_nil (hv : v.toNat < 2 ^ 62) : q.append v ≠ [] := by
  intro hnil
  have hnext (w : UInt64) (hw : w.toNat < 2 ^ 62) : w = v := by
    have hread := q.read_append v hv (q.append w)
    rw [hnil, nil_append, ← append_nil (q.append w), q.read_append w hw] at hread
    exact congrArg Prod.fst (Except.ok.inj hread)
  exact absurd ((hnext 0 (by decide)).trans (hnext 1 (by decide)).symm) (by decide)

/-! ## Messages -/

theorem length_encode (msg : Message) : (q.encode msg).length = q.size msg := by
  have hstring (data : Bytes) : (q.appendLengthPrefixed data).length = q.stringSize data := length_append
  cases msg <;> simp [encode, size, hstring, width, length_flatMap, Nat.add_assoc]

/-- Every name takes a byte or more. -/
theorem length_names_le (trackNamespace : Bytes) {names : List Bytes}
    (h : ∀ name ∈ names, name.length < 2 ^ 30) : names.length ≤ (q.encode (.announce trackNamespace names)).length := by
  have hnames := @length_le_flatMap _ q.appendLengthPrefixed names (by
    intro name hname hnil
    have hlength := @toNat_length name.length (by have := h name hname; omega)
    exact append_ne_nil (by have := h name hname; omega) (append_eq_nil_iff.1 hnil).1)
  simp only [encode, length_append]
  omega

/-- A message is its type and a body, of which it is read back. -/
theorem exists_body (hvalid : msg.Valid) (hsize : (q.encode msg).length < 2 ^ 31) :
    ∃ msgType body, q.encode msg = q.append msgType ++ body ∧ msgType.toNat < 2 ^ 62 ∧
      Reads (q.decodeMessageBody msgType) body msg := by
  cases msg with
  | object trackAlias groupID objectID timestamp payload =>
    obtain ⟨ha, hg, ho, ht, hp⟩ := hvalid
    refine ⟨msgObject, _, rfl, by decide, ?_⟩
    exact (reads_varint ha _).bind ((reads_varint hg _).bind ((reads_varint ho _).bind ((reads_varint ht _).bind
      ((reads_lengthPrefixed hp _).bind_last (.pure _)))))
  | subscribe subscribeID trackAlias trackNamespace trackName startGroup endGroup =>
    obtain ⟨hs, ha, hns, hname, hstart, hend⟩ := hvalid
    refine ⟨msgSubscribe, _, rfl, by decide, ?_⟩
    exact (reads_varint hs _).bind ((reads_varint ha _).bind ((reads_lengthPrefixed hns _).bind
      ((reads_lengthPrefixed hname _).bind ((reads_varint hstart _).bind ((reads_varint hend _).bind_last (.pure _))))))
  | announce trackNamespace trackNames =>
    obtain ⟨hns, hnames⟩ := hvalid
    have hcount := @length_names_le q trackNamespace trackNames hnames
    have hnat := @toNat_length trackNames.length (by omega)
    refine ⟨msgAnnounce, _, rfl, by decide, ?_⟩
    refine (reads_lengthPrefixed hns _).bind ((reads_varint (by omega) _).bind ?_)
    rw [if_neg (not_maxInt32_lt (by omega)), hnat]
    exact (reads_names hnames 0).bind_last (.pure _)
  | goAway newURI =>
    refine ⟨msgGoAway, _, rfl, by decide, ?_⟩
    exact (reads_lengthPrefixed hvalid _).bind_last (.pure _)

theorem reads_receive (hvalid : msg.Valid) (hsize : (q.encode msg).length < 2 ^ 31) :
    Reads q.receive (q.appendLengthPrefixed (q.encode msg)) msg := by
  obtain ⟨msgType, body, hencode, htype, hbody⟩ := exists_body hvalid hsize
  have hlength := @toNat_length (q.encode msg).length (by omega)
  have hmessage : Reads q.readMessage (q.appendLengthPrefixed (q.encode msg)) (msgType, body) := by
    refine Reads.bind (reads_varint (by omega) _) ?_
    rw [if_neg (not_maxInt32_lt hsize)]
    refine Reads.bind_last (reads_bytes hlength.symm _) ?_
    rw [hencode, q.parse_append msgType htype]
    dsimp only
    rw [drop_left]
    exact .pure _
  refine hmessage.bind_last fun rest => ?_
  have hdecode := hbody []
  rw [append_nil] at hdecode
  simp only [hdecode]
  rfl

theorem receive_eq_error (hlarge : 2 ^ 31 ≤ (q.encode msg).length) (hfits : (q.encode msg).length < 2 ^ 62)
    (rest : Bytes) : ∃ e, q.receive (q.appendLengthPrefixed (q.encode msg) ++ rest) = .error e := by
  have hlength := toNat_length hfits
  have hlt : maxInt32 < UInt64.ofNat (q.encode msg).length := by
    rw [UInt64.lt_iff_toNat_lt, hlength]
    exact Nat.lt_of_succ_le hlarge
  have hread := @reads_varint q (UInt64.ofNat (q.encode msg).length) (by omega) "read message length"
    (q.encode msg ++ rest)
  rw [appendLengthPrefixed, append_assoc]
  simp only [receive, readMessage, bind, StateT.bind, hread, Except.bind, if_pos hlt]
  exact ⟨_, rfl⟩

theorem receiveAll_succ_eq_ok {n : Nat} {stream : Bytes} {msgs : List Message}
    (h : q.receiveAll (n + 1) stream = .ok (msg :: msgs, [])) :
    ∃ rest, q.receive stream = .ok (msg, rest) ∧ q.receiveAll n rest = .ok (msgs, []) := by
  obtain ⟨⟨first, rest⟩, hfirst, h⟩ := bind_eq_ok.1 (show q.receive stream >>= _ = _ from h)
  obtain ⟨⟨more, left⟩, hmore, h⟩ := bind_eq_ok.1 (show q.receiveAll n rest >>= _ = _ from h)
  obtain ⟨⟨rfl, rfl⟩, rfl⟩ : (first = msg ∧ more = msgs) ∧ left = [] := by
    simpa using Except.ok.inj (show Except.ok (first :: more, left) = _ from h)
  exact ⟨rest, hfirst, hmore⟩

theorem roundTrip_cons (hvalid : msg.Valid) (msgs : List Message) :
    q.RoundTrip (msg :: msgs) ↔ (q.encode msg).length < 2 ^ 31 ∧ q.RoundTrip msgs := by
  constructor
  · rintro ⟨stream, hstream, hread⟩
    obtain ⟨front, hfront, hstream⟩ := Option.bind_eq_some_iff.1 hstream
    obtain ⟨back, hback, hstream⟩ := Option.bind_eq_some_iff.1 hstream
    obtain rfl := Option.some.inj hstream
    obtain ⟨hfits, rfl⟩ : (q.encode msg).length < 2 ^ 62 ∧ q.appendLengthPrefixed (q.encode msg) = front := by
      simpa [encodeMessage] using hfront
    obtain ⟨rest, hfirst, hmore⟩ := receiveAll_succ_eq_ok hread
    rcases Nat.lt_or_ge (q.encode msg).length (2 ^ 31) with hsize | hlarge
    · rw [reads_receive hvalid hsize back] at hfirst
      obtain rfl : back = rest := congrArg Prod.snd (Except.ok.inj hfirst)
      exact ⟨hsize, back, hback, hmore⟩
    · obtain ⟨e, herror⟩ := receive_eq_error hlarge hfits back
      rw [herror] at hfirst
      cases hfirst
  · rintro ⟨hsize, back, hback, hmore⟩
    have hfits : (q.encode msg).length < 2 ^ 62 := by omega
    refine ⟨q.appendLengthPrefixed (q.encode msg) ++ back, ?_, ?_⟩
    · rw [encodeAll, encodeMessage, if_pos hfits, hback]
      rfl
    · simp only [length_cons, receiveAll, bind, StateT.bind, reads_receive hvalid hsize back, Except.bind, hmore]
      rfl

/-- Valid messages are read back if and only if the fields of none of them come to more than `math.MaxInt32`. -/
theorem messages_roundTrip_iff (q : Varint) (msgs : List Message) (hvalid : ∀ msg ∈ msgs, msg.Valid) :
    q.RoundTrip msgs ↔ ∀ msg ∈ msgs, q.size msg ≤ 2147483647 := by
  induction msgs with
  | nil => exact iff_of_true ⟨[], rfl, rfl⟩ (by simp)
  | cons msg msgs ih =>
    obtain ⟨hmsg, hrest⟩ := forall_mem_cons.1 hvalid
    rw [roundTrip_cons hmsg, ih hrest, forall_mem_cons, length_encode]
    exact and_congr_left fun _ => by omega

/-! ## The encoding of QUIC -/

/-- The two bits in front: a number has one, two, four or eight bytes. -/
def lengthBits (v : UInt64) : Nat :=
  if v.toNat < 2 ^ 6 then 0 else if v.toNat < 2 ^ 14 then 1 else if v.toNat < 2 ^ 30 then 2 else 3

def appendQuic (v : UInt64) : Bytes :=
  toBe (2 ^ lengthBits v) (lengthBits v * 2 ^ (8 * 2 ^ lengthBits v - 2) + v.toNat)

def parseQuic : Bytes → Except String (UInt64 × Nat)
  | [] => .error "EOF"
  | b :: rest =>
    let width := 2 ^ (b.toNat / 64)
    if rest.length + 1 < width then .error "unexpected EOF"
    else .ok (UInt64.ofNat (ofBe ((b :: rest).take width) % 2 ^ (8 * width - 2)), width)

theorem parseQuic_appendQuic {v : UInt64} (hv : v.toNat < 2 ^ 62) (rest : Bytes) :
    parseQuic (appendQuic v ++ rest) = .ok (v, (appendQuic v).length) := by
  obtain ⟨k, hk, hfits, hbits⟩ : ∃ k, k < 4 ∧ v.toNat < 2 ^ (8 * 2 ^ k - 2) ∧ lengthBits v = k := by
    refine ⟨lengthBits v, ?_⟩
    unfold lengthBits
    grind
  obtain ⟨w, hw⟩ : ∃ w, 2 ^ k = w + 1 := ⟨2 ^ k - 1, by have := Nat.two_pow_pos k; omega⟩
  have hexp : 8 * (w + 1) - 2 = 8 * w + 6 := by omega
  rw [hw, hexp] at hfits
  have hpow : 2 ^ (8 * w + 6) = 256 ^ w * 64 := by rw [Nat.pow_add, Nat.pow_mul]
  have hsucc : 256 ^ (w + 1) = 4 * (256 ^ w * 64) := by omega
  obtain ⟨n, hn⟩ : ∃ n, k * 2 ^ (8 * w + 6) + v.toNat = n := ⟨_, rfl⟩
  have happend : appendQuic v = toBe (w + 1) n := by rw [appendQuic, hbits, hw, hexp, hn]
  have hlt : n < 256 ^ (w + 1) := by
    have := Nat.mul_le_mul_right (2 ^ (8 * w + 6)) (Nat.le_of_lt_succ hk)
    omega
  have hquotient : n / 256 ^ w / 64 = k := by
    rw [Nat.div_div_eq_div_mul, ← hpow, ← hn, Nat.add_comm, Nat.add_mul_div_right _ _ (Nat.two_pow_pos _),
      Nat.div_eq_of_lt hfits, Nat.zero_add]
  have hremainder : n % 2 ^ (8 * w + 6) = v.toNat := by
    rw [← hn, Nat.add_comm, Nat.add_mul_mod_self_right, Nat.mod_eq_of_lt hfits]
  have hhead : (UInt8.ofNat (n / 256 ^ w)).toNat / 64 = k := by
    rw [UInt8.toNat_ofNat', Nat.mod_eq_of_lt (by omega), hquotient]
  have htake : (UInt8.ofNat (n / 256 ^ w) :: (toBe w n ++ rest)).take (w + 1) = toBe (w + 1) n := by
    rw [← cons_append, ← toBe_succ_eq_cons, take_left' (length_toBe _ _)]
  rw [happend, length_toBe, toBe_succ_eq_cons, cons_append, parseQuic]
  simp only [hhead, hw, htake, ofBe_toBe_of_lt hlt, hexp, hremainder, length_append, length_toBe, UInt64.ofNat_toNat]
  exact if_neg (by omega)

/-- `quicvarint` as it is. -/
def quicvarint : Varint where
  append := appendQuic
  read r := (parseQuic r).map fun found => (found.1, r.drop found.2)
  parse := parseQuic
  read_append v hv rest := by rw [parseQuic_appendQuic hv]; simp [Except.map]
  parse_append v hv rest := parseQuic_appendQuic hv rest

def threeMessages : List Message :=
  [.subscribe 3 70 [0x61] [0x62, 0x63] 20000 3000000000, .object 70 1 0 90000 [1, 2, 3], .goAway []]

theorem roundTrip_threeMessages : (∀ msg ∈ threeMessages, msg.Valid) ∧ quicvarint.RoundTrip threeMessages := by
  have hvalid : ∀ msg ∈ threeMessages, msg.Valid := by
    simp [threeMessages, Message.Valid]
  exact ⟨hvalid, (messages_roundTrip_iff quicvarint threeMessages hvalid).2 (by decide)⟩

def longest : Message :=
  .subscribe 0 0 (List.replicate (2 ^ 30 - 1) 0x61) (List.replicate (2 ^ 30 - 1) 0x61) 0 0

/-- It is refused, however integers are encoded. -/
theorem not_roundTrip_longest : longest.Valid ∧ Nonempty Varint ∧ ∀ q : Varint, ¬ q.RoundTrip [longest] := by
  have hname : (List.replicate (2 ^ 30 - 1) (0x61 : UInt8)).length < 2 ^ 30 := by
    rw [length_replicate]
    decide
  have hvalid : longest.Valid := ⟨by decide, by decide, hname, hname, by decide, by decide⟩
  refine ⟨hvalid, ⟨quicvarint⟩, fun q h => ?_⟩
  have hsize := ((roundTrip_cons hvalid []).1 h).1
  have hzero := length_pos_of_ne_nil (@append_ne_nil q 0 (by decide))
  simp only [longest, encode, appendLengthPrefixed, length_append, length_replicate] at hsize
  omega

end Varint
end LingVoice.Moq

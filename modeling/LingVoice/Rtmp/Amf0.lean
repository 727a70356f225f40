import LingVoice.Lib.ByteReader
import LingVoice.Lib.Field

/-!
# Amf0 — AMF0 values (`pkg/protocol/rtmp/message.go`)

`amfReader` reads values of any depth, `amfWriter` writes them.  The writer has `WriteObject` and `WriteEcmaArray` for
maps, but a property of a map is written by `writeValue`, which knows no maps and writes null for one.

A Go map is given by its entries in the order in which they are visited, with each name once; two lists of entries are
the same map when they have the same values (`Same`).  A number is given by the bits of the `float64`, a string by its
bytes.  The reader's position is modelled by what is left of the buffer.
-/

namespace LingVoice.Rtmp

open Lib (be16 be32 be64 u16At u32At u64At)

/-! ## Values -/

/-- `Arr` is the content of a strict array, which the reader also calls an ECMA array. -/
inductive AMFValue
  | number (bits : UInt64)
  | boolean (b : Bool)
  | string (s : Bytes)
  | null
  | object (obj : List (Bytes × AMFValue))
  | ecmaArray (obj : List (Bytes × AMFValue)) (arr : List AMFValue)

/-- `obj[name] = v` -/
def setProp (obj : List (Bytes × AMFValue)) (name : Bytes) (v : AMFValue) :
    List (Bytes × AMFValue) :=
  if obj.any (fun e => e.1 == name) then
    obj.map fun e => if e.1 = name then (name, v) else e
  else
    obj ++ [(name, v)]

def amf0Number : UInt8 := 0x00
def amf0Boolean : UInt8 := 0x01
def amf0String : UInt8 := 0x02
def amf0Object : UInt8 := 0x03
def amf0Null : UInt8 := 0x05
def amf0Undefined : UInt8 := 0x06
def amf0EcmaArray : UInt8 := 0x08
def amf0ObjectEnd : UInt8 := 0x09
def amf0StrictArray : UInt8 := 0x0a
def amf0Date : UInt8 := 0x0b
def amf0LongString : UInt8 := 0x0c
def amf0XMLDoc : UInt8 := 0x0f

/-! ## The reader -/

inductive AmfError
  /-- `amf: unexpected eof` -/
  | unexpectedEof
  /-- `amf: unexpected eof, need %d have %d` -/
  | needBytes (need have_ : Nat)
  /-- `amf: expected object end marker, got 0x%02x` -/
  | expectedObjectEnd (marker : UInt8)
  /-- `amf: unsupported marker 0x%02x` -/
  | unsupportedMarker (marker : UInt8)
  /-- The reader has not come to an end within its turns. -/
  | outOfFuel
  deriving DecidableEq, Repr

namespace AmfReader

def readByte : Bytes → Except AmfError (UInt8 × Bytes)
  | [] => .error .unexpectedEof
  | b :: rest => .ok (b, rest)

def readBytes (n : Nat) (rest : Bytes) : Except AmfError (Bytes × Bytes) :=
  if rest.length < n then .error (.needBytes n rest.length) else .ok (rest.take n, rest.drop n)

def readUint16 (rest : Bytes) : Except AmfError (UInt16 × Bytes) := do
  let (b, rest) ← readBytes 2 rest
  return (u16At b 0, rest)

def readUint32 (rest : Bytes) : Except AmfError (UInt32 × Bytes) := do
  let (b, rest) ← readBytes 4 rest
  return (u32At b 0, rest)

def readFloat64 (rest : Bytes) : Except AmfError (UInt64 × Bytes) := do
  let (b, rest) ← readBytes 8 rest
  return (u64At b 0, rest)

def readString (rest : Bytes) : Except AmfError (Bytes × Bytes) := do
  let (n, rest) ← readUint16 rest
  readBytes n.toNat rest

mutual

/-- Every turn takes at least one byte off what is left. -/
def readValue : Nat → Bytes → Except AmfError (AMFValue × Bytes)
  | 0, _ => .error .outOfFuel
  | fuel + 1, rest => do
      let (marker, rest) ← readByte rest
      if marker = amf0Number then
        let (v, rest) ← readFloat64 rest
        return (.number v, rest)
      else if marker = amf0Boolean then
        let (b, rest) ← readByte rest
        return (.boolean (b != 0), rest)
      else if marker = amf0String then
        let (s, rest) ← readString rest
        return (.string s, rest)
      else if marker = amf0Object then
        let (obj, rest) ← readProps fuel [] rest
        return (.object obj, rest)
      else if marker = amf0Null then
        return (.null, rest)
      else if marker = amf0Undefined then
        return (.null, rest)
      else if marker = amf0EcmaArray then
        -- the count is not looked at
        let (_, rest) ← readUint32 rest
        let (obj, rest) ← readProps fuel [] rest
        return (.ecmaArray obj [], rest)
      else if marker = amf0StrictArray then
        let (count, rest) ← readUint32 rest
        let (arr, rest) ← readElems fuel count.toNat rest
        return (.ecmaArray [] arr, rest)
      else if marker = amf0LongString ∨ marker = amf0XMLDoc then
        let (n, rest) ← readUint32 rest
        let (b, rest) ← readBytes n.toNat rest
        return (.string b, rest)
      else if marker = amf0Date then
        let (_, rest) ← readFloat64 rest
        let (_, rest) ← readUint16 rest
        return (.null, rest)
      else
        throw (.unsupportedMarker marker)

/-- The loop of `readObject` and of `readObjectAsArray`. -/
def readProps : Nat → List (Bytes × AMFValue) → Bytes →
    Except AmfError (List (Bytes × AMFValue) × Bytes)
  | 0, _, _ => .error .outOfFuel
  | fuel + 1, obj, rest => do
      let (name, rest) ← readString rest
      if name.length = 0 then
        let (m, rest) ← readByte rest
        if m = amf0ObjectEnd then
          return (obj, rest)
        else
          throw (.expectedObjectEnd m)
      else
        let (v, rest) ← readValue fuel rest
        readProps fuel (setProp obj name v) rest

def readElems : Nat → Nat → Bytes → Except AmfError (List AMFValue × Bytes)
  | _, 0, rest => .ok ([], rest)
  | 0, _ + 1, _ => .error .outOfFuel
  | fuel + 1, count + 1, rest => do
      let (v, rest) ← readValue fuel rest
      let (arr, rest) ← readElems fuel count rest
      return (v :: arr, rest)

end

end AmfReader

open AmfReader

/-- The loop of `DecodeAMF0`; an error ends it, with the values so far. -/
def decodeLoop : Nat → Bytes → List AMFValue × Option AmfError
  | _, [] => ([], none)
  | 0, _ :: _ => ([], some .outOfFuel)
  | fuel + 1, b :: rest =>
    match readValue ((b :: rest).length + 1) (b :: rest) with
    | .error e => ([], some e)
    | .ok (v, rest) =>
      let (values, error) := decodeLoop fuel rest
      (v :: values, error)

def decodeAMF0 (buf : Bytes) : List AMFValue × Option AmfError :=
  decodeLoop buf.length buf

/-! ## The writer -/

def writeString (s : Bytes) : Bytes :=
  amf0String :: (be16 (UInt16.ofNat s.length) ++ s)

def writeNumber (bits : UInt64) : Bytes :=
  amf0Number :: be64 bits

def writeBoolean (v : Bool) : Bytes :=
  [amf0Boolean, if v then 1 else 0]

def writeNull : Bytes :=
  [amf0Null]

/-- `writeValue`: maps are written as null. -/
def writeValue : AMFValue → Bytes
  | .number bits => writeNumber bits
  | .boolean b => writeBoolean b
  | .string s => writeString s
  | .null => writeNull
  | .object _ => writeNull
  | .ecmaArray _ _ => writeNull

def writeProps (props : List (Bytes × AMFValue)) : Bytes :=
  (props.flatMap fun e => be16 (UInt16.ofNat e.1.length) ++ e.1 ++ writeValue e.2) ++ be16 0 ++ [amf0ObjectEnd]

def writeObject (props : List (Bytes × AMFValue)) : Bytes :=
  amf0Object :: writeProps props

def writeEcmaArray (props : List (Bytes × AMFValue)) : Bytes :=
  amf0EcmaArray :: (be32 (UInt32.ofNat props.length) ++ writeProps props)

def writeAny : AMFValue → Bytes
  | .number bits => writeNumber bits
  | .boolean b => writeBoolean b
  | .string s => writeString s
  | .null => writeNull
  | .object props => writeObject props
  | .ecmaArray props _ => writeEcmaArray props

def encodeAMF0 (values : List AMFValue) : Bytes :=
  values.flatMap writeAny

end LingVoice.Rtmp

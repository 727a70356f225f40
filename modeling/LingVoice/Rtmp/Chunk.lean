import LingVoice.Lib.Endian
import LingVoice.Lib.ByteReader

/-!
# Chunk — the RTMP chunk stream (`pkg/protocol/rtmp/chunk.go`)

`ChunkReader` reassembles messages from chunks and keeps one `ChunkState` per chunk stream id;
`ChunkWriter` cuts a message into a fmt 0 chunk and fmt 3 continuations.

The reader's stream is the list of bytes still to come.  The state map is a total function: a chunk
stream that was never seen has the zero state `getState` would create.  After an error the source's
only caller gives the connection up, so the reader's state after an error is not part of the model.
-/

namespace LingVoice.Rtmp

open Lib

structure Message where
  type : UInt8
  streamID : UInt32
  csid : UInt32
  timestamp : UInt32
  payload : Bytes
  deriving DecidableEq, Repr

def defaultChunkSize : Nat := 128

structure ChunkState where
  timestamp : UInt32 := 0
  timestampDelta : UInt32 := 0
  hasDelta : Bool := false
  msgType : UInt8 := 0
  msgLength : UInt32 := 0
  streamID : UInt32 := 0
  payload : Bytes := []
  bytesRead : Nat := 0
  newMessage : Bool := false
  deriving DecidableEq, Repr

/-! ## Errors -/

inductive ChunkError
  | readBasicHeader (cause : ReadError)
  | readMsgHeader (fmt : UInt8) (cause : ReadError)
  | readExtTimestamp (fmt : UInt8) (cause : ReadError)
  | noPreviousHeader (fmt : UInt8)
  | invalidFmt (fmt : UInt8)
  | invalidRemaining (remaining : Int)
  | readData (cause : ReadError)
  deriving DecidableEq, Repr

def readErrorText : ReadError → String
  | .eof => "EOF"
  | .unexpectedEof => "unexpected EOF"

def ChunkError.text : ChunkError → String
  | .readBasicHeader cause => "chunk: read basic header: " ++ readErrorText cause
  | .readMsgHeader fmt cause =>
    "chunk: read msg header fmt" ++ toString fmt ++ ": " ++ readErrorText cause
  | .readExtTimestamp fmt cause =>
    "chunk: read ext timestamp fmt" ++ toString fmt ++ ": " ++ readErrorText cause
  | .noPreviousHeader fmt => "chunk: fmt" ++ toString fmt ++ " but no previous message header"
  | .invalidFmt fmt => "chunk: invalid fmt " ++ toString fmt
  | .invalidRemaining remaining => "chunk: invalid remaining " ++ toString remaining
  | .readData cause => "chunk: read data: " ++ readErrorText cause

/-! ## ChunkReader -/

structure ChunkReader where
  input : Bytes
  chunkSize : Nat
  states : UInt32 → ChunkState
  chunkSize_pos : 0 < chunkSize

def newChunkReader (input : Bytes) : ChunkReader :=
  { input := input
    chunkSize := defaultChunkSize
    states := fun _ => {}
    chunkSize_pos := by decide }

/-- `SetChunkSize`: a size that is not positive is ignored. -/
def ChunkReader.setChunkSize (cr : ChunkReader) (size : Nat) : ChunkReader :=
  if h : 0 < size then { cr with chunkSize := size, chunkSize_pos := h } else cr

def readByte (input : Bytes) : Except ReadError (UInt8 × Bytes) := do
  let (buf, rest) ← readFull 1 input
  pure (buf.getD 0 0, rest)

/-- The format and the chunk stream id, from one, two or three bytes. -/
def readBasicHeader (input : Bytes) : Except ReadError ((UInt8 × UInt32) × Bytes) := do
  let (b, rest) ← readByte input
  let fmt := (b >>> 6) &&& 0x03
  let csid := (b &&& 0x3f).toUInt32
  -- 0 and 1 in the low bits announce one and two more bytes
  if csid = 0 then
    let (b2, rest) ← readByte rest
    pure ((fmt, b2.toUInt32 + 64), rest)
  else if csid = 1 then
    let (b2, rest) ← readByte rest
    let (b3, rest) ← readByte rest
    pure ((fmt, b2.toUInt32 + b3.toUInt32 <<< 8 + 64), rest)
  else
    pure ((fmt, csid), rest)

def uint24 (hdr : Bytes) (off : Nat) : UInt32 :=
  UInt32.ofNat (ofBe ((hdr.drop off).take 3))

/-- The timestamp or delta behind the 3-byte field `field`. -/
def readTimestamp (fmt : UInt8) (field : UInt32) (input : Bytes) :
    Except ChunkError (UInt32 × Bytes) :=
  if field = 0xFFFFFF then do
    let (ext, rest) ← (readFull 4 input).mapError (.readExtTimestamp fmt)
    pure (UInt32.ofNat (ofBe ext), rest)
  else
    pure (field, input)

/-- The `n` bytes of a message header that starts with a timestamp field, and the timestamp. -/
def readFields (fmt : UInt8) (n : Nat) (input : Bytes) :
    Except ChunkError ((Bytes × UInt32) × Bytes) := do
  let (hdr, rest) ← (readFull n input).mapError (.readMsgHeader fmt)
  let (ts, rest) ← readTimestamp fmt (uint24 hdr 0) rest
  pure ((hdr, ts), rest)

namespace ChunkState

/-- What fmt 1 and fmt 2 do with their delta. -/
def addDelta (st : ChunkState) (delta : UInt32) : ChunkState :=
  -- inside a message, that is: the flag is cleared with its last byte
  if st.newMessage then
    { st with timestampDelta := delta, timestamp := delta, hasDelta := true }
  else
    { st with timestamp := st.timestamp + delta, hasDelta := true }

def start (st : ChunkState) (length : UInt32) : ChunkState :=
  { st with
    msgLength := length
    payload := List.replicate length.toNat 0
    bytesRead := 0
    newMessage := true }

end ChunkState

/-- The extended timestamp of a fmt 3 chunk, read and thrown away. -/
def skipExtTimestamp (st : ChunkState) (input : Bytes) : Except ChunkError Bytes :=
  if st.hasDelta && st.timestampDelta == 0xFFFFFF then do
    let (_, rest) ← (readFull 4 input).mapError (.readExtTimestamp 3)
    pure rest
  else
    pure input

/-- Step 2 of the loop: the message header of format `fmt`. -/
def readMessageHeader (fmt : UInt8) (st : ChunkState) (input : Bytes) :
    Except ChunkError (ChunkState × Bytes) :=
  if fmt = 0 then do
    let ((hdr, ts), rest) ← readFields 0 11 input
    let st := { st with
      timestamp := ts
      timestampDelta := 0
      hasDelta := false
      msgType := hdr.getD 6 0
      streamID := UInt32.ofNat (ofLe ((hdr.drop 7).take 4)) }
    pure (st.start (uint24 hdr 3), rest)
  else if fmt = 1 then do
    let ((hdr, delta), rest) ← readFields 1 7 input
    let st := { st.addDelta delta with msgType := hdr.getD 6 0 }
    pure (st.start (uint24 hdr 3), rest)
  else if fmt = 2 then do
    let ((_, delta), rest) ← readFields 2 3 input
    let st := st.addDelta delta
    if st.msgLength = 0 then
      throw (.noPreviousHeader 2)
    pure (st.start st.msgLength, rest)
  else if fmt = 3 then do
    -- no new buffer is made, also when the last message is complete
    let rest ← skipExtTimestamp st input
    if st.msgLength = 0 then
      throw (.noPreviousHeader 3)
    pure (st, rest)
  else
    throw (.invalidFmt fmt)

namespace ChunkReader

/-- Steps 3 and 4 of the loop: the chunk's data, and the message if it is complete. -/
def readData (cr : ChunkReader) (csid : UInt32) (st : ChunkState) (input : Bytes) :
    Except ChunkError (ChunkReader × Option Message) := do
  let remaining : Int := (st.msgLength.toNat : Int) - st.bytesRead
  if remaining ≤ 0 then
    throw (.invalidRemaining remaining)
  let toRead := min remaining.toNat cr.chunkSize
  let (data, rest) ← (readFull toRead input).mapError .readData
  let st := { st with
    payload := overwrite st.payload st.bytesRead data
    bytesRead := st.bytesRead + toRead }
  if st.msgLength.toNat ≤ st.bytesRead then
    let st := { st with newMessage := false }
    let msg : Message :=
      { type := st.msgType
        streamID := st.streamID
        csid := csid
        timestamp := st.timestamp
        payload := st.payload }
    pure ({ cr with input := rest, states := Function.update cr.states csid st }, some msg)
  else
    pure ({ cr with input := rest, states := Function.update cr.states csid st }, none)

/-- One turn of the loop of `ReadMessage`: one chunk. -/
def readChunk (cr : ChunkReader) : Except ChunkError (ChunkReader × Option Message) := do
  let ((fmt, csid), rest) ← (readBasicHeader cr.input).mapError .readBasicHeader
  let (st, rest) ← readMessageHeader fmt (cr.states csid) rest
  cr.readData csid st rest

/-- The loop of `ReadMessage`.  Every turn takes at least one byte off the stream, so with as many
turns as there are bytes the stream is empty when they run out. -/
def readLoop : Nat → ChunkReader → Except ChunkError (ChunkReader × Message)
  | 0, _ => .error (.readBasicHeader .eof)
  | n + 1, cr =>
    match cr.readChunk with
    | .error e => .error e
    | .ok (cr', some msg) => .ok (cr', msg)
    | .ok (cr', none) => readLoop n cr'

def readMessage (cr : ChunkReader) : Except ChunkError (ChunkReader × Message) :=
  readLoop cr.input.length cr

def readAllLoop : Nat → ChunkReader → List Message × ChunkError
  | 0, _ => ([], .readBasicHeader .eof)
  | n + 1, cr =>
    match cr.readMessage with
    | .error e => ([], e)
    | .ok (cr', msg) => (msg :: (readAllLoop n cr').1, (readAllLoop n cr').2)

/-- `ReadMessage` again and again: the messages, and the error that ends them. -/
def readAll (cr : ChunkReader) : List Message × ChunkError :=
  readAllLoop cr.input.length cr

end ChunkReader

/-! ## ChunkWriter -/

structure ChunkWriter where
  chunkSize : Nat
  chunkSize_pos : 0 < chunkSize

def newChunkWriter : ChunkWriter :=
  { chunkSize := defaultChunkSize, chunkSize_pos := by decide }

def ChunkWriter.setChunkSize (cw : ChunkWriter) (size : Nat) : ChunkWriter :=
  if h : 0 < size then ⟨size, h⟩ else cw

def buildBasicHeader (fmt csid : UInt32) : Bytes :=
  if csid < 64 then
    [(fmt <<< 6).toUInt8 ||| csid.toUInt8]
  else if csid < 320 then
    [(fmt <<< 6).toUInt8 ||| 0, (csid - 64).toUInt8]
  else
    [(fmt <<< 6).toUInt8 ||| 1, ((csid - 64) &&& 0xff).toUInt8, ((csid - 64) >>> 8).toUInt8]

/-- The 3-byte timestamp field and, when it says so, the 4 bytes that follow the header. -/
def timestampField (ts : UInt32) : Bytes :=
  toBe 3 (if 0xFFFFFF ≤ ts then 0xFFFFFF else ts.toNat)

def extTimestamp (ts : UInt32) : Bytes :=
  if 0xFFFFFF ≤ ts then toBe 4 ts.toNat else []

namespace ChunkWriter

/-- The continuation chunks from offset `written` on; each takes at least one byte of the payload. -/
def writeRest (cw : ChunkWriter) (csid : UInt32) (ts : UInt32) (payload : Bytes) :
    Nat → Nat → List Bytes
  | 0, _ => []
  | n + 1, written =>
    if written < payload.length then
      let remaining := min (payload.length - written) cw.chunkSize
      (buildBasicHeader 3 csid ++ extTimestamp ts ++ (payload.drop written).take remaining) ::
        writeRest cw csid ts payload n (written + remaining)
    else
      []

def writeMessage (cw : ChunkWriter) (msg : Message) : List Bytes :=
  if msg.payload.length = 0 then
    []
  else
    -- chunk stream 3 is the default
    let csid := if msg.csid = 0 then 3 else msg.csid
    let hdr := buildBasicHeader 0 csid ++ timestampField msg.timestamp ++
      toBe 3 msg.payload.length ++ [msg.type] ++ toLe 4 msg.streamID.toNat ++
      extTimestamp msg.timestamp
    let toWrite := min msg.payload.length cw.chunkSize
    (hdr ++ msg.payload.take toWrite) ::
      cw.writeRest csid msg.timestamp msg.payload msg.payload.length toWrite

end ChunkWriter

end LingVoice.Rtmp

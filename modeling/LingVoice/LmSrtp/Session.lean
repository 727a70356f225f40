import LingVoice.Lib.Endian
import LingVoice.Lib.Xor
import LingVoice.LmSrtp.Bitmap

/-!
# Session — SRTP and SRTCP protection for one SSRC (`lm-srtp`)

The model follows `SrtpSession` function by function.  AES in counter mode and HMAC-SHA1 come from
other crates: `CipherSuite` takes them as parameters, a keystream that depends on key, IV and length
only, and a 20-byte digest of key and message.

A call returns an `Outcome`: the session afterwards, the result, and the `(key, IV)` pairs AES-CM
was run with.  A result is an `Err` of the crate or a Rust panic; the only panic reachable here is
the slice `auth_tag[..auth_tag_len]` on a 20-byte digest.
-/

namespace LingVoice.LmSrtp

open Lib

/-! ## Parameters, configuration and errors -/

/-- AES-128-CTR and HMAC-SHA1, as far as the session relies on them. -/
structure CipherSuite where
  keystream : Bytes → Bytes → Nat → Bytes
  hmac : Bytes → Bytes → Bytes
  length_keystream : ∀ key iv n, (keystream key iv n).length = n
  length_hmac : ∀ key msg, (hmac key msg).length = 20

/-- `AesCm::new(key, iv)` followed by `apply_keystream(data)`. -/
def CipherSuite.applyKeystream (suite : CipherSuite) (key iv data : Bytes) : Bytes :=
  xorBytes data (suite.keystream key iv data.length)

inductive SrtpError
  | invalidKeyLength (len : Nat)
  | invalidSaltLength (len : Nat)
  | packetTooShort (len : Nat)
  | authenticationFailed
  | replayDetected (seq : UInt16)
  | replayDetectedSrtcp (index : UInt32)
  | ssrcMismatch (expected actual : UInt32)
  deriving DecidableEq, Repr

/-- Why a call does not return a packet. -/
inductive Fault
  | err (e : SrtpError)
  | panic
  deriving DecidableEq, Repr

structure SrtpConfig where
  masterKey : Bytes
  masterSalt : Bytes
  authTagLen : Nat
  replayWindowSize : UInt32
  deriving DecidableEq, Repr

def SrtpConfig.default : SrtpConfig :=
  { masterKey := List.replicate 16 0
    masterSalt := List.replicate 14 0
    authTagLen := 10
    replayWindowSize := 1024 }

/-! ## Key derivation -/

def keyIdEncryption : UInt8 := 0x00
def keyIdAuth : UInt8 := 0x01
def keyIdSalt : UInt8 := 0x02

def deriveKey (suite : CipherSuite) (masterKey masterSalt : Bytes) (keyId : UInt8)
    (ssrc : UInt32) (keyLen : Nat) : Bytes :=
  let keyIdBuf := keyId :: toBe 4 ssrc.toNat ++ List.replicate 11 0
  let salt16 := masterSalt ++ [0, 0]
  let x := xorBytes keyIdBuf salt16
  -- the keystream itself: zero bytes encrypted under the master key
  suite.applyKeystream masterKey x (List.replicate keyLen 0)

def deriveSalt (suite : CipherSuite) (masterKey masterSalt : Bytes) (ssrc : UInt32) :
    Bytes :=
  (deriveKey suite masterKey masterSalt keyIdSalt ssrc 16).take 14

/-! ## The session -/

structure SrtpSession where
  config : SrtpConfig
  ssrc : UInt32
  encryptionKey : Bytes
  authKey : Bytes
  saltKey : Bytes
  replayBitmap : List UInt64
  /-- Largest RTP packet index received; an `u64` that stays below `2 ^ 49`. -/
  lastIndex : Nat
  replayInitialized : Bool
  srtcpReplayBitmap : List UInt64
  srtcpLastIndex : UInt32
  srtcpReplayInitialized : Bool
  srtcpIndex : UInt32
  roc : UInt32
  lastSeq : UInt16
  deriving DecidableEq, Repr

namespace SrtpSession

def new (suite : CipherSuite) (config : SrtpConfig) (ssrc : UInt32) :
    Except SrtpError SrtpSession :=
  if config.masterKey.length ≠ 16 then
    .error (.invalidKeyLength config.masterKey.length)
  else if config.masterSalt.length ≠ 14 then
    .error (.invalidSaltLength config.masterSalt.length)
  else
    let bitmapWords := (config.replayWindowSize.toNat + 63) / 64
    .ok
      { config := config
        ssrc := ssrc
        encryptionKey := deriveKey suite config.masterKey config.masterSalt keyIdEncryption ssrc 16
        authKey := deriveKey suite config.masterKey config.masterSalt keyIdAuth ssrc 20
        saltKey := deriveSalt suite config.masterKey config.masterSalt ssrc
        replayBitmap := List.replicate bitmapWords 0
        lastIndex := 0
        replayInitialized := false
        srtcpReplayBitmap := List.replicate bitmapWords 0
        srtcpLastIndex := 0
        srtcpReplayInitialized := false
        srtcpIndex := 0
        roc := 0
        lastSeq := 0 }

/-! ## Initialization vectors -/

/-- The IV layout shared by SRTP and SRTCP: the salt with the SSRC xored into bytes 4-7 and the low
six bytes of `index` into bytes 8-13. -/
def ivFor (s : SrtpSession) (index : Nat) : Bytes :=
  xorBytes (s.saltKey ++ [0, 0])
    ([0, 0, 0, 0] ++ toBe 4 s.ssrc.toNat ++ (toBe 8 index).drop 2 ++ [0, 0])

def generateIv (s : SrtpSession) (seq : UInt16) (roc : UInt32) : Bytes :=
  s.ivFor (roc.toNat <<< 16 ||| seq.toNat)

/-- The IV `protect_rtcp` and `unprotect_rtcp` build inline. -/
def srtcpIv (s : SrtpSession) (srtcpIndex : UInt32) : Bytes :=
  s.ivFor (srtcpIndex.toNat <<< 16)

/-! ## Packet index and rollover counter -/

def packetIndex (s : SrtpSession) (seq : UInt16) : Nat :=
  let sq := seq.toNat
  let l := s.lastSeq.toNat
  let roc := s.roc.toNat
  if sq + 0x8000 < l + 0x10000 ∧ sq < l then
    -- a wrap is assumed only between the last and the first quarter of the range
    if 0x8000 < l ∧ sq < 0x4000 then
      (roc + 1) <<< 16 ||| sq
    else
      roc <<< 16 ||| sq
  else if l + 0x8000 < sq ∧ l < 0x8000 then
    -- a late packet from before the last wrap
    if 0 < roc then
      (roc - 1) <<< 16 ||| sq
    else
      sq
  else
    roc <<< 16 ||| sq

/-- The rollover counter `unprotect_rtp` works with: `(index >> 16) as u32`. -/
def estimatedRoc (s : SrtpSession) (seq : UInt16) : UInt32 :=
  UInt32.ofNat (s.packetIndex seq >>> 16)

def updateIndex (s : SrtpSession) (seq : UInt16) : SrtpSession :=
  { s with
    roc := if seq < s.lastSeq ∧ 0x8000 < s.lastSeq - seq then s.roc + 1 else s.roc
    lastSeq := seq }

end SrtpSession

/-! ## Replay windows -/

/-- The body shared by `check_replay` (64-bit indices) and `check_replay_srtcp` (32-bit). -/
def windowCheck (initialized : Bool) (lastIndex windowSize : Nat) (bitmap : List UInt64)
    (index : Nat) : Bool :=
  if !initialized then
    true
  else if lastIndex < index then
    true
  else
    let diff := lastIndex - index
    if windowSize ≤ diff then
      false
    else
      !bitmapGet bitmap diff

/-- The bitmap after `update_replay` or `update_replay_srtcp`. -/
def windowBitmap (initialized : Bool) (lastIndex : Nat) (bitmap : List UInt64) (index : Nat) :
    List UInt64 :=
  if !initialized then
    bitmapSet bitmap 0
  else if lastIndex < index then
    bitmapSet (bitmapShiftLeft bitmap (index - lastIndex)) 0
  else
    bitmapSet bitmap (lastIndex - index)

namespace SrtpSession

def checkReplay (s : SrtpSession) (index : Nat) : Bool :=
  windowCheck s.replayInitialized s.lastIndex s.config.replayWindowSize.toNat s.replayBitmap index

def updateReplay (s : SrtpSession) (index : Nat) : SrtpSession :=
  { s with
    replayInitialized := true
    lastIndex := if !s.replayInitialized || s.lastIndex < index then index else s.lastIndex
    replayBitmap := windowBitmap s.replayInitialized s.lastIndex s.replayBitmap index }

def checkReplaySrtcp (s : SrtpSession) (index : UInt32) : Bool :=
  windowCheck s.srtcpReplayInitialized s.srtcpLastIndex.toNat s.config.replayWindowSize.toNat
    s.srtcpReplayBitmap index.toNat

def updateReplaySrtcp (s : SrtpSession) (index : UInt32) : SrtpSession :=
  { s with
    srtcpReplayInitialized := true
    srtcpLastIndex :=
      if !s.srtcpReplayInitialized || s.srtcpLastIndex < index then index else s.srtcpLastIndex
    srtcpReplayBitmap :=
      windowBitmap s.srtcpReplayInitialized s.srtcpLastIndex.toNat s.srtcpReplayBitmap
        index.toNat }

end SrtpSession

/-! ## Protecting and unprotecting -/

/-- One run of AES-CM: the key and the 128-bit IV the cipher was created with. -/
structure AesCmRun where
  key : Bytes
  iv : Bytes
  deriving DecidableEq, Repr

structure Outcome where
  session : SrtpSession
  result : Except Fault Bytes
  aesCm : List AesCmRun

/-- `diff |= x ^ y` over both slices, after a length check. -/
def ctEq (a b : Bytes) : Bool :=
  if a.length ≠ b.length then
    false
  else
    (List.zip a b).foldl (fun diff p => diff ||| (p.1 ^^^ p.2)) 0 == 0

def rtpSeq (packet : Bytes) : UInt16 :=
  UInt16.ofNat (ofBe ((packet.drop 2).take 2))

def rtpSsrc (packet : Bytes) : UInt32 :=
  UInt32.ofNat (ofBe ((packet.drop 8).take 4))

namespace SrtpSession

def reject (s : SrtpSession) (e : SrtpError) : Outcome :=
  { session := s, result := .error (.err e), aesCm := [] }

def protectRtp (suite : CipherSuite) (s : SrtpSession) (rtpPacket : Bytes) : Outcome :=
  if rtpPacket.length < 12 then
    s.reject (.packetTooShort rtpPacket.length)
  else
    let seq := rtpSeq rtpPacket
    let ssrc := rtpSsrc rtpPacket
    if ssrc ≠ s.ssrc then
      s.reject (.ssrcMismatch s.ssrc ssrc)
    else
      -- the counter is the one before `update_index` has seen this packet
      let iv := s.generateIv seq s.roc
      let encryptedPayload := suite.applyKeystream s.encryptionKey iv (rtpPacket.drop 12)
      let srtpPacket := rtpPacket.take 12 ++ encryptedPayload
      let authTag := suite.hmac s.authKey (srtpPacket ++ toBe 4 s.roc.toNat)
      if 20 < s.config.authTagLen then
        { session := s, result := .error .panic, aesCm := [⟨s.encryptionKey, iv⟩] }
      else
        { session := s.updateIndex seq
          result := .ok (srtpPacket ++ authTag.take s.config.authTagLen)
          aesCm := [⟨s.encryptionKey, iv⟩] }

def unprotectRtp (suite : CipherSuite) (s : SrtpSession) (srtpPacket : Bytes) : Outcome :=
  let tagLen := s.config.authTagLen
  if srtpPacket.length < 12 + tagLen then
    s.reject (.packetTooShort srtpPacket.length)
  else
    let seq := rtpSeq srtpPacket
    let ssrc := rtpSsrc srtpPacket
    if ssrc ≠ s.ssrc then
      s.reject (.ssrcMismatch s.ssrc ssrc)
    else
      let body := srtpPacket.take (srtpPacket.length - tagLen)
      let receivedTag := srtpPacket.drop (srtpPacket.length - tagLen)
      let index := s.packetIndex seq
      let estimatedRoc := s.estimatedRoc seq
      let expectedTag := suite.hmac s.authKey (body ++ toBe 4 estimatedRoc.toNat)
      if 20 < tagLen then
        { session := s, result := .error .panic, aesCm := [] }
      else if !ctEq (expectedTag.take tagLen) receivedTag then
        s.reject .authenticationFailed
      -- only an authentic packet can touch the replay window
      else if !s.checkReplay index then
        s.reject (.replayDetected seq)
      else
        let iv := s.generateIv seq estimatedRoc
        let decryptedPayload := suite.applyKeystream s.encryptionKey iv (body.drop 12)
        { session := (({ s with roc := estimatedRoc }).updateIndex seq).updateReplay index
          result := .ok (srtpPacket.take 12 ++ decryptedPayload)
          aesCm := [⟨s.encryptionKey, iv⟩] }

def protectRtcp (suite : CipherSuite) (s : SrtpSession) (rtcpPacket : Bytes) : Outcome :=
  if rtcpPacket.length < 8 then
    s.reject (.packetTooShort rtcpPacket.length)
  else
    let srtcpIndex := s.srtcpIndex
    -- the counter advances before anything can fail
    let s' := { s with srtcpIndex := (s.srtcpIndex + 1) &&& 0x7FFFFFFF }
    let srtcpIndexWithE := srtcpIndex ||| ((1 : UInt32) <<< 31)
    let iv := s.srtcpIv srtcpIndex
    let encryptedPayload := suite.applyKeystream s.encryptionKey iv (rtcpPacket.drop 8)
    let srtcpPacket := rtcpPacket.take 8 ++ encryptedPayload ++ toBe 4 srtcpIndexWithE.toNat
    let authTag := suite.hmac s.authKey srtcpPacket
    if 20 < s.config.authTagLen then
      { session := s', result := .error .panic, aesCm := [⟨s.encryptionKey, iv⟩] }
    else
      { session := s'
        result := .ok (srtcpPacket ++ authTag.take s.config.authTagLen)
        aesCm := [⟨s.encryptionKey, iv⟩] }

/-- The index word of an SRTCP packet: the four bytes before the tag, with the E flag on top. -/
def srtcpIndexWithE (s : SrtpSession) (srtcpPacket : Bytes) : UInt32 :=
  let srtcpIndexOffset := srtcpPacket.length - s.config.authTagLen - 4
  UInt32.ofNat (ofBe ((srtcpPacket.drop srtcpIndexOffset).take 4))

/-- The 31-bit SRTCP index a packet carries. -/
def srtcpPacketIndex (s : SrtpSession) (srtcpPacket : Bytes) : UInt32 :=
  s.srtcpIndexWithE srtcpPacket &&& 0x7FFFFFFF

def unprotectRtcp (suite : CipherSuite) (s : SrtpSession) (srtcpPacket : Bytes) : Outcome :=
  let tagLen := s.config.authTagLen
  if srtcpPacket.length < 8 + 4 + tagLen then
    s.reject (.packetTooShort srtcpPacket.length)
  else
    let srtcpIndexOffset := srtcpPacket.length - tagLen - 4
    let srtcpIndex := s.srtcpPacketIndex srtcpPacket
    let eFlag := (s.srtcpIndexWithE srtcpPacket >>> 31) &&& 1
    let receivedTag := srtcpPacket.drop (srtcpPacket.length - tagLen)
    let expectedTag := suite.hmac s.authKey (srtcpPacket.take (srtcpPacket.length - tagLen))
    if 20 < tagLen then
      { session := s, result := .error .panic, aesCm := [] }
    else if !ctEq (expectedTag.take tagLen) receivedTag then
      s.reject .authenticationFailed
    else
      -- there is no replay check on this path
      let encryptedPayload := (srtcpPacket.take srtcpIndexOffset).drop 8
      if eFlag = 1 then
        let iv := s.srtcpIv srtcpIndex
        { session := s
          result := .ok
            (srtcpPacket.take 8 ++ suite.applyKeystream s.encryptionKey iv encryptedPayload)
          aesCm := [⟨s.encryptionKey, iv⟩] }
      else
        { session := s, result := .ok (srtcpPacket.take 8 ++ encryptedPayload), aesCm := [] }

end SrtpSession

end LingVoice.LmSrtp

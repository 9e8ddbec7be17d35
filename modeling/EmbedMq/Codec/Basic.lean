import EmbedMq.Codec.Crc32
import EmbedMq.Foundation.LittleEndian
import EmbedMq.Foundation.Tracked

/-!
# The wire format

`MessageCodec` follows `message_codec.h`. Encoders work on the caller's buffer:
they clear it, size it for the header, store the header fields at their offsets
and append the body. The decoder is a `Tracked` program, so it carries the list
of the positions it reads along with its result.

The clock is an argument of the encoders. The width of `size_t` is an argument
of the decoder, which computes lengths in 64 bits and narrows them afterwards.
-/

namespace EmbedMq

/-- The two widths of `size_t` on the supported platforms. -/
inductive SizeT where
  | bits32
  | bits64
  deriving DecidableEq

/-- One more than the largest `size_t`. -/
def SizeT.modulus : SizeT → Nat
  | bits32 => 2 ^ 32
  | bits64 => 2 ^ 64

theorem SizeT.lt_modulus {n : Nat} (h : n < 2 ^ 32) (sz : SizeT) : n < sz.modulus := by
  cases sz with
  | bits32 => exact h
  | bits64 => exact Nat.lt_trans h (by decide)

/-- A buffer whose size is a `size_t`, as every `(data, size)` argument pair. -/
structure Buffer (sz : SizeT) where
  bytes : Bytes
  fits : bytes.length < sz.modulus

namespace MessageCodec

def magic : UInt16 := 0xEBDC
def version : UInt8 := 2
def maxTopicLen : Nat := 0xFFFF
def maxPayloadLen : Nat := 64 * 1024 * 1024
def headerBaseSize : Nat := 26
def hasTs : UInt8 := 0x01
def hasCrc : UInt8 := 0x02

structure WireHeader where
  magic : UInt16 := 0
  version : UInt8 := 0
  msgType : UInt8 := 0
  qosLevel : UInt8 := 0
  flags : UInt8 := 0
  serializerId : UInt8 := 0
  sourceId : UInt16 := 0
  destId : UInt16 := 0
  topicLen : UInt16 := 0
  sequenceId : UInt32 := 0
  correlationId : UInt32 := 0
  timestamp : UInt64 := 0
  payloadLen : UInt32 := 0
  checksum : UInt32 := 0
  deriving DecidableEq

/-- The arguments of an encoder call, with the source's default arguments. -/
structure EncodeArgs where
  type : MessageType
  sourceId : UInt16
  destId : UInt16
  topic : Bytes
  payload : Bytes
  qos : QoSProfile
  sequenceId : UInt32
  correlationId : UInt32 := 0
  flags : UInt8 := 0
  serializerId : UInt8 := 0
  withCrc : Bool := true
  deriving DecidableEq

/-! ### Stores into a buffer -/

def putU16 (buf : Bytes) (p : Nat) (v : UInt16) : Bytes :=
  (buf.set p v.toUInt8).set (p + 1) (v >>> 8).toUInt8

def putU32 (buf : Bytes) (p : Nat) (v : UInt32) : Bytes :=
  (((buf.set p v.toUInt8).set (p + 1) (v >>> 8).toUInt8).set
    (p + 2) (v >>> 16).toUInt8).set (p + 3) (v >>> 24).toUInt8

def putU64 (buf : Bytes) (p : Nat) (v : UInt64) : Bytes :=
  (List.range 8).foldl (fun b i => b.set (p + i) (v >>> UInt64.ofNat (8 * i)).toUInt8) buf

/-- `std::vector::resize`: cut, or fill with zeros. -/
def resize (buf : Bytes) (n : Nat) : Bytes :=
  buf.take n ++ List.replicate (n - buf.length) 0

/-! ### Encoding -/

def isDataMsg (t : MessageType) : Bool :=
  t == .publish || t == .request || t == .reply

/-- The header flag byte for the optional fields. -/
def hdrFlags (withTs withCrc : Bool) : UInt8 :=
  (if withTs then hasTs else 0) ||| (if withCrc then hasCrc else 0)

def headerSize (withTs withCrc : Bool) : Nat :=
  headerBaseSize + (if withTs then 8 else 0) + (if withCrc then 4 else 0)

/-- Store the header and return the offset of the checksum field with it. The
lengths are the narrowed ones that the caller passes. -/
def writeHeader (buf : Bytes) (a : EncodeArgs) (topicLen : UInt16) (payloadLen : UInt32)
    (withTs : Bool) (now : UInt64) : Bytes × Nat :=
  let buf := putU16 buf 0 magic
  let buf := buf.set 2 version
  let buf := buf.set 3 a.type.toByte
  let buf := buf.set 4 (hdrFlags withTs a.withCrc)
  let buf := buf.set 5 a.qos.level.toByte
  let buf := buf.set 6 a.flags
  let buf := buf.set 7 a.serializerId
  let buf := putU16 buf 8 a.sourceId
  let buf := putU16 buf 10 a.destId
  let buf := putU16 buf 12 topicLen
  let buf := putU32 buf 14 a.sequenceId
  let buf := putU32 buf 18 a.correlationId
  let buf := putU32 buf 22 payloadLen
  let off := headerBaseSize
  let (buf, off) := if withTs then (putU64 buf off now, off + 8) else (buf, off)
  let checksumPos := off
  let buf := if a.withCrc then putU32 buf off 0 else buf
  (buf, checksumPos)

/-- Checksum of a contiguous buffer, skipping the checksum field itself. -/
def computeCrcContiguous (buf : Bytes) (checksumPos : Nat) : UInt32 :=
  let state := crc32Update 0xFFFFFFFF ((buf.drop 4).take (checksumPos - 4))
  let after := checksumPos + 4
  let state :=
    if after < buf.length then
      crc32Update state ((buf.drop after).take (buf.length - after))
    else state
  ~~~ state

/-- Encode a whole frame into the caller's buffer. -/
def encodeInto (buf : Bytes) (a : EncodeArgs) (now : UInt64) : Bool × Bytes :=
  let buf := buf.take 0
  if maxTopicLen < a.topic.length ∨ maxPayloadLen < a.payload.length then (false, buf)
  else
    let withTs := isDataMsg a.type
    let buf := resize buf (headerSize withTs a.withCrc)
    let (buf, checksumPos) := writeHeader buf a (UInt16.ofNat a.topic.length)
      (UInt32.ofNat a.payload.length) withTs now
    let buf := buf ++ a.topic
    let buf := if a.payload.isEmpty then buf else buf ++ a.payload
    let buf := if a.withCrc then
        putU32 buf checksumPos (computeCrcContiguous buf checksumPos)
      else buf
    (true, buf)

def encode (a : EncodeArgs) (now : UInt64) : Bytes :=
  (encodeInto [] a now).2

/-- Encode the header alone; topic and payload are sent as separate slices. -/
def encodeHeaderInto (buf : Bytes) (a : EncodeArgs) (now : UInt64) : Bool × Bytes :=
  let buf := buf.take 0
  if maxTopicLen < a.topic.length ∨ maxPayloadLen < a.payload.length then (false, buf)
  else
    let withTs := isDataMsg a.type
    let buf := resize buf (headerSize withTs a.withCrc)
    let (buf, checksumPos) := writeHeader buf a (UInt16.ofNat a.topic.length)
      (UInt32.ofNat a.payload.length) withTs now
    if a.withCrc then
      let state := crc32Update 0xFFFFFFFF ((buf.drop 4).take (checksumPos - 4))
      let state := if a.topic.isEmpty then state else crc32Update state a.topic
      let state := if 0 < a.payload.length then crc32Update state a.payload else state
      (true, putU32 buf checksumPos (~~~ state))
    else (true, buf)

/-- The slices that `publish` hands to `sendv` for a header buffer. -/
def publishSlices (headerBuf topic payload : Bytes) : List Bytes :=
  [headerBuf] ++ (if topic.isEmpty then [] else [topic]) ++
    (if 0 < payload.length then [payload] else [])

/-! ### Decoding -/

structure DecodeResult where
  valid : Bool := false
  header : WireHeader := {}
  topic : Bytes := []
  payload : Bytes := []
  deriving DecidableEq

open Tracked (read readRange)

def getU16 (data : Bytes) (p : Nat) : Tracked UInt16 := do
  let b₀ ← read data p
  let b₁ ← read data (p + 1)
  return b₀.toUInt16 ||| b₁.toUInt16 <<< 8

def getU32 (data : Bytes) (p : Nat) : Tracked UInt32 := do
  let b₀ ← read data p
  let b₁ ← read data (p + 1)
  let b₂ ← read data (p + 2)
  let b₃ ← read data (p + 3)
  return b₀.toUInt32 ||| b₁.toUInt32 <<< 8 ||| b₂.toUInt32 <<< 16 ||| b₃.toUInt32 <<< 24

/-- The loop over eight bytes, each shifted into its place. -/
def getU64 (data : Bytes) (p : Nat) : Tracked UInt64 := do
  let bs ← readRange data p 8
  return LittleEndian.word64 bs

/-- The checksum that the decoder computes, over the ranges before and after the
checksum field. `stop` is the expected frame length, narrowed to `size_t`. -/
def frameCrc (data : Bytes) (checksumPos stop : Nat) : Tracked UInt32 := do
  let front ← readRange data 4 (checksumPos - 4)
  let state := crc32Update 0xFFFFFFFF front
  let after := checksumPos + 4
  if after < stop then
    let back ← readRange data after (stop - after)
    return ~~~ crc32Update state back
  else return ~~~ state

/-- The base header, read once magic and version have been checked. -/
def decodeBase (data : Bytes) : Tracked (WireHeader × UInt8) := do
  let versionByte ← read data 2
  let msgType ← read data 3
  let hdrFlags ← read data 4
  let qosLevel ← read data 5
  let flags ← read data 6
  let serializerId ← read data 7
  let sourceId ← getU16 data 8
  let destId ← getU16 data 10
  let topicLen ← getU16 data 12
  let sequenceId ← getU32 data 14
  let correlationId ← getU32 data 18
  let payloadLen ← getU32 data 22
  return ({ magic := magic, version := versionByte, msgType, qosLevel, flags, serializerId,
            sourceId, destId, topicLen, sequenceId, correlationId, payloadLen }, hdrFlags)

/-- The optional timestamp, at the end of the base header. -/
def decodeTimestamp (data : Bytes) (present : Bool) (h : WireHeader) : Tracked WireHeader :=
  if present then do
    let timestamp ← getU64 data headerBaseSize
    return { h with timestamp }
  else return h

/-- The optional checksum, at the position after the timestamp. -/
def decodeChecksum (data : Bytes) (present : Bool) (pos : Nat) (h : WireHeader) :
    Tracked WireHeader :=
  if present then do
    let checksum ← getU32 data pos
    return { h with checksum }
  else return h

/-- The body slices of a frame whose length and checksum have been accepted. -/
def decodeBody (data : Bytes) (hsz : Nat) (h : WireHeader) : Tracked DecodeResult := do
  let topic ← readRange data hsz h.topicLen.toNat
  if 0 < h.payloadLen.toNat then
    let payload ← readRange data (hsz + h.topicLen.toNat) h.payloadLen.toNat
    return { valid := true, header := h, topic, payload }
  else return { valid := true, header := h, topic }

/-- The optional fields and the body, once the base header is known. Lengths are
added in 64 bits and narrowed to `size_t` only after the length check. -/
def decodeRest (sz : SizeT) (data : Bytes) (withTs withCrc : Bool) (h : WireHeader) :
    Tracked DecodeResult := do
  let hsz := headerSize withTs withCrc
  if data.length < hsz then return { header := h }
  let h ← decodeTimestamp data withTs h
  let checksumPos := headerBaseSize + (if withTs then 8 else 0)
  let h ← decodeChecksum data withCrc checksumPos h
  let expected := (hsz + h.topicLen.toNat + h.payloadLen.toNat) % 2 ^ 64
  if data.length < expected then return { header := h }
  if withCrc then
    let crc ← frameCrc data checksumPos (expected % sz.modulus)
    if crc ≠ h.checksum then return { header := h }
    else decodeBody data (hsz % sz.modulus) h
  else decodeBody data (hsz % sz.modulus) h

/-- `decode` with the positions it reads. -/
def decodeTracked (sz : SizeT) (data : Bytes) : Tracked DecodeResult := do
  if data.length < headerBaseSize then return {}
  if (← getU16 data 0) ≠ magic then return {}
  if (← read data 2) ≠ version then return {}
  let (h, hdrFlags) ← decodeBase data
  decodeRest sz data (decide (hdrFlags &&& hasTs ≠ 0)) (decide (hdrFlags &&& hasCrc ≠ 0)) h

def decode (sz : SizeT) (data : Bytes) : DecodeResult :=
  (decodeTracked sz data).value

end MessageCodec

end EmbedMq

import EmbedMq.Codec.Grammar

/-!
# The bytes that the encoders produce

The stores of `writeHeader` into a sized buffer amount to a concatenation of
fields. Here each encoder is brought into that form: base header, optional
timestamp, optional checksum, topic, payload. The two encoders compute the
checksum in different ways, over slices of the finished buffer or over the
header, topic and payload in turn; in the concatenated form both are `crc32` of
the same bytes.
-/

namespace EmbedMq.MessageCodec

/-! ### Fields as byte lists -/

def bytes16 (v : UInt16) : Bytes := [v.toUInt8, (v >>> 8).toUInt8]

def bytes32 (v : UInt32) : Bytes :=
  [v.toUInt8, (v >>> 8).toUInt8, (v >>> 16).toUInt8, (v >>> 24).toUInt8]

def bytes64 (v : UInt64) : Bytes :=
  (List.range 8).map fun i => (v >>> UInt64.ofNat (8 * i)).toUInt8

theorem bytes16_eq (v : UInt16) : bytes16 v = LittleEndian.bytes 2 v.toNat := by
  have h₁ : (v >>> 8).toUInt8 = UInt8.ofNat (v.toNat / 256) := by
    apply UInt8.toNat_inj.mp
    simp [Nat.shiftRight_eq_div_pow]
  rw [bytes16, h₁]
  rfl

theorem bytes32_eq (v : UInt32) : bytes32 v = LittleEndian.bytes 4 v.toNat := by
  have h₁ : (v >>> 8).toUInt8 = UInt8.ofNat (v.toNat / 256) := by
    apply UInt8.toNat_inj.mp
    simp [Nat.shiftRight_eq_div_pow]
  have h₂ : (v >>> 16).toUInt8 = UInt8.ofNat (v.toNat / 256 / 256) := by
    apply UInt8.toNat_inj.mp
    simp [Nat.shiftRight_eq_div_pow, Nat.div_div_eq_div_mul]
  have h₃ : (v >>> 24).toUInt8 = UInt8.ofNat (v.toNat / 256 / 256 / 256) := by
    apply UInt8.toNat_inj.mp
    simp [Nat.shiftRight_eq_div_pow, Nat.div_div_eq_div_mul]
  rw [bytes32, h₁, h₂, h₃]
  rfl

theorem bytes64_eq (v : UInt64) : bytes64 v = LittleEndian.bytes 8 v.toNat := by
  rw [bytes64, LittleEndian.bytes_eq_map]
  apply List.map_congr_left
  intro i hi
  have hlt : 8 * i % 64 = 8 * i := Nat.mod_eq_of_lt (by
    rw [List.mem_range] at hi
    omega)
  apply UInt8.toNat_inj.mp
  simp [Nat.shiftRight_eq_div_pow, hlt, pow_mul]

@[simp] theorem bytes16_length (v : UInt16) : (bytes16 v).length = 2 := rfl
@[simp] theorem bytes32_length (v : UInt32) : (bytes32 v).length = 4 := rfl
@[simp] theorem bytes64_length (v : UInt64) : (bytes64 v).length = 8 := rfl

theorem value_bytes16 (v : UInt16) : LittleEndian.value (bytes16 v) = v.toNat := by
  rw [bytes16_eq]
  exact LittleEndian.value_bytes_of_lt v.toNat_lt

theorem value_bytes32 (v : UInt32) : LittleEndian.value (bytes32 v) = v.toNat := by
  rw [bytes32_eq]
  exact LittleEndian.value_bytes_of_lt v.toNat_lt

theorem value_bytes64 (v : UInt64) : LittleEndian.value (bytes64 v) = v.toNat := by
  rw [bytes64_eq]
  exact LittleEndian.value_bytes_of_lt v.toNat_lt

/-! ### The header -/

/-- The 26 bytes of the base header. -/
def baseBytes (a : EncodeArgs) : Bytes :=
  bytes16 magic ++ [version, a.type.toByte, hdrFlags (isDataMsg a.type) a.withCrc,
    a.qos.level.toByte, a.flags, a.serializerId] ++ bytes16 a.sourceId ++ bytes16 a.destId ++
    bytes16 (UInt16.ofNat a.topic.length) ++ bytes32 a.sequenceId ++ bytes32 a.correlationId ++
    bytes32 (UInt32.ofNat a.payload.length)

def timestampBytes (a : EncodeArgs) (now : UInt64) : Bytes :=
  if isDataMsg a.type then bytes64 now else []

/-- The header up to the checksum field. -/
def frontBytes (a : EncodeArgs) (now : UInt64) : Bytes :=
  baseBytes a ++ timestampBytes a now

def checksumBytes (a : EncodeArgs) (checksum : UInt32) : Bytes :=
  if a.withCrc then bytes32 checksum else []

/-- The checksum of a frame, in terms of its parts. -/
def checksumOf (a : EncodeArgs) (now : UInt64) : UInt32 :=
  crc32 ((frontBytes a now).drop 4 ++ (a.topic ++ a.payload))

/-- The whole frame. -/
def frameBytes (a : EncodeArgs) (now : UInt64) : Bytes :=
  frontBytes a now ++ (checksumBytes a (checksumOf a now) ++ (a.topic ++ a.payload))

/-- The messages whose fields fit the header. -/
def Encodable (a : EncodeArgs) : Prop :=
  a.topic.length ≤ maxTopicLen ∧ a.payload.length ≤ maxPayloadLen

instance (a : EncodeArgs) : Decidable (Encodable a) := instDecidableAnd

@[simp] theorem baseBytes_length (a : EncodeArgs) : (baseBytes a).length = 26 := rfl

theorem frontBytes_length (a : EncodeArgs) (now : UInt64) :
    (frontBytes a now).length = 26 + (if isDataMsg a.type then 8 else 0) := by
  rw [frontBytes, List.length_append, baseBytes_length, timestampBytes]
  split <;> rfl

/-- Storing the fields one after the other fills a sized buffer with the front of
the header and a zeroed checksum. -/
theorem writeHeader_eq (a : EncodeArgs) (now : UInt64) :
    writeHeader (resize [] (headerSize (isDataMsg a.type) a.withCrc)) a
        (UInt16.ofNat a.topic.length) (UInt32.ofNat a.payload.length) (isDataMsg a.type) now =
      (frontBytes a now ++ checksumBytes a 0, (frontBytes a now).length) := by
  rw [frontBytes_length]
  simp only [frontBytes, timestampBytes, checksumBytes, writeHeader, baseBytes]
  cases isDataMsg a.type <;> cases a.withCrc <;>
    simp [resize, headerSize, headerBaseSize, List.replicate, putU16, putU32, putU64, bytes16,
      bytes32, bytes64, List.range, List.range.loop]

/-! ### The encoders -/

theorem putU32_append (pre post : Bytes) (old v : UInt32) :
    putU32 (pre ++ (bytes32 old ++ post)) pre.length v = pre ++ (bytes32 v ++ post) := by
  simp [putU32, bytes32]

/-- The contiguous checksum skips exactly the checksum field. -/
theorem computeCrcContiguous_append (pre field post : Bytes) (hpre : 4 ≤ pre.length)
    (hfield : field.length = 4) :
    computeCrcContiguous (pre ++ (field ++ post)) pre.length = crc32 (pre.drop 4 ++ post) := by
  have hfront : ((pre ++ (field ++ post)).drop 4).take (pre.length - 4) = pre.drop 4 := by
    rw [List.drop_append_of_le_length hpre]
    exact List.take_left' (by rw [List.length_drop])
  have hback : (pre ++ (field ++ post)).drop (pre.length + 4) = post := by
    rw [← List.append_assoc, List.drop_left' (by rw [List.length_append, hfield])]
  have htotal : (pre ++ (field ++ post)).length = pre.length + 4 + post.length := by
    rw [List.length_append, List.length_append, hfield]
    omega
  simp only [computeCrcContiguous, hfront, hback, htotal, crc32, crc32Update_append]
  cases post with
  | nil => simp
  | cons b rest => simp

private theorem not_encodable_iff (a : EncodeArgs) :
    (maxTopicLen < a.topic.length ∨ maxPayloadLen < a.payload.length) ↔ ¬ Encodable a := by
  unfold Encodable
  omega

/-- `encodeInto` on any buffer: the frame, or an emptied buffer. -/
theorem encodeInto_eq (buf : Bytes) (a : EncodeArgs) (now : UInt64) :
    encodeInto buf a now = if Encodable a then (true, frameBytes a now) else (false, []) := by
  have hbody : (if a.payload.isEmpty = true then frontBytes a now ++ checksumBytes a 0 ++ a.topic
      else frontBytes a now ++ checksumBytes a 0 ++ a.topic ++ a.payload) =
      frontBytes a now ++ (checksumBytes a 0 ++ (a.topic ++ a.payload)) := by
    cases a.payload <;> simp
  have hfront : 4 ≤ (frontBytes a now).length := by
    rw [frontBytes_length]
    omega
  simp only [encodeInto, List.take_zero, not_encodable_iff]
  by_cases henc : Encodable a
  · simp only [henc, not_true_eq_false, if_false, if_true, writeHeader_eq, hbody]
    cases hcrc : a.withCrc with
    | false => simp [frameBytes, checksumBytes, hcrc]
    | true =>
        simp only [if_true, checksumBytes, hcrc, frameBytes, checksumOf]
        rw [computeCrcContiguous_append _ _ _ hfront rfl, putU32_append]
  · simp only [henc, not_false_eq_true, if_true, if_false]

theorem encode_eq (a : EncodeArgs) (now : UInt64) :
    encode a now = if Encodable a then frameBytes a now else [] := by
  rw [encode, encodeInto_eq]
  split <;> rfl

/-- `encodeHeaderInto` on any buffer: the same header, without the body. -/
theorem encodeHeaderInto_eq (buf : Bytes) (a : EncodeArgs) (now : UInt64) :
    encodeHeaderInto buf a now =
      if Encodable a then
        (true, frontBytes a now ++ checksumBytes a (checksumOf a now))
      else (false, []) := by
  simp only [encodeHeaderInto, List.take_zero, not_encodable_iff]
  by_cases henc : Encodable a
  · simp only [henc, not_true_eq_false, if_false, if_true, writeHeader_eq]
    cases hcrc : a.withCrc with
    | false => simp [checksumBytes, hcrc]
    | true =>
        have hfront : ((frontBytes a now ++ bytes32 0).drop 4).take
            ((frontBytes a now).length - 4) = (frontBytes a now).drop 4 := by
          rw [List.drop_append_of_le_length (by rw [frontBytes_length]; omega)]
          exact List.take_left' (by rw [List.length_drop])
        have hput := putU32_append (frontBytes a now) [] 0 (checksumOf a now)
        simp only [List.append_nil] at hput
        -- Skipping an empty piece leaves the register as absorbing it would.
        have hstate : ~~~ (if 0 < a.payload.length then
            crc32Update (if a.topic.isEmpty = true then
                crc32Update 0xFFFFFFFF ((frontBytes a now).drop 4)
              else crc32Update (crc32Update 0xFFFFFFFF ((frontBytes a now).drop 4)) a.topic)
              a.payload
            else (if a.topic.isEmpty = true then
                crc32Update 0xFFFFFFFF ((frontBytes a now).drop 4)
              else crc32Update (crc32Update 0xFFFFFFFF ((frontBytes a now).drop 4)) a.topic)) =
            checksumOf a now := by
          simp only [checksumOf, crc32, crc32Update_append]
          cases a.topic <;> cases a.payload <;> simp
        simp only [checksumBytes, hcrc, if_true, hfront, hstate, hput]
  · simp only [henc, not_false_eq_true, if_true, if_false]

/-! ### The scatter/gather path -/

theorem flatten_publishSlices (headerBuf topic payload : Bytes) :
    (publishSlices headerBuf topic payload).flatten = headerBuf ++ (topic ++ payload) := by
  cases topic <;> cases payload <;> simp [publishSlices]

/-- The zero-copy path sends the frame of the plain path: both encoders succeed on
the same messages, and the slices of `publish` concatenate to the same bytes,
whatever the two output buffers held before. -/
theorem encodeHeaderInto_agrees (a : EncodeArgs) (now : UInt64) (buf headerBuf : Bytes) :
    (encodeHeaderInto headerBuf a now).1 = (encodeInto buf a now).1 ∧
      ((encodeInto buf a now).1 = true →
        (publishSlices (encodeHeaderInto headerBuf a now).2 a.topic a.payload).flatten =
          (encodeInto buf a now).2) := by
  rw [encodeHeaderInto_eq, encodeInto_eq]
  by_cases henc : Encodable a
  · simp only [henc, if_true, true_and, forall_const]
    rw [flatten_publishSlices, frameBytes, List.append_assoc]
  · simp [henc]

end EmbedMq.MessageCodec

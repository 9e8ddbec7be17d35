import EmbedMq.Codec.Layout

/-!
# Encoding and decoding are inverse to each other

An encoded frame is well formed and its fields are the encoder's arguments, so
decoding it, with any bytes behind it, gives the message back. Conversely the
bytes of a canonical frame are determined by the decoded fields: every header
byte is one of them, and the checksum is a function of the rest.
-/

namespace EmbedMq.MessageCodec

/-! ### Slices of a concatenation -/

theorem slice_append_middle (pre mid post : Bytes) :
    slice (pre ++ (mid ++ post)) pre.length mid.length = mid := by
  rw [slice, List.drop_left' rfl, List.take_left' rfl]

theorem slice_append_left {pre : Bytes} (post : Bytes) {start len : Nat}
    (h : start + len ≤ pre.length) : slice (pre ++ post) start len = slice pre start len := by
  rw [slice, slice, List.drop_append_of_le_length (by omega),
    List.take_append_of_le_length (by rw [List.length_drop]; omega)]

/-! ### Fields of an encoded frame -/

section Frame

variable (a : EncodeArgs) (now : UInt64) (t : Bytes)

/-- A frame with bytes behind it, cut after the base header. -/
theorem frame_eq_base :
    frameBytes a now ++ t = baseBytes a ++ (timestampBytes a now ++
      (checksumBytes a (checksumOf a now) ++ (a.topic ++ (a.payload ++ t)))) := by
  simp [frameBytes, frontBytes]

/-- The same frame, cut after the front of the header. -/
theorem frame_eq_front :
    frameBytes a now ++ t = frontBytes a now ++
      (checksumBytes a (checksumOf a now) ++ (a.topic ++ (a.payload ++ t))) := by
  simp [frameBytes]

theorem frame_flags : (frameBytes a now ++ t).getD 4 0 = hdrFlags (isDataMsg a.type) a.withCrc := by
  rw [frame_eq_base]
  rfl

theorem hdrFlags_ts (withTs withCrc : Bool) :
    decide (hdrFlags withTs withCrc &&& hasTs ≠ 0) = withTs := by
  cases withTs <;> cases withCrc <;> rfl

theorem hdrFlags_crc (withTs withCrc : Bool) :
    decide (hdrFlags withTs withCrc &&& hasCrc ≠ 0) = withCrc := by
  cases withTs <;> cases withCrc <;> rfl

theorem frame_tsFlag : tsFlag (frameBytes a now ++ t) = isDataMsg a.type := by
  rw [tsFlag, frame_flags, hdrFlags_ts]

theorem frame_crcFlag : crcFlag (frameBytes a now ++ t) = a.withCrc := by
  rw [crcFlag, frame_flags, hdrFlags_crc]

theorem frame_checksumPos :
    checksumPos (frameBytes a now ++ t) = (frontBytes a now).length := by
  rw [checksumPos, frame_tsFlag, frontBytes_length]

theorem checksumBytes_length (checksum : UInt32) :
    (checksumBytes a checksum).length = if a.withCrc then 4 else 0 := by
  unfold checksumBytes
  split <;> rfl

theorem frame_bodyPos :
    bodyPos (frameBytes a now ++ t) =
      (frontBytes a now).length + (checksumBytes a (checksumOf a now)).length := by
  rw [bodyPos, frame_checksumPos, frame_crcFlag, checksumBytes_length]

/-- A two-byte field of the base header. -/
private theorem frame_field16 {p : Nat} {v : UInt16} (hp : p + 2 ≤ 26)
    (h : slice (baseBytes a) p 2 = bytes16 v) : field (frameBytes a now ++ t) p 2 = v.toNat := by
  rw [field, frame_eq_base, slice_append_left _ (by rwa [baseBytes_length]), h, value_bytes16]

/-- A four-byte field of the base header. -/
private theorem frame_field32 {p : Nat} {v : UInt32} (hp : p + 4 ≤ 26)
    (h : slice (baseBytes a) p 4 = bytes32 v) : field (frameBytes a now ++ t) p 4 = v.toNat := by
  rw [field, frame_eq_base, slice_append_left _ (by rwa [baseBytes_length]), h, value_bytes32]

variable {a} (henc : Encodable a)
include henc

theorem frame_topicLength : topicLength (frameBytes a now ++ t) = a.topic.length := by
  have hfield := frame_field16 a now t (p := 12) (by decide) rfl
  rw [topicLength, hfield]
  exact UInt16.toNat_ofNat_of_lt' (Nat.lt_of_le_of_lt henc.1 (by decide))

theorem frame_payloadLength : payloadLength (frameBytes a now ++ t) = a.payload.length := by
  have hfield := frame_field32 a now t (p := 22) (by decide) rfl
  rw [payloadLength, hfield]
  exact UInt32.toNat_ofNat_of_lt' (Nat.lt_of_le_of_lt henc.2 (by decide))

theorem frame_frameLength : frameLength (frameBytes a now ++ t) = (frameBytes a now).length := by
  rw [frameLength_eq, frame_bodyPos, frame_topicLength now t henc, frame_payloadLength now t henc]
  simp [frameBytes, Nat.add_assoc]

theorem frame_length_lt : (frameBytes a now).length < 2 ^ 32 := by
  have htopic : a.topic.length ≤ 65535 := henc.1
  have hpayload : a.payload.length ≤ 67108864 := henc.2
  have hchecksum := checksumBytes_length a (checksumOf a now)
  have hfront := frontBytes_length a now
  simp only [frameBytes, List.length_append]
  split at hchecksum <;> split at hfront <;> omega

theorem frame_protectedBytes (hcrc : a.withCrc = true) :
    protectedBytes (frameBytes a now ++ t) =
      (frontBytes a now).drop 4 ++ (a.topic ++ a.payload) := by
  have hfour : (checksumBytes a (checksumOf a now)).length = 4 := by
    rw [checksumBytes_length, hcrc]
    rfl
  have hlen : (frameBytes a now).length - ((frontBytes a now).length + 4) =
      (a.topic ++ a.payload).length := by
    rw [frameBytes, List.length_append, List.length_append, hfour]
    omega
  rw [protectedBytes, frame_checksumPos, frame_frameLength now t henc, hlen]
  refine congrArg₂ (· ++ ·) ?_ ?_
  · have hfront : 4 ≤ (frontBytes a now).length := by
      rw [frontBytes_length]
      omega
    rw [frame_eq_front, slice_append_left _ (by omega), slice,
      List.take_of_length_le (by rw [List.length_drop])]
  · have hcut : frameBytes a now ++ t =
        (frontBytes a now ++ checksumBytes a (checksumOf a now)) ++
          ((a.topic ++ a.payload) ++ t) := by
      simp [frameBytes]
    have hpos : (frontBytes a now).length + 4 =
        (frontBytes a now ++ checksumBytes a (checksumOf a now)).length := by
      rw [List.length_append, hfour]
    rw [hcut, hpos, slice_append_middle]

theorem frame_wellFormed : WellFormed (frameBytes a now ++ t) where
  base := by
    rw [frame_eq_base, List.length_append, baseBytes_length]
    omega
  magic := frame_field16 a now t (p := 0) (by decide) rfl
  version := by
    rw [frame_eq_base]
    rfl
  length := by
    rw [frame_frameLength now t henc, List.length_append]
    omega
  checksum := by
    intro hcrc
    rw [frame_crcFlag] at hcrc
    rw [frame_protectedBytes now t henc hcrc, frame_checksumPos, field, frame_eq_front]
    have hfour : checksumBytes a (checksumOf a now) = bytes32 (checksumOf a now) := by
      rw [checksumBytes, hcrc]
      rfl
    have hslice := slice_append_middle (frontBytes a now) (bytes32 (checksumOf a now))
      (a.topic ++ (a.payload ++ t))
    rw [bytes32_length] at hslice
    rw [hfour, hslice, value_bytes32]
    rfl

/-- The header that decoding an encoded message returns. -/
def encodedHeader (a : EncodeArgs) (now : UInt64) : WireHeader where
  magic := magic
  version := version
  msgType := a.type.toByte
  qosLevel := a.qos.level.toByte
  flags := a.flags
  serializerId := a.serializerId
  sourceId := a.sourceId
  destId := a.destId
  topicLen := UInt16.ofNat a.topic.length
  sequenceId := a.sequenceId
  correlationId := a.correlationId
  timestamp := if isDataMsg a.type then now else 0
  payloadLen := UInt32.ofNat a.payload.length
  checksum := if a.withCrc then checksumOf a now else 0

omit henc in
theorem frame_headerFields : headerFields (frameBytes a now ++ t) = encodedHeader a now := by
  have byte : ∀ (i : Nat) (v : UInt8), (baseBytes a).getD i 0 = v → i < 26 →
      (frameBytes a now ++ t).getD i 0 = v := by
    intro i v h hi
    rw [frame_eq_base, List.getD_append _ _ _ _ (by rwa [baseBytes_length]), h]
  have hts : (if isDataMsg a.type = true then
      UInt64.ofNat (field (frameBytes a now ++ t) 26 8) else 0) =
      if isDataMsg a.type = true then now else 0 := by
    cases hdata : isDataMsg a.type with
    | false => rw [if_neg Bool.false_ne_true, if_neg Bool.false_ne_true]
    | true =>
        have hslice := slice_append_middle (baseBytes a) (bytes64 now)
          (checksumBytes a (checksumOf a now) ++ (a.topic ++ (a.payload ++ t)))
        rw [baseBytes_length, bytes64_length] at hslice
        have hstamp : timestampBytes a now = bytes64 now := if_pos hdata
        simp only [if_true, field, frame_eq_base, hstamp, hslice, value_bytes64,
          UInt64.ofNat_toNat]
  have hsum : (if a.withCrc = true then
      UInt32.ofNat (field (frameBytes a now ++ t) (frontBytes a now).length 4) else 0) =
      if a.withCrc = true then checksumOf a now else 0 := by
    cases hcrc : a.withCrc with
    | false => rw [if_neg Bool.false_ne_true, if_neg Bool.false_ne_true]
    | true =>
        have hslice := slice_append_middle (frontBytes a now) (bytes32 (checksumOf a now))
          (a.topic ++ (a.payload ++ t))
        rw [bytes32_length] at hslice
        have hfour : checksumBytes a (checksumOf a now) = bytes32 (checksumOf a now) :=
          if_pos hcrc
        simp only [if_true, field, frame_eq_front, hfour, hslice, value_bytes32,
          UInt32.ofNat_toNat]
  simp only [headerFields, encodedHeader, frame_tsFlag, frame_crcFlag, frame_checksumPos, hts, hsum,
    byte 2 version rfl (by decide), byte 3 a.type.toByte rfl (by decide),
    byte 5 a.qos.level.toByte rfl (by decide), byte 6 a.flags rfl (by decide),
    byte 7 a.serializerId rfl (by decide),
    @frame_field16 a now t 8 a.sourceId (by decide) rfl,
    @frame_field16 a now t 10 a.destId (by decide) rfl,
    @frame_field16 a now t 12 (UInt16.ofNat a.topic.length) (by decide) rfl,
    @frame_field32 a now t 14 a.sequenceId (by decide) rfl,
    @frame_field32 a now t 18 a.correlationId (by decide) rfl,
    @frame_field32 a now t 22 (UInt32.ofNat a.payload.length) (by decide) rfl,
    UInt16.ofNat_toNat, UInt32.ofNat_toNat]

/-- Decoding an encoded message returns its fields, topic and payload, and ignores
whatever follows the frame. -/
theorem decode_frame (sz : SizeT) :
    decode sz (frameBytes a now ++ t) =
      { valid := true, header := encodedHeader a now, topic := a.topic, payload := a.payload } := by
  have hsmall : frameLength (frameBytes a now ++ t) < sz.modulus := by
    rw [frame_frameLength now t henc]
    exact SizeT.lt_modulus (frame_length_lt now henc) sz
  have htopic : slice (frameBytes a now ++ t) (bodyPos (frameBytes a now ++ t)) a.topic.length =
      a.topic := by
    have hslice := slice_append_middle (frontBytes a now ++ checksumBytes a (checksumOf a now))
      a.topic (a.payload ++ t)
    rw [List.length_append, ← frame_bodyPos a now t] at hslice
    simpa only [frame_eq_front, List.append_assoc] using hslice
  have hpayload : slice (frameBytes a now ++ t)
      (bodyPos (frameBytes a now ++ t) + a.topic.length) a.payload.length = a.payload := by
    have hslice := slice_append_middle
      (frontBytes a now ++ checksumBytes a (checksumOf a now) ++ a.topic) a.payload t
    rw [List.length_append, List.length_append, ← frame_bodyPos a now t] at hslice
    simpa only [frame_eq_front, List.append_assoc] using hslice
  rw [decode_of_wellFormed (frame_wellFormed now t henc) hsmall, accepted, frame_headerFields,
    frame_topicLength now t henc, frame_payloadLength now t henc, htopic, hpayload]

end Frame

/-- Decoding an encoded message without anything after it. -/
theorem decode_encode {a : EncodeArgs} (henc : Encodable a) (stamp : UInt64) (sz : SizeT) :
    decode sz (encode a stamp) =
      { valid := true, header := encodedHeader a stamp
        topic := a.topic, payload := a.payload } := by
  have h := decode_frame stamp [] henc sz
  rw [List.append_nil] at h
  rw [encode_eq, if_pos henc, h]

theorem encode_length {a : EncodeArgs} (h : Encodable a) (stamp : UInt64) :
    (encode a stamp).length =
      26 + (if isDataMsg a.type then 8 else 0) + (if a.withCrc then 4 else 0) +
        a.topic.length + a.payload.length := by
  rw [encode_eq, if_pos h, frameBytes, List.length_append, frontBytes_length, List.length_append,
    checksumBytes_length, List.length_append]
  omega

theorem encodable_of_valid {a : EncodeArgs} {stamp : UInt64} {sz : SizeT}
    (h : (decode sz (encode a stamp)).valid = true) : Encodable a := by
  by_contra henc
  rw [encode_eq, if_neg henc] at h
  exact absurd h (by cases sz <;> decide)

theorem encodedHeader_type (a : EncodeArgs) (stamp : UInt64) :
    MessageType.ofByte (encodedHeader a stamp).msgType = a.type :=
  MessageType.ofByte_toByte a.type

theorem encodedHeader_level (a : EncodeArgs) (stamp : UInt64) :
    QoSLevel.ofByte (encodedHeader a stamp).qosLevel = a.qos.level :=
  QoSLevel.ofByte_toByte a.qos.level

theorem isDataMsg_iff (t : MessageType) :
    isDataMsg t = true ↔ t = .publish ∨ t = .request ∨ t = .reply := by
  simp only [isDataMsg, Bool.or_eq_true, beq_iff_eq, or_assoc]

/-- Wire round trip, for every message whose topic and payload fit. -/
theorem decode_encode_append (sz : SizeT) (a : EncodeArgs) (now : UInt64) (t : Bytes)
    (topic_le : a.topic.length ≤ 65535) (payload_le : a.payload.length ≤ 64 * 1024 * 1024) :
    (decode sz (encode a now ++ t)).valid = true ∧
      MessageType.ofByte (decode sz (encode a now ++ t)).header.msgType = a.type ∧
      QoSLevel.ofByte (decode sz (encode a now ++ t)).header.qosLevel = a.qos.level ∧
      (decode sz (encode a now ++ t)).header.flags = a.flags ∧
      (decode sz (encode a now ++ t)).header.serializerId = a.serializerId ∧
      (decode sz (encode a now ++ t)).header.sourceId = a.sourceId ∧
      (decode sz (encode a now ++ t)).header.destId = a.destId ∧
      (decode sz (encode a now ++ t)).header.sequenceId = a.sequenceId ∧
      (decode sz (encode a now ++ t)).header.correlationId = a.correlationId ∧
      (decode sz (encode a now ++ t)).topic = a.topic ∧
      (decode sz (encode a now ++ t)).payload = a.payload ∧
      (decode sz (encode a now ++ t)).header.timestamp =
        if a.type = .publish ∨ a.type = .request ∨ a.type = .reply then now else 0 := by
  have henc : Encodable a := ⟨topic_le, payload_le⟩
  have hdata : (if isDataMsg a.type = true then now else 0) =
      if a.type = .publish ∨ a.type = .request ∨ a.type = .reply then now else 0 := by
    simp only [isDataMsg_iff]
  rw [encode_eq, if_pos henc, decode_frame now t henc sz]
  simp only [encodedHeader, MessageType.ofByte_toByte, QoSLevel.ofByte_toByte, hdata, and_self]

/-- The hypotheses hold for a published temperature with one stray byte behind it. -/
theorem decode_encode_append_publish :
    (decode .bits64 (encode
      { type := .publish, sourceId := 0x1234, destId := 0x5678, topic := ascii ['s', '/', 't'],
        payload := [20, 1], qos := {}, sequenceId := 42 } 7 ++ [0xFF])).payload = [20, 1] :=
  (decode_encode_append .bits64 _ 7 [0xFF] (by decide) (by decide)).2.2.2.2.2.2.2.2.2.2.1

/-! ### Frames that are cut off -/

theorem slice_take {data : Bytes} {start len n : Nat} (h : start + len ≤ n) :
    slice (data.take n) start len = slice data start len := by
  rw [slice, slice, List.drop_take, List.take_take, Nat.min_eq_left (by omega)]

theorem getD_take {data : Bytes} {i n : Nat} (h : i < n) :
    (data.take n).getD i 0 = data.getD i 0 := by
  rw [List.getD_eq_getElem?_getD, List.getD_eq_getElem?_getD, List.getElem?_take_of_lt h]

theorem frameLength_take {data : Bytes} {n : Nat} (h : 26 ≤ n) :
    frameLength (data.take n) = frameLength data := by
  have hflags : (data.take n).getD 4 0 = data.getD 4 0 := getD_take (by omega)
  have hts : tsFlag (data.take n) = tsFlag data := by rw [tsFlag, tsFlag, hflags]
  have hcrc : crcFlag (data.take n) = crcFlag data := by rw [crcFlag, crcFlag, hflags]
  simp only [frameLength, topicLength, payloadLength, field, hts, hcrc,
    slice_take (show 12 + 2 ≤ n by omega), slice_take (show 22 + 4 ≤ n by omega)]

/-- Of an encoded message, only the whole decodes. -/
theorem take_encode_of_valid {a : EncodeArgs} {stamp : UInt64} {sz : SizeT} {n : Nat}
    (hn : n < 2 ^ 32) (hvalid : (decode sz ((encode a stamp).take n)).valid = true) :
    (encode a stamp).take n = encode a stamp := by
  have hshort : ((encode a stamp).take n).length ≤ n := List.length_take_le _ _
  have hwf := wellFormed_of_valid (Nat.lt_of_le_of_lt hshort (SizeT.lt_modulus hn sz)) hvalid
  have hlength := hwf.length
  rw [frameLength_take (Nat.le_trans hwf.base hshort)] at hlength
  apply List.take_of_length_le
  by_cases henc : Encodable a
  · have hframe := frame_frameLength stamp [] henc
    rw [List.append_nil] at hframe
    rw [encode_eq, if_pos henc] at hlength ⊢
    rw [hframe, List.length_take] at hlength
    omega
  · rw [encode_eq, if_neg henc]
    exact Nat.zero_le n

/-! ### Canonical frames -/

section Canonical

variable {data : Bytes}

/-- Adjacent slices join. -/
theorem slice_add (data : Bytes) (start m n : Nat) :
    slice data start (m + n) = slice data start m ++ slice data (start + m) n := by
  rw [slice, List.take_add, List.drop_drop]
  rfl

theorem slice_all (data : Bytes) : slice data 0 data.length = data := by
  rw [slice, List.drop_zero, List.take_length]

/-- A field written from its own number is the slice it was read from. -/
theorem bytes_field {start len : Nat} (h : start + len ≤ data.length) :
    LittleEndian.bytes len (field data start len) = slice data start len := by
  have hvalue := LittleEndian.bytes_value (slice data start len)
  rwa [slice_length h] at hvalue

theorem bytes16_field {start : Nat} (h : start + 2 ≤ data.length) :
    bytes16 (UInt16.ofNat (field data start 2)) = slice data start 2 := by
  have hlt : field data start 2 < 2 ^ 16 := field_lt h
  rw [bytes16_eq, UInt16.toNat_ofNat_of_lt' hlt, bytes_field h]

theorem bytes32_field {start : Nat} (h : start + 4 ≤ data.length) :
    bytes32 (UInt32.ofNat (field data start 4)) = slice data start 4 := by
  have hlt : field data start 4 < 2 ^ 32 := field_lt h
  rw [bytes32_eq, UInt32.toNat_ofNat_of_lt' hlt, bytes_field h]

theorem bytes64_field {start : Nat} (h : start + 8 ≤ data.length) :
    bytes64 (UInt64.ofNat (field data start 8)) = slice data start 8 := by
  have hlt : field data start 8 < 2 ^ 64 := field_lt h
  rw [bytes64_eq, UInt64.toNat_ofNat_of_lt' hlt, bytes_field h]

/-- The frames that an encoder can have produced: nothing behind the frame, no
undefined header flag, and a timestamp exactly on the data messages. -/
structure Canonical (data : Bytes) : Prop where
  length : data.length = frameLength data
  payload : payloadLength data ≤ 64 * 1024 * 1024
  flags : data.getD 4 0 &&& ~~~ (hasTs ||| hasCrc) = 0
  timestamp : tsFlag data = true ↔ MessageType.ofByte (data.getD 3 0) = .publish ∨
    MessageType.ofByte (data.getD 3 0) = .request ∨ MessageType.ofByte (data.getD 3 0) = .reply

theorem Canonical.isDataMsg_eq (canonical : Canonical data) :
    isDataMsg (MessageType.ofByte (data.getD 3 0)) = tsFlag data := by
  rw [Bool.eq_iff_iff, isDataMsg_iff, canonical.timestamp]

/-- The encoder arguments that a decoded frame stands for. -/
def reencodeArgs (r : DecodeResult) (withCrc : Bool) : EncodeArgs where
  type := MessageType.ofByte r.header.msgType
  sourceId := r.header.sourceId
  destId := r.header.destId
  topic := r.topic
  payload := r.payload
  qos := { level := QoSLevel.ofByte r.header.qosLevel }
  sequenceId := r.header.sequenceId
  correlationId := r.header.correlationId
  flags := r.header.flags
  serializerId := r.header.serializerId
  withCrc := withCrc

/-- Without undefined bits the flag byte is determined by the two optional fields. -/
theorem hdrFlags_of_canonical (f : UInt8) (h : f &&& ~~~ (hasTs ||| hasCrc) = 0) :
    hdrFlags (decide (f &&& hasTs ≠ 0)) (decide (f &&& hasCrc ≠ 0)) = f := by
  have all : ∀ x : Fin 256, UInt8.ofFin x &&& ~~~ (hasTs ||| hasCrc) = 0 →
      hdrFlags (decide (UInt8.ofFin x &&& hasTs ≠ 0)) (decide (UInt8.ofFin x &&& hasCrc ≠ 0)) =
        UInt8.ofFin x := by decide +kernel
  exact all f.toFin h

variable (h : WellFormed data) (canonical : Canonical data)
include h canonical

theorem reencode_baseBytes :
    baseBytes (reencodeArgs (accepted data) (crcFlag data)) = slice data 0 26 := by
  have base := h.base
  have hbody : bodyPos data + topicLength data + payloadLength data ≤ data.length := by
    have := h.length
    rwa [frameLength_eq] at this
  have htopic : UInt16.ofNat (slice data (bodyPos data) (topicLength data)).length =
      UInt16.ofNat (field data 12 2) := by
    rw [slice_length (by omega)]
    rfl
  have hpayload : UInt32.ofNat (slice data (bodyPos data + topicLength data)
      (payloadLength data)).length = UInt32.ofNat (field data 22 4) := by
    rw [slice_length (by omega)]
    rfl
  have hmagic : bytes16 magic = slice data 0 2 := by
    rw [← bytes16_field (show 0 + 2 ≤ data.length by omega), h.magic]
    rfl
  have hflags : hdrFlags (isDataMsg (MessageType.ofByte (data.getD 3 0))) (crcFlag data) =
      data.getD 4 0 := by
    rw [canonical.isDataMsg_eq]
    exact hdrFlags_of_canonical _ canonical.flags
  have hversion : version = data.getD 2 0 := h.version.symm
  have hsix : slice data 2 6 = [data.getD 2 0, data.getD 3 0, data.getD 4 0, data.getD 5 0,
      data.getD 6 0, data.getD 7 0] := by
    rw [slice_cons 5 (by omega), slice_cons 4 (by omega), slice_cons 3 (by omega),
      slice_cons 2 (by omega), slice_cons 1 (by omega), slice_cons 0 (by omega), slice_zero]
  simp only [baseBytes, reencodeArgs, accepted, headerFields, MessageType.toByte_ofByte,
    QoSLevel.toByte_ofByte, htopic, hpayload, hmagic, hflags, hversion,
    bytes16_field (show 8 + 2 ≤ data.length by omega),
    bytes16_field (show 10 + 2 ≤ data.length by omega),
    bytes16_field (show 12 + 2 ≤ data.length by omega),
    bytes32_field (show 14 + 4 ≤ data.length by omega),
    bytes32_field (show 18 + 4 ≤ data.length by omega),
    bytes32_field (show 22 + 4 ≤ data.length by omega)]
  rw [← hsix, show (26 : Nat) = 2 + 6 + 2 + 2 + 2 + 4 + 4 + 4 from rfl]
  simp only [slice_add]

theorem reencode_frontBytes :
    frontBytes (reencodeArgs (accepted data) (crcFlag data)) (headerFields data).timestamp =
      slice data 0 (checksumPos data) := by
  have room : checksumPos data ≤ data.length := by
    have := h.length
    rw [frameLength_eq, bodyPos] at this
    omega
  have hstamp : timestampBytes (reencodeArgs (accepted data) (crcFlag data))
      (headerFields data).timestamp = slice data 26 (if tsFlag data then 8 else 0) := by
    have hdata : isDataMsg (reencodeArgs (accepted data) (crcFlag data)).type = tsFlag data :=
      canonical.isDataMsg_eq
    rw [timestampBytes, hdata]
    cases hts : tsFlag data with
    | false => simp
    | true =>
        simp only [checksumPos, hts, if_true] at room
        simp only [headerFields, hts, if_true, bytes64_field room]
  rw [frontBytes, reencode_baseBytes h canonical, hstamp, checksumPos, slice_add]

theorem reencode_checksumOf (hcrc : crcFlag data = true) :
    checksumOf (reencodeArgs (accepted data) (crcFlag data)) (headerFields data).timestamp =
      crc32 (protectedBytes data) := by
  have hlen := h.length
  have hbody : bodyPos data = checksumPos data + 4 := by
    rw [bodyPos, hcrc]
    rfl
  have hpos : 26 ≤ checksumPos data := by
    unfold checksumPos
    omega
  rw [frameLength_eq, hbody] at hlen
  have hfront : (slice data 0 (checksumPos data)).drop 4 =
      slice data 4 (checksumPos data - 4) := by
    rw [slice, slice, List.drop_zero, List.drop_take]
  have htail : frameLength data - (checksumPos data + 4) =
      topicLength data + payloadLength data := by
    rw [frameLength_eq, hbody]
    omega
  rw [checksumOf, reencode_frontBytes h canonical, hfront, protectedBytes, htail, slice_add,
    ← hbody]
  rfl

theorem reencode_checksumBytes :
    checksumBytes (reencodeArgs (accepted data) (crcFlag data))
      (checksumOf (reencodeArgs (accepted data) (crcFlag data)) (headerFields data).timestamp) =
      slice data (checksumPos data) (if crcFlag data then 4 else 0) := by
  cases hcrc : crcFlag data with
  | false => simp [checksumBytes, reencodeArgs]
  | true =>
      have hsum := reencode_checksumOf h canonical hcrc
      rw [hcrc] at hsum
      have hroom : checksumPos data + 4 ≤ data.length := by
        have hlength := h.length
        simp only [frameLength_eq, bodyPos, hcrc, if_true] at hlength
        omega
      have hstored : UInt32.ofNat (field data (checksumPos data) 4) =
          crc32 (protectedBytes data) := by
        rw [h.checksum hcrc, UInt32.ofNat_toNat]
      rw [checksumBytes, hsum, ← hstored, bytes32_field hroom]
      rfl

theorem reencode_encodable : Encodable (reencodeArgs (accepted data) (crcFlag data)) := by
  have hlength := h.length
  rw [frameLength_eq] at hlength
  refine ⟨?_, ?_⟩
  · have htopic : (slice data (bodyPos data) (topicLength data)).length = topicLength data :=
      slice_length (by omega)
    change (slice data _ (topicLength data)).length ≤ 65535
    have := topicLength_lt h.base
    omega
  · have hpayload : (slice data (bodyPos data + topicLength data) (payloadLength data)).length =
        payloadLength data := slice_length (by omega)
    change (slice data _ (payloadLength data)).length ≤ 64 * 1024 * 1024
    have := canonical.payload
    omega

end Canonical

/-- Encoding undoes decoding on the canonical frames. -/
theorem encode_decode (sz : SizeT) (data : Buffer sz)
    (hvalid : (decode sz data.bytes).valid = true) (canonical : Canonical data.bytes) :
    encode (reencodeArgs (decode sz data.bytes) (crcFlag data.bytes))
      (decode sz data.bytes).header.timestamp = data.bytes := by
  have h : WellFormed data.bytes := wellFormed_of_valid data.fits hvalid
  have hdecode : decode sz data.bytes = accepted data.bytes :=
    decode_of_wellFormed h (Nat.lt_of_le_of_lt h.length data.fits)
  rw [hdecode, encode_eq, if_pos (reencode_encodable h canonical)]
  change frameBytes _ (headerFields data.bytes).timestamp = _
  rw [frameBytes, reencode_frontBytes h canonical, reencode_checksumBytes h canonical]
  change slice data.bytes 0 (checksumPos data.bytes) ++ (_ ++
    (slice data.bytes (bodyPos data.bytes) (topicLength data.bytes) ++
      slice data.bytes (bodyPos data.bytes + topicLength data.bytes)
        (payloadLength data.bytes))) = _
  have hall : slice data.bytes 0 (checksumPos data.bytes + (if crcFlag data.bytes then 4 else 0) +
      topicLength data.bytes + payloadLength data.bytes) = data.bytes := by
    have hsum : checksumPos data.bytes + (if crcFlag data.bytes then 4 else 0) +
        topicLength data.bytes + payloadLength data.bytes = data.bytes.length :=
      canonical.length.symm
    rw [hsum, slice_all]
  rw [slice_add, slice_add, slice_add] at hall
  simpa only [Nat.zero_add, List.append_assoc, bodyPos] using hall

/-- A reliable publication with timestamp and checksum meets the hypotheses. -/
theorem encode_decode_publish :
    let data : Buffer .bits32 :=
      ⟨[0xDC, 0xEB, 2, 1, 3, 1, 0, 0, 7, 0, 0xFF, 0xFF, 1, 0, 5, 0, 0, 0, 0, 0, 0, 0, 1, 0, 0, 0,
        0xE8, 3, 0, 0, 0, 0, 0, 0, 245, 143, 31, 34, 0x74, 42], by decide⟩
    encode (reencodeArgs (decode .bits32 data.bytes) (crcFlag data.bytes))
      (decode .bits32 data.bytes).header.timestamp = data.bytes :=
  encode_decode .bits32 _ (by decide +kernel)
    ⟨by decide +kernel, by decide +kernel, by decide +kernel, by decide +kernel⟩

end EmbedMq.MessageCodec

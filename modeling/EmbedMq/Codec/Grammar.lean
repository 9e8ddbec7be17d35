import EmbedMq.Codec.Basic

/-!
# The frame grammar

An independent description of the frames that the decoder accepts. The fields
are read as numbers at their documented offsets, lengths are added without
wrap-around, and the checksum is `crc32` of the frame without its first four
bytes and without the checksum field. `WellFormed` collects the conditions.

The main result says that the decoder accepts exactly the well-formed buffers,
that it returns the bytes after the header as topic and payload, and that no
read of it, accepted or not, leaves the buffer.
-/

namespace EmbedMq.MessageCodec

open Tracked (read readRange Within within_pure within_read within_readRange)

/-- The `len` bytes that start at `start`. -/
def slice (data : Bytes) (start len : Nat) : Bytes := (data.drop start).take len

/-- The number stored little-endian in `len` bytes at `start`. -/
def field (data : Bytes) (start len : Nat) : Nat := LittleEndian.value (slice data start len)

def tsFlag (data : Bytes) : Bool := decide (data.getD 4 0 &&& hasTs ≠ 0)
def crcFlag (data : Bytes) : Bool := decide (data.getD 4 0 &&& hasCrc ≠ 0)
def checksumPos (data : Bytes) : Nat := 26 + (if tsFlag data then 8 else 0)
def bodyPos (data : Bytes) : Nat := checksumPos data + (if crcFlag data then 4 else 0)
def topicLength (data : Bytes) : Nat := field data 12 2
def payloadLength (data : Bytes) : Nat := field data 22 4

/-- Header, topic and payload together; a sum of natural numbers. -/
def frameLength (data : Bytes) : Nat :=
  26 + (if tsFlag data then 8 else 0) + (if crcFlag data then 4 else 0) +
    topicLength data + payloadLength data

/-- What the checksum protects: the frame from offset 4 on, without the checksum. -/
def protectedBytes (data : Bytes) : Bytes :=
  slice data 4 (checksumPos data - 4) ++
    slice data (checksumPos data + 4) (frameLength data - (checksumPos data + 4))

/-- The buffers that hold a frame at their front. -/
structure WellFormed (data : Bytes) : Prop where
  base : 26 ≤ data.length
  magic : field data 0 2 = 0xEBDC
  version : data.getD 2 0 = 2
  length : frameLength data ≤ data.length
  checksum : crcFlag data = true →
    field data (checksumPos data) 4 = (crc32 (protectedBytes data)).toNat

instance (data : Bytes) : Decidable (WellFormed data) :=
  decidable_of_iff (26 ≤ data.length ∧ field data 0 2 = 0xEBDC ∧ data.getD 2 0 = 2 ∧
      frameLength data ≤ data.length ∧ (crcFlag data = true →
        field data (checksumPos data) 4 = (crc32 (protectedBytes data)).toNat))
    ⟨fun ⟨base, magic, version, length, checksum⟩ => ⟨base, magic, version, length, checksum⟩,
      fun h => ⟨h.base, h.magic, h.version, h.length, h.checksum⟩⟩

/-- The header fields at their offsets. -/
def headerFields (data : Bytes) : WireHeader where
  magic := MessageCodec.magic
  version := data.getD 2 0
  msgType := data.getD 3 0
  qosLevel := data.getD 5 0
  flags := data.getD 6 0
  serializerId := data.getD 7 0
  sourceId := UInt16.ofNat (field data 8 2)
  destId := UInt16.ofNat (field data 10 2)
  topicLen := UInt16.ofNat (field data 12 2)
  sequenceId := UInt32.ofNat (field data 14 4)
  correlationId := UInt32.ofNat (field data 18 4)
  payloadLen := UInt32.ofNat (field data 22 4)
  timestamp := if tsFlag data then UInt64.ofNat (field data 26 8) else 0
  checksum := if crcFlag data then UInt32.ofNat (field data (checksumPos data) 4) else 0

/-! ### Fields and slices -/

theorem slice_length {data : Bytes} {start len : Nat} (h : start + len ≤ data.length) :
    (slice data start len).length = len := by
  rw [slice, List.length_take, List.length_drop]
  omega

theorem slice_cons {data : Bytes} {start : Nat} (len : Nat) (h : start < data.length) :
    slice data start (len + 1) = data.getD start 0 :: slice data (start + 1) len := by
  rw [slice, List.drop_eq_getElem_cons h, List.take_succ_cons, List.getD_eq_getElem _ _ h]
  rfl

@[simp] theorem slice_zero (data : Bytes) (start : Nat) : slice data start 0 = [] := by
  simp [slice]

theorem field_lt {data : Bytes} {start len : Nat} (h : start + len ≤ data.length) :
    field data start len < 256 ^ len := by
  have hlt := LittleEndian.value_lt (slice data start len)
  rwa [slice_length h] at hlt

theorem getU16_value {data : Bytes} {p : Nat} (h : p + 2 ≤ data.length) :
    (getU16 data p).value = UInt16.ofNat (field data p 2) := by
  have hword : (getU16 data p).value.toNat = field data p 2 := by
    rw [field, slice_cons 1 (by omega), slice_cons 0 (by omega), slice_zero]
    exact LittleEndian.word16_toNat _ _
  rw [← hword, UInt16.ofNat_toNat]

theorem getU32_value {data : Bytes} {p : Nat} (h : p + 4 ≤ data.length) :
    (getU32 data p).value = UInt32.ofNat (field data p 4) := by
  have hword : (getU32 data p).value.toNat = field data p 4 := by
    rw [field, slice_cons 3 (by omega), slice_cons 2 (by omega), slice_cons 1 (by omega),
      slice_cons 0 (by omega), slice_zero]
    exact LittleEndian.word32_toNat _ _ _ _
  rw [← hword, UInt32.ofNat_toNat]

theorem getU64_value {data : Bytes} {p : Nat} (h : p + 8 ≤ data.length) :
    (getU64 data p).value = UInt64.ofNat (field data p 8) := by
  have hrange : (readRange data p 8).value = slice data p 8 := Tracked.readRange_value h
  have hword : (getU64 data p).value.toNat = field data p 8 := by
    change (LittleEndian.word64 (readRange data p 8).value).toNat = _
    rw [hrange, LittleEndian.word64_toNat (by rw [slice_length h]), field]
  rw [← hword, UInt64.ofNat_toNat]

theorem topicLength_lt {data : Bytes} (base : 26 ≤ data.length) :
    topicLength data < 2 ^ 16 :=
  @field_lt data 12 2 (by omega)

theorem payloadLength_lt {data : Bytes} (base : 26 ≤ data.length) :
    payloadLength data < 2 ^ 32 :=
  @field_lt data 22 4 (by omega)

theorem headerFields_topicLen {data : Bytes} (base : 26 ≤ data.length) :
    (headerFields data).topicLen.toNat = topicLength data :=
  UInt16.toNat_ofNat_of_lt' (topicLength_lt base)

theorem headerFields_payloadLen {data : Bytes} (base : 26 ≤ data.length) :
    (headerFields data).payloadLen.toNat = payloadLength data :=
  UInt32.toNat_ofNat_of_lt' (payloadLength_lt base)

/-! ### The stages of the decoder -/

/-- The header before the optional fields have been read. -/
def baseFields (data : Bytes) : WireHeader :=
  { headerFields data with timestamp := 0, checksum := 0 }

theorem decodeBase_value {data : Bytes} (base : 26 ≤ data.length) :
    (decodeBase data).value = (baseFields data, data.getD 4 0) := by
  simp only [decodeBase, Tracked.bind_value, Tracked.pure_value, Tracked.read_value,
    getU16_value (show 8 + 2 ≤ data.length by omega),
    getU16_value (show 10 + 2 ≤ data.length by omega),
    getU16_value (show 12 + 2 ≤ data.length by omega),
    getU32_value (show 14 + 4 ≤ data.length by omega),
    getU32_value (show 18 + 4 ≤ data.length by omega),
    getU32_value (show 22 + 4 ≤ data.length by omega)]
  rfl

theorem decodeTimestamp_value {data : Bytes} (h : WireHeader)
    (room : checksumPos data ≤ data.length) :
    (decodeTimestamp data (tsFlag data) h).value =
      { h with timestamp := if tsFlag data then UInt64.ofNat (field data 26 8)
                            else h.timestamp } := by
  unfold checksumPos at room
  cases hts : tsFlag data with
  | false => rfl
  | true =>
      rw [hts] at room
      have hvalue := getU64_value (show headerBaseSize + 8 ≤ data.length from room)
      simp only [decodeTimestamp, if_true, Tracked.bind_value, Tracked.pure_value, hvalue]
      rfl

theorem decodeChecksum_value {data : Bytes} (h : WireHeader)
    (room : bodyPos data ≤ data.length) :
    (decodeChecksum data (crcFlag data) (checksumPos data) h).value =
      { h with checksum := if crcFlag data then UInt32.ofNat (field data (checksumPos data) 4)
                           else h.checksum } := by
  unfold bodyPos at room
  cases hcrc : crcFlag data with
  | false => rfl
  | true =>
      rw [hcrc] at room
      have hvalue := getU32_value (show checksumPos data + 4 ≤ data.length from room)
      simp only [decodeChecksum, if_true, Tracked.bind_value, Tracked.pure_value, hvalue]

theorem frameCrc_value {data : Bytes} {pos stop : Nat} (hpos : 4 ≤ pos)
    (hroom : pos + 4 ≤ stop) (hstop : stop ≤ data.length) :
    (frameCrc data pos stop).value =
      crc32 (slice data 4 (pos - 4) ++ slice data (pos + 4) (stop - (pos + 4))) := by
  have hfront : (readRange data 4 (pos - 4)).value = slice data 4 (pos - 4) :=
    Tracked.readRange_value (by omega)
  have hback : (readRange data (pos + 4) (stop - (pos + 4))).value =
      slice data (pos + 4) (stop - (pos + 4)) := Tracked.readRange_value (by omega)
  simp only [frameCrc, Tracked.bind_value, Tracked.ite_value, Tracked.pure_value, hfront, hback,
    crc32, crc32Update_append]
  split
  · rfl
  · rw [show stop - (pos + 4) = 0 by omega, slice_zero, crc32Update_nil]

theorem decodeBody_value {data : Bytes} {hsz : Nat} {h : WireHeader}
    (hroom : hsz + h.topicLen.toNat + h.payloadLen.toNat ≤ data.length) :
    (decodeBody data hsz h).value =
      { valid := true, header := h, topic := slice data hsz h.topicLen.toNat,
        payload := slice data (hsz + h.topicLen.toNat) h.payloadLen.toNat } := by
  have htopic : (readRange data hsz h.topicLen.toNat).value = slice data hsz h.topicLen.toNat :=
    Tracked.readRange_value (by omega)
  have hpayload : (readRange data (hsz + h.topicLen.toNat) h.payloadLen.toNat).value =
      slice data (hsz + h.topicLen.toNat) h.payloadLen.toNat :=
    Tracked.readRange_value (by omega)
  simp only [decodeBody, Tracked.bind_value, Tracked.ite_value, Tracked.pure_value, htopic,
    hpayload]
  split
  · rfl
  · rw [show h.payloadLen.toNat = 0 by omega, slice_zero]

/-! ### What the decoder returns -/

/-- The result for an accepted buffer. -/
def accepted (data : Bytes) : DecodeResult where
  valid := true
  header := headerFields data
  topic := slice data (bodyPos data) (topicLength data)
  payload := slice data (bodyPos data + topicLength data) (payloadLength data)

theorem bodyPos_le (data : Bytes) : bodyPos data ≤ 38 := by
  unfold bodyPos checksumPos
  split <;> split <;> omega

theorem frameLength_eq (data : Bytes) :
    frameLength data = bodyPos data + topicLength data + payloadLength data := rfl

theorem frameLength_lt {data : Bytes} (base : 26 ≤ data.length) :
    frameLength data < 2 ^ 64 := by
  have htopic := topicLength_lt base
  have hpayload := payloadLength_lt base
  have hbody := bodyPos_le data
  rw [frameLength_eq]
  omega

private theorem magic_iff {data : Bytes} (base : 26 ≤ data.length) :
    (getU16 data 0).value = magic ↔ field data 0 2 = 0xEBDC := by
  rw [getU16_value (by omega)]
  have hlt : field data 0 2 < 2 ^ 16 := @field_lt data 0 2 (by omega)
  rw [← UInt16.toNat_inj, UInt16.toNat_ofNat_of_lt' hlt]
  rfl

/-- The stages after the magic and version checks. -/
private theorem decodeRest_value {sz : SizeT} {data : Bytes} (base : 26 ≤ data.length)
    (room : bodyPos data ≤ data.length) :
    (decodeRest sz data (tsFlag data) (crcFlag data) (baseFields data)).value =
      if data.length < frameLength data then { header := headerFields data }
      else if crcFlag data = true ∧
          (frameCrc data (checksumPos data) (frameLength data % sz.modulus)).value ≠
            (headerFields data).checksum then { header := headerFields data }
      else (decodeBody data (bodyPos data) (headerFields data)).value := by
  have hsmall : bodyPos data % sz.modulus = bodyPos data :=
    Nat.mod_eq_of_lt (SizeT.lt_modulus (Nat.lt_of_le_of_lt (bodyPos_le data) (by decide)) sz)
  have hts : (decodeTimestamp data (tsFlag data) (baseFields data)).value =
      { headerFields data with checksum := 0 } :=
    decodeTimestamp_value _ (Nat.le_trans (Nat.le_add_right _ _) room)
  have hcrc : (decodeChecksum data (crcFlag data) (checksumPos data)
      { headerFields data with checksum := 0 }).value = headerFields data :=
    decodeChecksum_value _ room
  have hlen : (bodyPos data + (headerFields data).topicLen.toNat +
      (headerFields data).payloadLen.toNat) % 2 ^ 64 = frameLength data := by
    rw [headerFields_topicLen base, headerFields_payloadLen base, ← frameLength_eq,
      Nat.mod_eq_of_lt (frameLength_lt base)]
  have hsz : headerSize (tsFlag data) (crcFlag data) = bodyPos data := rfl
  have hpos : headerBaseSize + (if tsFlag data = true then 8 else 0) = checksumPos data := rfl
  simp only [decodeRest, Tracked.bind_value, Tracked.ite_value, Tracked.pure_value, hsz, hpos,
    Nat.not_lt.mpr room, if_false, hts, hcrc, hlen, hsmall]
  cases crcFlag data <;> simp

/-- A buffer too short for its optional fields is too short for its frame. -/
private theorem decodeRest_short {sz : SizeT} {data : Bytes} (h : WireHeader)
    (short : data.length < bodyPos data) :
    (decodeRest sz data (tsFlag data) (crcFlag data) h).value = { header := h } := by
  have hsz : headerSize (tsFlag data) (crcFlag data) = bodyPos data := rfl
  simp only [decodeRest, Tracked.pure_value, hsz, short, if_true]

/-- The early returns of `decode`, as one conditional. -/
theorem decode_eq (sz : SizeT) (data : Bytes) :
    decode sz data =
      if 26 ≤ data.length ∧ field data 0 2 = 0xEBDC ∧ data.getD 2 0 = 2 then
        (decodeRest sz data (tsFlag data) (crcFlag data) (baseFields data)).value
      else {} := by
  simp only [decode, decodeTracked, Tracked.ite_value, Tracked.bind_value, Tracked.pure_value,
    Tracked.read_value]
  by_cases base : 26 ≤ data.length
  · have hbase : ¬ data.length < headerBaseSize := Nat.not_lt.mpr base
    simp only [hbase, if_false, ne_eq, magic_iff base, base, true_and]
    by_cases hmagic : field data 0 2 = 0xEBDC
    · by_cases hversion : data.getD 2 0 = 2
      · simp only [hmagic, hversion, version, not_true_eq_false, if_false, and_self, if_true,
          Tracked.bind_value, decodeBase_value base]
        rfl
      · simp only [hmagic, hversion, version, not_false_eq_true, not_true_eq_false, if_true,
          if_false, and_false, Tracked.pure_value]
    · simp only [hmagic, not_false_eq_true, if_true, false_and, if_false]
  · have hbase : data.length < headerBaseSize := Nat.lt_of_not_le base
    simp only [hbase, if_true, base, false_and, if_false]

theorem decode_of_wellFormed {sz : SizeT} {data : Bytes} (h : WellFormed data)
    (fits : frameLength data < sz.modulus) : decode sz data = accepted data := by
  have hbody : bodyPos data ≤ frameLength data := by
    rw [frameLength_eq]
    omega
  have room : bodyPos data ≤ data.length := Nat.le_trans hbody h.length
  rw [decode_eq, if_pos ⟨h.base, h.magic, h.version⟩, decodeRest_value h.base room,
    if_neg (Nat.not_lt.mpr h.length), Nat.mod_eq_of_lt fits, if_neg]
  · rw [decodeBody_value (by
      rw [headerFields_topicLen h.base, headerFields_payloadLen h.base, ← frameLength_eq]
      exact h.length), headerFields_topicLen h.base, headerFields_payloadLen h.base]
    rfl
  · rintro ⟨hcrc, hne⟩
    have hpos : checksumPos data + 4 ≤ frameLength data := by
      simpa only [bodyPos, hcrc, if_true] using hbody
    apply hne
    rw [frameCrc_value (by unfold checksumPos; omega) hpos h.length]
    simp only [headerFields, hcrc, if_true, h.checksum hcrc, UInt32.ofNat_toNat]
    rfl

theorem wellFormed_of_valid {sz : SizeT} {data : Bytes} (fits : data.length < sz.modulus)
    (hvalid : (decode sz data).valid = true) : WellFormed data := by
  rw [decode_eq] at hvalid
  split at hvalid
  case isFalse => simp at hvalid
  case isTrue hstart =>
    obtain ⟨base, hmagic, hversion⟩ := hstart
    by_cases room : bodyPos data ≤ data.length
    · rw [decodeRest_value base room] at hvalid
      split at hvalid
      case isTrue => simp at hvalid
      case isFalse hlength =>
        have length := Nat.not_lt.mp hlength
        rw [Nat.mod_eq_of_lt (Nat.lt_of_le_of_lt length fits)] at hvalid
        split at hvalid
        case isTrue => simp at hvalid
        case isFalse hsum =>
          refine ⟨base, hmagic, hversion, length, ?_⟩
          intro hcrc
          have hpos : checksumPos data + 4 ≤ frameLength data := by
            have hbody : bodyPos data ≤ frameLength data := by
              rw [frameLength_eq]
              omega
            simpa only [bodyPos, hcrc, if_true] using hbody
          have hequal : (frameCrc data (checksumPos data) (frameLength data)).value =
              (headerFields data).checksum := by
            by_contra hne
            exact hsum ⟨hcrc, hne⟩
          rw [frameCrc_value (by unfold checksumPos; omega) hpos length] at hequal
          have hlt : field data (checksumPos data) 4 < 2 ^ 32 :=
            @field_lt data _ 4 (Nat.le_trans hpos length)
          have hstored : (headerFields data).checksum.toNat = field data (checksumPos data) 4 := by
            simp only [headerFields, hcrc, if_true]
            exact UInt32.toNat_ofNat_of_lt' hlt
          rw [← hstored, ← hequal]
          rfl
    · rw [decodeRest_short _ (Nat.lt_of_not_le room)] at hvalid
      simp at hvalid

/-! ### Reads stay inside the buffer -/

section Reads

variable {n : Nat} (data : Bytes)

theorem within_getU16 {p : Nat} (h : p + 2 ≤ n) : Within n (getU16 data p) :=
  (within_read data (by omega)).bind ((within_read data (by omega)).bind (within_pure n _))

theorem within_getU32 {p : Nat} (h : p + 4 ≤ n) : Within n (getU32 data p) :=
  (within_read data (by omega)).bind ((within_read data (by omega)).bind
    ((within_read data (by omega)).bind ((within_read data (by omega)).bind (within_pure n _))))

theorem within_getU64 {p : Nat} (h : p + 8 ≤ n) : Within n (getU64 data p) :=
  (within_readRange data h).bind (within_pure n _)

theorem within_decodeBase (base : 26 ≤ n) : Within n (decodeBase data) := by
  unfold decodeBase
  refine (within_read data (by omega)).bind ?_
  refine (within_read data (by omega)).bind ?_
  refine (within_read data (by omega)).bind ?_
  refine (within_read data (by omega)).bind ?_
  refine (within_read data (by omega)).bind ?_
  refine (within_read data (by omega)).bind ?_
  refine (within_getU16 data (by omega)).bind ?_
  refine (within_getU16 data (by omega)).bind ?_
  refine (within_getU16 data (by omega)).bind ?_
  refine (within_getU32 data (by omega)).bind ?_
  refine (within_getU32 data (by omega)).bind ?_
  exact (within_getU32 data (by omega)).bind (within_pure n _)

theorem within_decodeTimestamp (present : Bool) (h : WireHeader)
    (room : headerBaseSize + (if present then 8 else 0) ≤ n) :
    Within n (decodeTimestamp data present h) := by
  cases present with
  | false => exact within_pure n h
  | true => exact (within_getU64 data room).bind (within_pure n _)

theorem within_decodeChecksum (present : Bool) (pos : Nat) (h : WireHeader)
    (room : pos + (if present then 4 else 0) ≤ n) :
    Within n (decodeChecksum data present pos h) := by
  cases present with
  | false => exact within_pure n h
  | true => exact (within_getU32 data room).bind (within_pure n _)

theorem within_frameCrc {pos stop : Nat} (hpos : 4 ≤ pos) (room : pos ≤ n) (hstop : stop ≤ n) :
    Within n (frameCrc data pos stop) := by
  refine (within_readRange data (by omega)).bind ?_
  refine Within.ite (fun hafter => ?_) (fun _ => within_pure n _)
  exact (within_readRange data (by omega)).bind (within_pure n _)

theorem within_decodeBody {hsz : Nat} {h : WireHeader}
    (room : hsz + h.topicLen.toNat + h.payloadLen.toNat ≤ n) :
    Within n (decodeBody data hsz h) := by
  refine (within_readRange data (by omega)).bind ?_
  refine Within.ite (fun _ => ?_) (fun _ => within_pure n _)
  exact (within_readRange data (by omega)).bind (within_pure n _)

/-- Each slice is taken only after the length check that covers it, so the bound
holds for every flag combination and every announced length. -/
theorem within_decodeRest (sz : SizeT) (withTs withCrc : Bool) (h : WireHeader) :
    Within data.length (decodeRest sz data withTs withCrc h) := by
  have hsize : headerSize withTs withCrc =
      headerBaseSize + (if withTs then 8 else 0) + (if withCrc then 4 else 0) := rfl
  refine Within.ite (fun _ => within_pure _ _) (fun hroom => ?_)
  have room := Nat.not_lt.mp hroom
  refine (within_decodeTimestamp data withTs h (by omega)).bind ?_
  refine (within_decodeChecksum data withCrc _ _ (by omega)).bind ?_
  generalize hh : (decodeChecksum data withCrc _ _).value = full
  have hnowrap : (headerSize withTs withCrc + full.topicLen.toNat + full.payloadLen.toNat) %
      2 ^ 64 = headerSize withTs withCrc + full.topicLen.toNat + full.payloadLen.toNat := by
    have htopic := full.topicLen.toNat_lt
    have hpayload := full.payloadLen.toNat_lt
    have hheader : headerSize withTs withCrc ≤ 38 := by
      rw [hsize, headerBaseSize]
      split <;> split <;> omega
    exact Nat.mod_eq_of_lt (by omega)
  simp only [hnowrap]
  refine Within.ite (fun _ => within_pure _ _) (fun hlength => ?_)
  have length := Nat.not_lt.mp hlength
  have hnarrow : ∀ k, k % sz.modulus ≤ k := fun k => Nat.mod_le k _
  have body : Within data.length (decodeBody data (headerSize withTs withCrc % sz.modulus) full) :=
    within_decodeBody data (by have := hnarrow (headerSize withTs withCrc); omega)
  refine Within.ite (fun _ => ?_) (fun _ => body)
  refine (within_frameCrc data (by rw [headerBaseSize]; omega) (by omega)
    (Nat.le_trans (hnarrow _) length)).bind ?_
  exact Within.ite (fun _ => within_pure _ _) (fun _ => body)

theorem within_decodeTracked (sz : SizeT) : Within data.length (decodeTracked sz data) := by
  refine Within.ite (fun _ => within_pure _ _) (fun hbase => ?_)
  have base : 26 ≤ data.length := Nat.not_lt.mp hbase
  refine (within_getU16 data (by omega)).bind ?_
  refine Within.ite (fun _ => within_pure _ _) (fun _ => ?_)
  refine (within_read data (by omega)).bind ?_
  refine Within.ite (fun _ => within_pure _ _) (fun _ => ?_)
  exact (within_decodeBase data base).bind (within_decodeRest data sz _ _ _)

end Reads

theorem decode_valid_iff {sz : SizeT} (buf : Buffer sz) :
    (decode sz buf.bytes).valid = true ↔ WellFormed buf.bytes := by
  refine ⟨wellFormed_of_valid buf.fits, fun h => ?_⟩
  rw [decode_of_wellFormed h (Nat.lt_of_le_of_lt h.length buf.fits)]
  rfl

/-- The decoder accepts exactly the well-formed buffers and reads nothing outside
them; topic and payload are the announced numbers of bytes after the header. -/
theorem decode_exact (sz : SizeT) (buf : Buffer sz) :
    (∀ i ∈ (decodeTracked sz buf.bytes).reads, i < buf.bytes.length) ∧
      ((decode sz buf.bytes).valid = true ↔ WellFormed buf.bytes) ∧
      ((decode sz buf.bytes).valid = true →
        (decode sz buf.bytes).topic =
          slice buf.bytes (bodyPos buf.bytes) (topicLength buf.bytes) ∧
        (decode sz buf.bytes).payload =
          slice buf.bytes (bodyPos buf.bytes + topicLength buf.bytes)
            (payloadLength buf.bytes)) := by
  refine ⟨within_decodeTracked buf.bytes sz, decode_valid_iff buf, fun hvalid => ?_⟩
  have h := wellFormed_of_valid buf.fits hvalid
  rw [decode_of_wellFormed h (Nat.lt_of_le_of_lt h.length buf.fits)]
  exact ⟨rfl, rfl⟩

end EmbedMq.MessageCodec

import EmbedMq.Codec.RoundTrip

/-!
# Corruption of one byte

A frame with a checksum is changed at one offset, outside the two length fields.
The checksum covers the frame from offset 4 on, and its presence is announced by
a bit of the header flags, which lie at offset 4. So a changed message type is
not noticed, and a changed flag byte may switch the check off or move the field
that is compared; every other change is rejected. `Undetected` lists the accepted
changes, and the main result says that the list is complete.
-/

namespace EmbedMq.MessageCodec

/-! ### Slices of a changed buffer -/

section Set

variable {data : Bytes} {i p len : Nat} {v : UInt8}

theorem slice_set_outside (h : i < p ∨ p + len ≤ i) :
    slice (data.set i v) p len = slice data p len := by
  rw [slice, slice]
  obtain h | h := h
  · rw [List.drop_set_of_lt h]
  · rw [List.drop_set, if_neg (by omega), List.take_set_of_le (by omega)]

theorem slice_set_inside (h : p ≤ i) :
    slice (data.set i v) p len = (slice data p len).set (i - p) v := by
  rw [slice, slice, List.drop_set, if_neg (by omega), List.take_set]

theorem getD_set_ne {j : Nat} (h : i ≠ j) : (data.set i v).getD j 0 = data.getD j 0 := by
  rw [List.getD_eq_getElem?_getD, List.getD_eq_getElem?_getD, List.getElem?_set_ne h]

theorem getD_set_self (h : i < data.length) : (data.set i v).getD i 0 = v := by
  rw [List.getD_eq_getElem?_getD, List.getElem?_set_self h]
  rfl

theorem getD_slice (h : p ≤ i) (hi : i < p + len) :
    (slice data p len).getD (i - p) 0 = data.getD i 0 := by
  rw [slice, List.getD_eq_getElem?_getD, List.getElem?_take_of_lt (by omega),
    List.getElem?_drop, List.getD_eq_getElem?_getD, show p + (i - p) = i by omega]

end Set

/-- A list with one position set to another value, split at that position. -/
theorem set_split {m : Bytes} {j : Nat} (h : j < m.length) (v : UInt8) :
    m = m.take j ++ m.getD j 0 :: m.drop (j + 1) ∧
      m.set j v = m.take j ++ v :: m.drop (j + 1) := by
  constructor
  · rw [List.getD_eq_getElem _ _ h, ← List.drop_eq_getElem_cons h, List.take_append_drop]
  · exact List.set_eq_take_cons_drop v h

/-- The checksum notices a changed byte wherever the changed piece stands. -/
theorem crc32_set_ne (pre post : Bytes) {m : Bytes} {j : Nat} {v : UInt8} (h : j < m.length)
    (hv : v ≠ m.getD j 0) : crc32 (pre ++ (m.set j v ++ post)) ≠ crc32 (pre ++ (m ++ post)) := by
  obtain ⟨hm, hset⟩ := set_split h v
  have hne := crc32_ne_of_byte_ne (pre ++ m.take j) (m.drop (j + 1) ++ post) hv
  have hold : pre ++ (m ++ post) = pre ++ m.take j ++ m.getD j 0 :: (m.drop (j + 1) ++ post) := by
    conv_lhs => rw [hm]
    simp
  rw [hset, hold]
  simpa using hne

theorem value_set_ne {m : Bytes} {j : Nat} {v : UInt8} (h : j < m.length)
    (hv : v ≠ m.getD j 0) : LittleEndian.value (m.set j v) ≠ LittleEndian.value m := by
  intro hvalue
  have hsame : m.set j v = m :=
    LittleEndian.value_injective (by rw [List.length_set]) hvalue
  apply hv
  conv_rhs => rw [← hsame]
  exact (getD_set_self h).symm

/-! ### A changed frame -/

/-- The bytes that hold the two lengths of the body. -/
def lengthOffsets : List Nat := [12, 13, 22, 23, 24, 25]

section Changed

variable {data : Bytes} {i : Nat} {v : UInt8}

theorem field_set_outside {p len : Nat} (h : i < p ∨ p + len ≤ i) :
    field (data.set i v) p len = field data p len := by
  rw [field, slice_set_outside h, field]

theorem field_set_ne {p len : Nat} (hp : p ≤ i) (hi : i < p + len)
    (hlen : p + len ≤ data.length) (hv : v ≠ data.getD i 0) :
    field (data.set i v) p len ≠ field data p len := by
  rw [field, slice_set_inside hp, field]
  apply value_set_ne
  · rw [slice_length hlen]
    omega
  · rwa [getD_slice hp hi]

variable (outside : i ∉ lengthOffsets)
include outside

theorem topicLength_set : topicLength (data.set i v) = topicLength data := by
  simp only [lengthOffsets, List.mem_cons, List.not_mem_nil, or_false, not_or] at outside
  exact field_set_outside (by omega)

theorem payloadLength_set : payloadLength (data.set i v) = payloadLength data := by
  simp only [lengthOffsets, List.mem_cons, List.not_mem_nil, or_false, not_or] at outside
  exact field_set_outside (by omega)

/-- If the optional fields stay where they were, any change from offset 4 on breaks
the equation between the stored and the computed checksum. -/
theorem not_wellFormed_set_of_layout (h : WellFormed data) (hcrc : crcFlag data = true)
    (whole : data.length = frameLength data) (hi : i < data.length) (hv : v ≠ data.getD i 0)
    (hfour : 4 ≤ i) (hts' : tsFlag (data.set i v) = tsFlag data)
    (hcrc' : crcFlag (data.set i v) = true) : ¬ WellFormed (data.set i v) := by
  intro h'
  have hpos : checksumPos (data.set i v) = checksumPos data := by
    rw [checksumPos, checksumPos, hts']
  have hlen : frameLength (data.set i v) = frameLength data := by
    rw [frameLength, frameLength, hts', hcrc', hcrc, topicLength_set outside,
      payloadLength_set outside]
  have hbound : 26 ≤ checksumPos data ∧ checksumPos data + 4 ≤ frameLength data := by
    rw [frameLength_eq, bodyPos, hcrc, checksumPos]
    simp only [if_true]
    omega
  have hstored := h.checksum hcrc
  have hstored' := h'.checksum hcrc'
  rw [hpos] at hstored'
  have hprotected : protectedBytes (data.set i v) = slice (data.set i v) 4 (checksumPos data - 4) ++
      slice (data.set i v) (checksumPos data + 4)
        (frameLength data - (checksumPos data + 4)) := by
    rw [protectedBytes, hpos, hlen]
  rw [hprotected] at hstored'
  have hfrontLength : (slice data 4 (checksumPos data - 4)).length = checksumPos data - 4 :=
    slice_length (by omega)
  have hbackLength : (slice data (checksumPos data + 4)
      (frameLength data - (checksumPos data + 4))).length =
      frameLength data - (checksumPos data + 4) := slice_length (by omega)
  obtain hfront | hafter := Nat.lt_or_ge i (checksumPos data)
  · -- the change lies in the header, before the checksum
    rw [field_set_outside (Or.inl hfront), hstored, slice_set_inside hfour,
      slice_set_outside (Or.inl (by omega))] at hstored'
    have hne := crc32_set_ne [] (slice data (checksumPos data + 4)
        (frameLength data - (checksumPos data + 4)))
      (m := slice data 4 (checksumPos data - 4)) (j := i - 4) (v := v)
      (by rw [hfrontLength]; omega) (by rwa [getD_slice hfour (by omega)])
    exact hne (UInt32.toNat_inj.mp hstored').symm
  · obtain hfield | hback := Nat.lt_or_ge i (checksumPos data + 4)
    · -- the change lies in the checksum itself
      rw [slice_set_outside (Or.inr (by omega)), slice_set_outside (Or.inl hfield)] at hstored'
      exact field_set_ne hafter hfield (by omega) hv (hstored'.trans hstored.symm)
    · -- the change lies in the body
      rw [field_set_outside (Or.inr hback), hstored, slice_set_outside (Or.inr (by omega)),
        slice_set_inside hback] at hstored'
      have hne := crc32_set_ne (slice data 4 (checksumPos data - 4)) []
        (m := slice data (checksumPos data + 4) (frameLength data - (checksumPos data + 4)))
        (j := i - (checksumPos data + 4)) (v := v)
        (by rw [hbackLength]; omega) (by rwa [getD_slice hback (by omega)])
      rw [List.append_nil, List.append_nil] at hne
      exact hne (UInt32.toNat_inj.mp hstored').symm

end Changed

/-! ### The accepted changes -/

/-- The changes of one byte that the decoder does not notice. The message type is
outside the checksum. A flag byte without the checksum bit switches the check off,
as long as it does not announce a timestamp that the frame does not have. A flag
byte that hides the timestamp makes the low half of the timestamp the stored
checksum, and the check passes only if that number happens to be right. -/
def Undetected (a : EncodeArgs) (now : UInt64) (i : Nat) (v : UInt8) : Prop :=
  i = 3 ∨
    (i = 4 ∧ v &&& hasCrc = 0 ∧ (v &&& hasTs ≠ 0 → isDataMsg a.type = true)) ∨
    (i = 4 ∧ v &&& hasCrc ≠ 0 ∧ v &&& hasTs = 0 ∧ isDataMsg a.type = true ∧
      now.toNat % 2 ^ 32 = (crc32 (protectedBytes ((encode a now).set 4 v))).toNat)

instance (a : EncodeArgs) (now : UInt64) (i : Nat) (v : UInt8) :
    Decidable (Undetected a now i v) :=
  inferInstanceAs (Decidable (_ ∨ _ ∨ _))

section FlagByte

variable {data : Bytes} {v : UInt8}

theorem tsFlag_set (h : 4 < data.length) : tsFlag (data.set 4 v) = decide (v &&& hasTs ≠ 0) := by
  rw [tsFlag, getD_set_self h]

theorem crcFlag_set (h : 4 < data.length) :
    crcFlag (data.set 4 v) = decide (v &&& hasCrc ≠ 0) := by
  rw [crcFlag, getD_set_self h]

theorem frameLength_set_flags (h : 4 < data.length) :
    frameLength (data.set 4 v) = 26 + (if v &&& hasTs ≠ 0 then 8 else 0) +
      (if v &&& hasCrc ≠ 0 then 4 else 0) + topicLength data + payloadLength data := by
  rw [frameLength, tsFlag_set h, crcFlag_set h, topicLength_set (by decide),
    payloadLength_set (by decide)]
  simp only [decide_eq_true_eq]

/-- The conditions on magic and version do not look at the flag byte. -/
theorem wellFormed_set_flags (h : WellFormed data) :
    WellFormed (data.set 4 v) ↔ frameLength (data.set 4 v) ≤ data.length ∧
      (v &&& hasCrc ≠ 0 → field (data.set 4 v) (checksumPos (data.set 4 v)) 4 =
        (crc32 (protectedBytes (data.set 4 v))).toNat) := by
  have hfour : 4 < data.length := Nat.lt_of_lt_of_le (by decide) h.base
  constructor
  · intro h'
    refine ⟨?_, fun hcrc => h'.checksum ?_⟩
    · have hlen := h'.length
      rwa [List.length_set] at hlen
    · rw [crcFlag_set hfour, decide_eq_true hcrc]
  · rintro ⟨hlen, hsum⟩
    refine ⟨?_, ?_, ?_, ?_, fun hcrc => hsum ?_⟩
    · rw [List.length_set]
      exact h.base
    · rw [field_set_outside (Or.inr (by decide))]
      exact h.magic
    · rw [getD_set_ne (by decide)]
      exact h.version
    · rwa [List.length_set]
    · rw [crcFlag_set hfour] at hcrc
      exact of_decide_eq_true hcrc

end FlagByte

section Frame

variable {a : EncodeArgs} (now : UInt64) (henc : Encodable a) (hcrc : a.withCrc = true)
include henc

theorem frame_wellFormed_exact : WellFormed (frameBytes a now) := by
  have h := frame_wellFormed now [] henc
  rwa [List.append_nil] at h

theorem frame_frameLength_exact : frameLength (frameBytes a now) = (frameBytes a now).length := by
  have h := frame_frameLength now [] henc
  rwa [List.append_nil] at h

omit henc in
theorem frame_tsFlag_exact : tsFlag (frameBytes a now) = isDataMsg a.type := by
  have h := frame_tsFlag a now []
  rwa [List.append_nil] at h

omit henc in
theorem frame_crcFlag_exact : crcFlag (frameBytes a now) = a.withCrc := by
  have h := frame_crcFlag a now []
  rwa [List.append_nil] at h

theorem frame_four_lt : 4 < (frameBytes a now).length :=
  Nat.lt_of_lt_of_le (by decide) (frame_wellFormed_exact now henc).base

omit henc in
/-- Where a hidden timestamp begins, the decoder finds its low half. -/
theorem frame_hidden_timestamp (v : UInt8) (hdata : isDataMsg a.type = true) :
    field ((frameBytes a now).set 4 v) 26 4 = now.toNat % 2 ^ 32 := by
  have hcut : frameBytes a now = baseBytes a ++ ((bytes64 now).take 4 ++ ((bytes64 now).drop 4 ++
      (checksumBytes a (checksumOf a now) ++ (a.topic ++ a.payload)))) := by
    rw [← List.append_assoc ((bytes64 now).take 4), List.take_append_drop]
    simp [frameBytes, frontBytes, timestampBytes, hdata]
  have hslice := slice_append_middle (baseBytes a) ((bytes64 now).take 4)
    ((bytes64 now).drop 4 ++ (checksumBytes a (checksumOf a now) ++ (a.topic ++ a.payload)))
  have hlow : (bytes64 now).take 4 = LittleEndian.bytes 4 now.toNat := by
    rw [bytes64_eq, LittleEndian.bytes_eq_map, LittleEndian.bytes_eq_map, ← List.map_take]
    rfl
  rw [← hcut] at hslice
  have hfield : slice (frameBytes a now) 26 4 = (bytes64 now).take 4 := hslice
  rw [field_set_outside (Or.inl (by decide)), field, hfield, hlow, LittleEndian.value_bytes]
  rfl

include hcrc

/-- A flag byte that announces the same optional fields. -/
theorem frame_set_flags_same_layout {v : UInt8} (hv : v ≠ (frameBytes a now).getD 4 0)
    (hon : v &&& hasCrc ≠ 0) (hts : decide (v &&& hasTs ≠ 0) = isDataMsg a.type) :
    ¬ WellFormed ((frameBytes a now).set 4 v) := by
  have hfour := frame_four_lt now henc
  refine not_wellFormed_set_of_layout (by decide) (frame_wellFormed_exact now henc) ?_ ?_ hfour hv
    (Nat.le_refl 4) ?_ ?_
  · rw [frame_crcFlag_exact, hcrc]
  · exact (frame_frameLength_exact now henc).symm
  · rw [tsFlag_set hfour, frame_tsFlag_exact, hts]
  · rw [crcFlag_set hfour, decide_eq_true hon]

/-- The frame with another flag byte. -/
theorem frame_set_flags_wellFormed_iff {v : UInt8} (hv : v ≠ (frameBytes a now).getD 4 0) :
    WellFormed ((frameBytes a now).set 4 v) ↔ Undetected a now 4 v := by
  have hframe := frame_wellFormed_exact now henc
  have hfour := frame_four_lt now henc
  have hencode : encode a now = frameBytes a now := by rw [encode_eq, if_pos henc]
  have hwhole := frame_frameLength_exact now henc
  have hlength : (frameBytes a now).length = 26 + (if isDataMsg a.type then 8 else 0) + 4 +
      topicLength (frameBytes a now) + payloadLength (frameBytes a now) := by
    rw [← hwhole, frameLength, frame_tsFlag_exact, frame_crcFlag_exact, hcrc]
    rfl
  rw [wellFormed_set_flags hframe, frameLength_set_flags hfour, hlength]
  simp only [Undetected, hencode, false_or, true_and, show ¬ (4 : Nat) = 3 by decide]
  by_cases hoff : v &&& hasCrc = 0
  · -- without the checksum bit only the length decides
    by_cases hts : v &&& hasTs = 0
    · simp [hoff, hts]
      omega
    · cases hdata : isDataMsg a.type with
      | false => simp [hoff, hts]
      | true => simp [hoff, hts]
  · cases hdata : isDataMsg a.type with
    | false =>
        by_cases hts : v &&& hasTs = 0
        · -- the layout is unchanged
          have hno := frame_set_flags_same_layout now henc hcrc hv hoff (by rw [hdata, hts]; rfl)
          rw [wellFormed_set_flags hframe, frameLength_set_flags hfour, hlength, hdata] at hno
          simpa [hoff, hts] using hno
        · simp [hoff, hts]
    | true =>
        by_cases hts : v &&& hasTs = 0
        · -- the timestamp is read as checksum
          have hpos : checksumPos ((frameBytes a now).set 4 v) = 26 := by
            rw [checksumPos, tsFlag_set hfour, hts]
            rfl
          rw [hpos, frame_hidden_timestamp now v hdata]
          simp [hoff, hts]
        · have hno := frame_set_flags_same_layout now henc hcrc hv hoff
            (by rw [hdata, decide_eq_true hts])
          rw [wellFormed_set_flags hframe, frameLength_set_flags hfour, hlength, hdata] at hno
          simpa [hoff, hts] using hno

end Frame

/-- Magic and version have one value each. -/
theorem not_wellFormed_set_start {data : Bytes} {i : Nat} {v : UInt8} (h : WellFormed data)
    (hi : i < 3) (hv : v ≠ data.getD i 0) : ¬ WellFormed (data.set i v) := by
  intro h'
  have base := h.base
  obtain hmagic | hversion := Nat.lt_or_ge i 2
  · exact field_set_ne (Nat.zero_le i) hmagic (by omega) hv (h'.magic.trans h.magic.symm)
  · obtain rfl : i = 2 := by omega
    have hbyte := h'.version
    rw [getD_set_self (by omega)] at hbyte
    exact hv (hbyte.trans h.version.symm)

/-- No condition looks at the message type. -/
theorem wellFormed_set_type {data : Bytes} (h : WellFormed data) (v : UInt8) :
    WellFormed (data.set 3 v) := by
  have hts : tsFlag (data.set 3 v) = tsFlag data := by
    rw [tsFlag, tsFlag, getD_set_ne (by decide)]
  have hcrc : crcFlag (data.set 3 v) = crcFlag data := by
    rw [crcFlag, crcFlag, getD_set_ne (by decide)]
  have hpos : checksumPos (data.set 3 v) = checksumPos data := by
    rw [checksumPos, checksumPos, hts]
  have hlen : frameLength (data.set 3 v) = frameLength data := by
    rw [frameLength, frameLength, hts, hcrc, topicLength_set (by decide),
      payloadLength_set (by decide)]
  have hlate : 26 ≤ checksumPos data := Nat.le_add_right 26 _
  refine ⟨?_, ?_, ?_, ?_, ?_⟩
  · rw [List.length_set]
    exact h.base
  · rw [field_set_outside (Or.inr (by decide))]
    exact h.magic
  · rw [getD_set_ne (by decide)]
    exact h.version
  · rw [hlen, List.length_set]
    exact h.length
  · rw [hcrc, hpos, protectedBytes, hpos, hlen, field_set_outside (Or.inl (by omega)),
      slice_set_outside (Or.inl (by decide)), slice_set_outside (Or.inl (by omega))]
    exact h.checksum

/-- A frame with a checksum, changed in one byte outside the two length fields, is
rejected unless the change is one of the `Undetected` ones. -/
theorem decode_set_invalid_iff (sz : SizeT) (a : EncodeArgs) (now : UInt64) (i : Nat) (v : UInt8)
    (henc : Encodable a) (hcrc : a.withCrc = true) (hi : i < (encode a now).length)
    (hv : v ≠ (encode a now).getD i 0) (outside : i ∉ lengthOffsets) :
    (decode sz ((encode a now).set i v)).valid = false ↔ ¬ Undetected a now i v := by
  have hencode : encode a now = frameBytes a now := by rw [encode_eq, if_pos henc]
  rw [hencode] at hi hv ⊢
  have hframe := frame_wellFormed_exact now henc
  let buf : Buffer sz := ⟨(frameBytes a now).set i v, by
    rw [List.length_set]
    exact SizeT.lt_modulus (frame_length_lt now henc) sz⟩
  have hvalid : (decode sz ((frameBytes a now).set i v)).valid = true ↔
      WellFormed ((frameBytes a now).set i v) := decode_valid_iff buf
  rw [← Bool.not_eq_true, hvalid, not_iff_not]
  -- the offsets fall into four groups: magic and version, type, flags, protected bytes
  obtain hstart | hrest := Nat.lt_or_ge i 3
  · refine iff_of_false (not_wellFormed_set_start hframe hstart hv) ?_
    unfold Undetected
    omega
  obtain rfl | hrest := Nat.eq_or_lt_of_le hrest
  · exact iff_of_true (wellFormed_set_type hframe v) (Or.inl rfl)
  obtain rfl | hlate := Nat.eq_or_lt_of_le (show 4 ≤ i from hrest)
  · exact frame_set_flags_wellFormed_iff now henc hcrc hv
  · have hflags : ((frameBytes a now).set i v).getD 4 0 = (frameBytes a now).getD 4 0 :=
      getD_set_ne (by omega)
    refine iff_of_false (not_wellFormed_set_of_layout outside hframe ?_ ?_ hi hv hrest ?_ ?_) ?_
    · rw [frame_crcFlag_exact, hcrc]
    · exact (frame_frameLength_exact now henc).symm
    · rw [tsFlag, hflags, tsFlag]
    · rw [crcFlag, hflags, ← crcFlag, frame_crcFlag_exact, hcrc]
    · unfold Undetected
      omega

/-- A changed payload byte of a small frame. -/
theorem decode_set_invalid_payload :
    let a : EncodeArgs :=
      { type := .ack, sourceId := 1, destId := 2, topic := [0x74], payload := [42], qos := {},
        sequenceId := 5 }
    (decode .bits64 ((encode a 0).set 31 43)).valid = false :=
  (decode_set_invalid_iff .bits64 _ 0 31 43 (by decide) rfl (by decide) (by decide)
    (by decide)).mpr (by unfold Undetected; decide)

/-- A changed message type, or a cleared flag byte, is accepted. -/
theorem decode_set_accepts :
    let a : EncodeArgs :=
      { type := .ack, sourceId := 1, destId := 2, topic := [0x74], payload := [42], qos := {},
        sequenceId := 5 }
    (encode a 0).getD 3 0 ≠ 0x11 ∧ (decode .bits64 ((encode a 0).set 3 0x11)).valid = true ∧
      (encode a 0).getD 4 0 ≠ 0 ∧ (decode .bits64 ((encode a 0).set 4 0)).valid = true := by
  decide +kernel

end EmbedMq.MessageCodec

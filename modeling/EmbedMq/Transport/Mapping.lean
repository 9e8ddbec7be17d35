import EmbedMq.Transport.ShmSender

/-!
# The bounds of a mapping

`openInbox` accepts the segment of a peer after a few checks of the geometry in its header, and
`writeToRegion` computes the place of a slot from the same header. Both compute in `size_t`, which
has 32 or 64 bits. Whatever the header says, what is written lies within the mapping.
-/

namespace EmbedMq

namespace ShmTransport

variable {w : Nat}

/-- A 32-bit value as a `size_t` of `w` bits. -/
def sizeT (w : Nat) (x : UInt32) : BitVec w := x.toBitVec.setWidth w

/-- `sizeof(ShmHeader)` and `sizeof(SlotHeader)`. -/
def sizeofHeader (w : Nat) : BitVec w := BitVec.ofNat w headerSize

def sizeofSlotHeader (w : Nat) : BitVec w := BitVec.ofNat w slotHeader

/-- The checks of `openInbox` on a segment that was opened and not created. -/
def accepts (h : ShmHeader) (totalSize : BitVec w) : Bool :=
  if h.magic ≠ shmMagic then false
  else if h.layoutVersion ≠ shmLayoutVersion then false
  else if h.slotCount = 0 ∨ h.slotSize = 0 then false
  else if sizeT w h.slotSize < sizeofSlotHeader w then false
  else if (BitVec.allOnes w - sizeofHeader w) / sizeT w h.slotSize < sizeT w h.slotCount then false
  else
    let need := sizeofHeader w + sizeT w h.slotCount * sizeT w h.slotSize
    if totalSize < need then false else true

/-- The check of `writeToRegion` that a message fits a slot. -/
def fitsSlot (h : ShmHeader) (size : BitVec w) : Bool :=
  if sizeT w h.slotSize < size + sizeofSlotHeader w then false else true

/-- Where the slot of an index begins, from the start of the mapping. -/
def slotStart (w : Nat) (h : ShmHeader) (idx : UInt32) : BitVec w :=
  sizeofHeader w + sizeT w (idx % h.slotCount) * sizeT w h.slotSize

/-- Where a message of this size ends in the slot of an index. -/
def messageEnd (h : ShmHeader) (idx : UInt32) (size : BitVec w) : BitVec w :=
  slotStart w h idx + sizeofSlotHeader w + size

/-- No computation of the range wraps, and the range ends within the mapping. -/
structure WithinMapping (h : ShmHeader) (totalSize : BitVec w) (idx : UInt32) (size : BitVec w) :
    Prop where
  start : (slotStart w h idx).toNat =
    headerSize + idx.toNat % h.slotCount.toNat * h.slotSize.toNat
  stop : (messageEnd h idx size).toNat =
    headerSize + idx.toNat % h.slotCount.toNat * h.slotSize.toNat + slotHeader + size.toNat
  bound : (messageEnd h idx size).toNat ≤ totalSize.toNat

section

variable (hw : 32 ≤ w)
include hw

theorem two_pow_le : 2 ^ 32 ≤ 2 ^ w := Nat.pow_le_pow_right Nat.two_pos hw

theorem sizeT_toNat (x : UInt32) : (sizeT w x).toNat = x.toNat := by
  rw [sizeT, BitVec.toNat_setWidth, UInt32.toNat_toBitVec]
  exact Nat.mod_eq_of_lt (Nat.lt_of_lt_of_le x.toNat_lt (two_pow_le hw))

theorem sizeofHeader_toNat : (sizeofHeader w).toNat = 32 := by
  rw [sizeofHeader, BitVec.toNat_ofNat]
  exact Nat.mod_eq_of_lt (Nat.lt_of_lt_of_le (by decide) (two_pow_le hw))

theorem sizeofSlotHeader_toNat : (sizeofSlotHeader w).toNat = 8 := by
  rw [sizeofSlotHeader, BitVec.toNat_ofNat]
  exact Nat.mod_eq_of_lt (Nat.lt_of_lt_of_le (by decide) (two_pow_le hw))

/-- The largest `size_t` less the header. -/
theorem room_toNat : (BitVec.allOnes w - sizeofHeader w).toNat = 2 ^ w - 33 := by
  have hpow := two_pow_le hw
  have hle : sizeofHeader w ≤ BitVec.allOnes w := by
    rw [BitVec.le_def, BitVec.toNat_allOnes]
    exact Nat.le_pred_of_lt (sizeofHeader w).isLt
  rw [BitVec.toNat_sub_of_le hle, BitVec.toNat_allOnes, sizeofHeader_toNat hw]
  omega

/-- The end of the slots of an accepted geometry, or an offset before it, is exact. -/
theorem offset_toNat {h : ShmHeader} {n : UInt32}
    (hroom : n.toNat * h.slotSize.toNat ≤ 2 ^ w - 33) :
    (sizeofHeader w + sizeT w n * sizeT w h.slotSize).toNat =
      headerSize + n.toNat * h.slotSize.toNat := by
  have hpow := two_pow_le hw
  have hproduct : (sizeT w n * sizeT w h.slotSize).toNat = n.toNat * h.slotSize.toNat := by
    rw [BitVec.toNat_mul, sizeT_toNat hw, sizeT_toNat hw]
    exact Nat.mod_eq_of_lt (by omega)
  rw [BitVec.toNat_add, hproduct, sizeofHeader_toNat hw, headerSize]
  exact Nat.mod_eq_of_lt (by omega)

/-- What the checks of `openInbox` say in exact numbers. -/
theorem accepts_iff {h : ShmHeader} {totalSize : BitVec w} :
    accepts h totalSize = true ↔
      h.magic = shmMagic ∧ h.layoutVersion = shmLayoutVersion ∧
        ¬(h.slotCount = 0 ∨ h.slotSize = 0) ∧ slotHeader ≤ h.slotSize.toNat ∧
        h.slotCount.toNat ≤ (2 ^ w - 33) / h.slotSize.toNat ∧
        headerSize + h.slotCount.toNat * h.slotSize.toNat ≤ totalSize.toNat := by
  simp only [accepts, Bool.if_false_left, Bool.if_true_right, Bool.and_eq_true,
    Bool.not_eq_true', decide_eq_false_iff_not, not_not, BitVec.not_lt, BitVec.le_def,
    BitVec.toNat_udiv, room_toNat hw, sizeT_toNat hw, sizeofSlotHeader_toNat hw]
  refine and_congr_right fun _ => and_congr_right fun _ => and_congr_right fun _ =>
    and_congr_right fun _ => and_congr_right fun hcount => ?_
  have hroom : h.slotCount.toNat * h.slotSize.toNat ≤ 2 ^ w - 33 :=
    Nat.mul_le_of_le_div _ _ _ hcount
  rw [Bool.or_false, Bool.not_eq_true', decide_eq_false_iff_not, BitVec.not_lt, BitVec.le_def,
    offset_toNat hw hroom]

/-- The check of the length is exact for a buffer that a program can have. -/
theorem fitsSlot_iff {h : ShmHeader} {size : BitVec w} (hsize : size ≤ BitVec.allOnes w / 2) :
    fitsSlot h size = true ↔ size.toNat + slotHeader ≤ h.slotSize.toNat := by
  have hpow := two_pow_le hw
  rw [BitVec.le_def, BitVec.toNat_udiv, BitVec.toNat_allOnes] at hsize
  have hlt : 2 < 2 ^ w := Nat.lt_of_lt_of_le (by decide) hpow
  have htwo : (2 : BitVec w).toNat = 2 := Nat.mod_eq_of_lt hlt
  rw [htwo] at hsize
  have hsum : (size + sizeofSlotHeader w).toNat = size.toNat + slotHeader := by
    rw [BitVec.toNat_add, sizeofSlotHeader_toNat hw, slotHeader]
    exact Nat.mod_eq_of_lt (by omega)
  simp only [fitsSlot, Bool.if_true_right, Bool.or_false, Bool.not_eq_true',
    decide_eq_false_iff_not, BitVec.not_lt, BitVec.le_def, hsum, sizeT_toNat hw]

/-- Whatever an accepted header says, a message that fits a slot ends within the mapping. -/
theorem withinMapping_of_accepts {h : ShmHeader} {totalSize : BitVec w}
    (haccepts : accepts h totalSize = true) (idx : UInt32) {size : BitVec w}
    (hsize : size ≤ BitVec.allOnes w / 2) (hfits : fitsSlot h size = true) :
    WithinMapping h totalSize idx size := by
  obtain ⟨-, -, hzero, -, hcount, hbound⟩ := (accepts_iff hw).mp haccepts
  have hlength := (fitsSlot_iff hw hsize).mp hfits
  have hlast := totalSize.isLt
  have hpos : 0 < h.slotCount.toNat := Nat.pos_of_ne_zero fun heq =>
    hzero (.inl (UInt32.toNat_inj.mp heq))
  have hidx : (idx % h.slotCount).toNat = idx.toNat % h.slotCount.toNat := UInt32.toNat_mod ..
  have hslot : (idx.toNat % h.slotCount.toNat + 1) * h.slotSize.toNat ≤
      h.slotCount.toNat * h.slotSize.toNat :=
    Nat.mul_le_mul_right _ (Nat.mod_lt _ hpos)
  rw [Nat.succ_mul] at hslot
  have hroom : (idx % h.slotCount).toNat * h.slotSize.toNat ≤ 2 ^ w - 33 := by
    have hall := Nat.mul_le_of_le_div _ _ _ hcount
    rw [hidx]
    omega
  have hstart : (slotStart w h idx).toNat =
      headerSize + idx.toNat % h.slotCount.toNat * h.slotSize.toNat := by
    rw [slotStart, offset_toNat hw hroom, hidx]
  have hpayload : (slotStart w h idx + sizeofSlotHeader w).toNat =
      headerSize + idx.toNat % h.slotCount.toNat * h.slotSize.toNat + slotHeader := by
    rw [BitVec.toNat_add, hstart, sizeofSlotHeader_toNat hw, slotHeader]
    exact Nat.mod_eq_of_lt (by rw [slotHeader] at hlength; omega)
  have hstop : (messageEnd h idx size).toNat =
      headerSize + idx.toNat % h.slotCount.toNat * h.slotSize.toNat + slotHeader +
        size.toNat := by
    rw [messageEnd, BitVec.toNat_add, hpayload]
    exact Nat.mod_eq_of_lt (by omega)
  refine ⟨hstart, hstop, ?_⟩
  rw [hstop]
  omega

end

/-- The last slot of two that fill their mapping, and a message that fills it. -/
theorem withinMapping_last :
    WithinMapping (w := 32) { slotSize := 64, slotCount := 2 } 160 3 56 :=
  withinMapping_of_accepts (Nat.le_refl 32) (by decide) 3 (by decide) (by decide)

/-- Where `size_t` has 64 bits, the checks are those of the segment's geometry. -/
theorem accepts_region_iff {r : Region} (hsize : r.totalSize < 2 ^ 64) :
    accepts r.header (BitVec.ofNat 64 r.totalSize) = true ↔ r.Valid ∧ r.Fits := by
  have htotal : (BitVec.ofNat 64 r.totalSize).toNat = r.totalSize := Nat.mod_eq_of_lt hsize
  have hzero : r.header.slotCount = 0 ∨ r.header.slotSize = 0 ↔
      r.header.slotCount.toNat = 0 ∨ r.header.slotSize.toNat = 0 := by
    rw [← UInt32.toNat_inj, ← UInt32.toNat_inj]
    rfl
  rw [accepts_iff (by decide), htotal, hzero, Region.Valid, Region.Fits, and_assoc]
  rfl

end ShmTransport

end EmbedMq

import EmbedMq.Core.Types
import EmbedMq.Foundation.Crc

/-!
# The frame checksum

`crc32Update` and `crc32` follow `crc32.h`, with the same register, mask and
polynomial. The register is a reflected CRC in the sense of `Crc`, and the
polynomial has its top bit set, so the detection results of that module apply.
-/

namespace EmbedMq

/-- The inner loop body: the mask is all ones exactly when the low bit is set. -/
def crc32Shift (crc : UInt32) : UInt32 :=
  let mask : UInt32 := -(crc &&& 1)
  (crc >>> 1) ^^^ (0xEDB88320 &&& mask)

/-- One iteration of the outer loop: add a byte, then shift eight times. -/
def crc32Byte (crc : UInt32) (b : UInt8) : UInt32 :=
  crc32Shift^[8] (crc ^^^ b.toUInt32)

def crc32Update (crc : UInt32) (data : Bytes) : UInt32 :=
  data.foldl crc32Byte crc

def crc32 (data : Bytes) : UInt32 :=
  ~~~ crc32Update 0xFFFFFFFF data

@[simp] theorem crc32Update_nil (crc : UInt32) : crc32Update crc [] = crc := rfl

theorem crc32Update_append (crc : UInt32) (first second : Bytes) :
    crc32Update crc (first ++ second) = crc32Update (crc32Update crc first) second :=
  List.foldl_append

namespace Crc32

def polynomial : BitVec 32 := 0xEDB88320#32

private theorem mask_toBitVec (x : BitVec 32) :
    0xEDB88320#32 &&& -(x &&& 1#32) = if x.getLsbD 0 then polynomial else 0#32 := by
  rw [BitVec.and_one_eq_setWidth_ofBool_getLsbD]
  cases x.getLsbD 0 <;> rfl

theorem shift_toBitVec (crc : UInt32) :
    (crc32Shift crc).toBitVec = Crc.shift polynomial crc.toBitVec := by
  have hshift : (crc >>> 1).toBitVec = crc.toBitVec >>> 1 := rfl
  rw [crc32Shift, UInt32.toBitVec_xor, hshift, Crc.shift]
  congr 1
  exact mask_toBitVec crc.toBitVec

private theorem iterate_toBitVec (n : Nat) (crc : UInt32) :
    (crc32Shift^[n] crc).toBitVec = (Crc.shift polynomial)^[n] crc.toBitVec := by
  induction n generalizing crc with
  | zero => rfl
  | succ n ih =>
      rw [Function.iterate_succ_apply, Function.iterate_succ_apply, ih, shift_toBitVec]

theorem byte_toBitVec (crc : UInt32) (b : UInt8) :
    (crc32Byte crc b).toBitVec = Crc.absorb polynomial crc.toBitVec b.toBitVec := by
  rw [crc32Byte, iterate_toBitVec, UInt32.toBitVec_xor]
  rfl

/-- The model of `crc32_update` is the general reflected CRC at this polynomial. -/
theorem update_toBitVec (crc : UInt32) (data : Bytes) :
    (crc32Update crc data).toBitVec =
      Crc.feed polynomial crc.toBitVec (data.map UInt8.toBitVec) := by
  induction data generalizing crc with
  | nil => rfl
  | cons b rest ih =>
      rw [List.map_cons, Crc.feed_cons, ← byte_toBitVec, ← ih]
      rfl

end Crc32

/-- Two messages that differ in exactly one byte have different checksums. -/
theorem crc32_ne_of_byte_ne (before after : Bytes) {a b : UInt8} (hab : a ≠ b) :
    crc32 (before ++ a :: after) ≠ crc32 (before ++ b :: after) := by
  intro h
  have hregister : crc32Update 0xFFFFFFFF (before ++ a :: after) =
      crc32Update 0xFFFFFFFF (before ++ b :: after) := UInt32.not_inj.mp h
  have hbits := congrArg UInt32.toBitVec hregister
  rw [Crc32.update_toBitVec, Crc32.update_toBitVec, List.map_append, List.map_append,
    List.map_cons, List.map_cons] at hbits
  refine Crc.feed_ne_of_byte_ne (by decide) (by decide) _ _ _ ?_ hbits
  exact fun heq => hab (UInt8.eq_of_toBitVec_eq heq)

/-- Two messages that differ within a window of four bytes have different checksums. -/
theorem crc32_ne_of_window_ne (before after : Bytes) {window window' : Bytes}
    (hlength : window.length = window'.length) (hle : window.length ≤ 4) (hne : window ≠ window') :
    crc32 (before ++ window ++ after) ≠ crc32 (before ++ window' ++ after) := by
  intro h
  have hregister : crc32Update 0xFFFFFFFF (before ++ window ++ after) =
      crc32Update 0xFFFFFFFF (before ++ window' ++ after) := UInt32.not_inj.mp h
  have hbits := congrArg UInt32.toBitVec hregister
  simp only [Crc32.update_toBitVec, List.map_append] at hbits
  have hbytes : window.map UInt8.toBitVec ≠ window'.map UInt8.toBitVec :=
    fun heq => hne (List.map_injective_iff.mpr (fun _ _ => UInt8.eq_of_toBitVec_eq) heq)
  refine Crc.feed_ne_of_window_ne (by decide) _ _ _ ?_ ?_ hbytes hbits
  · rw [List.length_map, List.length_map, hlength]
  · rw [List.length_map]
    omega

theorem crc32_ne_of_window_ne_four :
    crc32 ([7] ++ [1, 2, 3, 4] ++ [8]) ≠ crc32 ([7] ++ [0, 2, 3, 5] ++ [8]) :=
  crc32_ne_of_window_ne [7] [8] rfl (by decide) (by decide)

end EmbedMq

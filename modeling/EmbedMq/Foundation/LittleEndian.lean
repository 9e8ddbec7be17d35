import Mathlib.Data.Nat.Bitwise
import Mathlib.Tactic.Ring

/-!
# Fixed-width little-endian numerals

`bytes n x` is the list of the `n` low-order bytes of `x`, least significant
byte first, and `value` reads such a list back. The two maps are inverse to each
other up to truncation, which is the only fact that a serializer needs about a
field of fixed width.

The last section relates the shift-and-or expressions of machine words to
`value`, so that a field assembled from bytes can be reasoned about as a number.
-/

namespace LittleEndian

/-- The `n` low-order bytes of `x`; higher-order bytes are dropped. -/
def bytes : Nat → Nat → List UInt8
  | 0, _ => []
  | n + 1, x => UInt8.ofNat x :: bytes n (x / 256)

/-- The number written by a list of bytes. -/
def value : List UInt8 → Nat
  | [] => 0
  | b :: rest => b.toNat + 256 * value rest

@[simp] theorem value_nil : value [] = 0 := rfl

@[simp] theorem value_cons (b : UInt8) (rest : List UInt8) :
    value (b :: rest) = b.toNat + 256 * value rest := rfl

@[simp] theorem length_bytes (n x : Nat) : (bytes n x).length = n := by
  induction n generalizing x with
  | zero => rfl
  | succ n ih => simp [bytes, ih]

/-- Byte `i` of a numeral, without the recursion. -/
theorem bytes_eq_map (n x : Nat) :
    bytes n x = (List.range n).map fun i => UInt8.ofNat (x / 256 ^ i) := by
  induction n generalizing x with
  | zero => rfl
  | succ n ih =>
      rw [bytes, ih, List.range_succ_eq_map, List.map_cons, List.map_map]
      simp [Function.comp_def, pow_succ', Nat.div_div_eq_div_mul]

theorem value_lt (bs : List UInt8) : value bs < 256 ^ bs.length := by
  induction bs with
  | nil => simp
  | cons b rest ih =>
      have hb : b.toNat < 256 := b.toNat_lt
      rw [value_cons, List.length_cons, pow_succ]
      omega

/-- Writing and reading back keeps exactly the bits that fit in the field. -/
theorem value_bytes (n x : Nat) : value (bytes n x) = x % 256 ^ n := by
  induction n generalizing x with
  | zero => simp [bytes, Nat.mod_one]
  | succ n ih =>
      rw [bytes, value_cons, ih, pow_succ', Nat.mod_mul]
      simp

theorem value_bytes_of_lt {n x : Nat} (h : x < 256 ^ n) : value (bytes n x) = x := by
  rw [value_bytes, Nat.mod_eq_of_lt h]

/-- Every list of bytes is the numeral of its own value. -/
theorem bytes_value (bs : List UInt8) : bytes bs.length (value bs) = bs := by
  induction bs with
  | nil => rfl
  | cons b rest ih =>
      have hb : b.toNat < 256 := b.toNat_lt
      have hrest : (b.toNat + 256 * value rest) / 256 = value rest := by omega
      rw [List.length_cons, bytes, value_cons, hrest, ih]
      congr 1
      apply UInt8.toNat_inj.mp
      simp

theorem value_injective {as bs : List UInt8} (hlen : as.length = bs.length)
    (h : value as = value bs) : as = bs := by
  rw [← bytes_value as, ← bytes_value bs, hlen, h]

/-! ### Machine words assembled from bytes -/

/-- Setting a byte above the bits in use adds it at its weight. -/
private theorem lor_shiftLeft {x s : Nat} (hx : x < 2 ^ s) (b : Nat) :
    x ||| b <<< s = x + 2 ^ s * b := by
  rw [Nat.lor_comm, ← Nat.shiftLeft_add_eq_or_of_lt hx, Nat.shiftLeft_eq]
  ring

private theorem byte_shift_lt {w s : Nat} (b : UInt8) (hs : s + 8 ≤ w) :
    b.toNat <<< s < 2 ^ w := by
  have hb : b.toNat < 2 ^ 8 := b.toNat_lt
  calc b.toNat <<< s = b.toNat * 2 ^ s := Nat.shiftLeft_eq _ _
    _ < 2 ^ 8 * 2 ^ s := Nat.mul_lt_mul_of_pos_right hb (Nat.two_pow_pos s)
    _ = 2 ^ (s + 8) := by rw [← pow_add, Nat.add_comm]
    _ ≤ 2 ^ w := Nat.pow_le_pow_right (by decide) hs

theorem word16_toNat (b₀ b₁ : UInt8) :
    (b₀.toUInt16 ||| b₁.toUInt16 <<< 8).toNat = value [b₀, b₁] := by
  have hshift : b₁.toNat <<< 8 < 2 ^ 16 := byte_shift_lt b₁ (by decide)
  have hlow : b₀.toNat < 2 ^ 8 := b₀.toNat_lt
  simp only [UInt16.toNat_or, UInt16.toNat_shiftLeft, UInt8.toNat_toUInt16, value_cons, value_nil]
  rw [show (8 : UInt16).toNat % 16 = 8 from rfl, Nat.mod_eq_of_lt hshift, lor_shiftLeft hlow]
  omega

/-- One more byte of a 32-bit word, above the `s` bits already in use. -/
theorem word32_or_byte (x : UInt32) (b : UInt8) (s : Nat) (hs : s + 8 ≤ 32)
    (hx : x.toNat < 2 ^ s) :
    (x ||| b.toUInt32 <<< UInt32.ofNat s).toNat = x.toNat + 2 ^ s * b.toNat := by
  have hword : (UInt32.ofNat s).toNat = s := UInt32.toNat_ofNat_of_lt' (by
    show s < 2 ^ 32
    omega)
  simp only [UInt32.toNat_or, UInt32.toNat_shiftLeft, UInt8.toNat_toUInt32, hword]
  rw [Nat.mod_eq_of_lt (show s < 32 by omega), Nat.mod_eq_of_lt (byte_shift_lt b hs),
    lor_shiftLeft hx]

theorem word32_toNat (b₀ b₁ b₂ b₃ : UInt8) :
    (b₀.toUInt32 ||| b₁.toUInt32 <<< 8 ||| b₂.toUInt32 <<< 16 ||| b₃.toUInt32 <<< 24).toNat =
      value [b₀, b₁, b₂, b₃] := by
  have l₀ := b₀.toNat_lt
  have l₁ := b₁.toNat_lt
  have l₂ := b₂.toNat_lt
  have h₀ : b₀.toUInt32.toNat = b₀.toNat := UInt8.toNat_toUInt32 b₀
  have h₁ : (b₀.toUInt32 ||| b₁.toUInt32 <<< 8).toNat = b₀.toNat + 2 ^ 8 * b₁.toNat := by
    rw [← h₀]
    exact word32_or_byte _ b₁ 8 (by decide) (by omega)
  have h₂ := word32_or_byte (b₀.toUInt32 ||| b₁.toUInt32 <<< 8) b₂ 16 (by decide) (by omega)
  have h₃ := word32_or_byte _ b₃ 24 (by decide) (show (_ : UInt32).toNat < _ by rw [h₂]; omega)
  refine h₃.trans ?_
  rw [h₂, h₁]
  simp only [value_cons, value_nil]
  omega

/-- One more byte of a 64-bit word, above the `s` bits already in use. -/
theorem word64_or_byte (x : UInt64) (b : UInt8) (s : Nat) (hs : s + 8 ≤ 64)
    (hx : x.toNat < 2 ^ s) :
    (x ||| b.toUInt64 <<< UInt64.ofNat s).toNat = x.toNat + 2 ^ s * b.toNat := by
  have hword : (UInt64.ofNat s).toNat = s := UInt64.toNat_ofNat_of_lt' (by
    show s < 2 ^ 64
    omega)
  simp only [UInt64.toNat_or, UInt64.toNat_shiftLeft, UInt8.toNat_toUInt64, hword]
  rw [Nat.mod_eq_of_lt (show s < 64 by omega), Nat.mod_eq_of_lt (byte_shift_lt b hs),
    lor_shiftLeft hx]

/-- A word filled by a loop over its bytes, byte `i` shifted into place `8 * i`. -/
def word64 (bs : List UInt8) : UInt64 :=
  (bs.zipIdx.foldl (fun word entry => word ||| entry.1.toUInt64 <<< UInt64.ofNat (8 * entry.2)) 0)

private theorem word64_foldl (bs : List UInt8) (i : Nat) (x : UInt64)
    (hlen : i + bs.length ≤ 8) (hx : x.toNat < 2 ^ (8 * i)) :
    ((bs.zipIdx i).foldl
      (fun word entry => word ||| entry.1.toUInt64 <<< UInt64.ofNat (8 * entry.2)) x).toNat =
        x.toNat + 2 ^ (8 * i) * value bs := by
  induction bs generalizing i x with
  | nil => simp
  | cons b rest ih =>
      rw [List.length_cons] at hlen
      have hb : b.toNat < 256 := b.toNat_lt
      have hstep := word64_or_byte x b (8 * i) (by omega) hx
      have hweight : 2 ^ (8 * (i + 1)) = 2 ^ (8 * i) * 256 := by
        rw [Nat.mul_succ, pow_add]
        rfl
      have hnext : x.toNat + 2 ^ (8 * i) * b.toNat < 2 ^ (8 * (i + 1)) := by
        calc x.toNat + 2 ^ (8 * i) * b.toNat < 2 ^ (8 * i) + 2 ^ (8 * i) * b.toNat := by omega
          _ = 2 ^ (8 * i) * (b.toNat + 1) := by ring
          _ ≤ 2 ^ (8 * i) * 256 := Nat.mul_le_mul_left _ (by omega)
          _ = 2 ^ (8 * (i + 1)) := hweight.symm
      rw [List.zipIdx_cons, List.foldl_cons, ih (i + 1) _ (by omega) (by rwa [hstep]), hstep,
        hweight, value_cons]
      ring

theorem word64_toNat {bs : List UInt8} (hlen : bs.length ≤ 8) :
    (word64 bs).toNat = value bs := by
  have h := word64_foldl bs 0 0 (by omega) (by decide)
  simpa [word64] using h

end LittleEndian

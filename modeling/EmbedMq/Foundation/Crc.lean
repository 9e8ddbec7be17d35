import Mathlib.Logic.Function.Iterate
import Mathlib.Data.BitVec

/-!
# Reflected cyclic redundancy checks

A reflected CRC keeps a register of `w` bits. One `shift` divides by `x`, adding
the polynomial when a bit falls out; a byte is added to the low end of the
register and followed by eight shifts.

The error-detection results rest on one algebraic fact: when the polynomial has
its top bit set, `shift` is injective, since the bit that fell out can be read
off the top of the result. Absorbing equal data is then injective in the
register, and absorbing two different bytes separates equal registers for good.
-/

namespace Crc

variable {w : Nat}

/-- One division step of the register. -/
def shift (poly c : BitVec w) : BitVec w :=
  (c >>> 1) ^^^ (if c.getLsbD 0 then poly else 0#w)

/-- Add a byte at the low end of the register and divide eight times. -/
def absorb (poly c : BitVec w) (b : BitVec 8) : BitVec w :=
  (shift poly)^[8] (c ^^^ b.setWidth w)

/-- Absorb a whole message. -/
def feed (poly c : BitVec w) (message : List (BitVec 8)) : BitVec w :=
  message.foldl (absorb poly) c

@[simp] theorem feed_nil (poly c : BitVec w) : feed poly c [] = c := rfl

@[simp] theorem feed_cons (poly c : BitVec w) (b : BitVec 8) (rest : List (BitVec 8)) :
    feed poly c (b :: rest) = feed poly (absorb poly c b) rest := rfl

theorem feed_append (poly c : BitVec w) (first second : List (BitVec 8)) :
    feed poly c (first ++ second) = feed poly (feed poly c first) second :=
  List.foldl_append

/-- The bit that falls out of the register is the top bit of the result. -/
theorem shift_msb {poly : BitVec w} (top : poly.msb = true) (c : BitVec w) :
    (shift poly c).msb = c.getLsbD 0 := by
  have hw : 0 < w := by
    by_contra h
    obtain rfl : w = 0 := by omega
    simp [BitVec.msb] at top
  have hshift : (c >>> 1).msb = false := by
    simp [BitVec.msb_eq_getLsbD_last, BitVec.getLsbD_ushiftRight, show 1 + (w - 1) = w by omega]
  rw [shift, BitVec.msb_xor, hshift, Bool.false_xor]
  cases c.getLsbD 0 <;> simp [top]

theorem shift_injective {poly : BitVec w} (top : poly.msb = true) :
    Function.Injective (shift poly) := by
  intro a b h
  have hlow : a.getLsbD 0 = b.getLsbD 0 := by
    rw [← shift_msb top a, ← shift_msb top b, h]
  have hhigh : a >>> 1 = b >>> 1 := by
    simp only [shift, hlow] at h
    exact (BitVec.xor_left_inj _).mp h
  apply BitVec.eq_of_getLsbD_eq
  intro i hi
  cases i with
  | zero => exact hlow
  | succ i =>
      have hbit := congrArg (fun c : BitVec w => c.getLsbD i) hhigh
      simpa [BitVec.getLsbD_ushiftRight, Nat.add_comm 1 i] using hbit

theorem absorb_injective {poly : BitVec w} (top : poly.msb = true) (b : BitVec 8) :
    Function.Injective (fun c => absorb poly c b) := by
  intro c d h
  exact (BitVec.xor_left_inj _).mp ((shift_injective top).iterate 8 h)

/-- Equal registers are separated by absorbing different bytes. -/
theorem absorb_ne {poly : BitVec w} (top : poly.msb = true) (hw : 8 ≤ w) (c : BitVec w)
    {a b : BitVec 8} (hab : a ≠ b) : absorb poly c a ≠ absorb poly c b := by
  intro h
  have hword : a.setWidth w = b.setWidth w :=
    (BitVec.xor_right_inj c).mp ((shift_injective top).iterate 8 h)
  apply hab
  have hback := congrArg (BitVec.setWidth 8) hword
  simpa [BitVec.setWidth_setWidth_of_le _ hw] using hback

theorem feed_injective {poly : BitVec w} (top : poly.msb = true) (message : List (BitVec 8)) :
    Function.Injective (fun c => feed poly c message) := by
  induction message with
  | nil => exact fun _ _ h => h
  | cons b rest ih => exact fun c d h => absorb_injective top b (ih h)

/-- A change of one byte of a message always changes the register it leaves. -/
theorem feed_ne_of_byte_ne {poly : BitVec w} (top : poly.msb = true) (hw : 8 ≤ w)
    (c : BitVec w) (before after : List (BitVec 8)) {a b : BitVec 8} (hab : a ≠ b) :
    feed poly c (before ++ a :: after) ≠ feed poly c (before ++ b :: after) := by
  rw [feed_append, feed_append, feed_cons, feed_cons]
  exact fun h => absorb_ne top hw _ hab (feed_injective top after h)

/-! ### Bursts -/

theorem shift_xor (poly a b : BitVec w) : shift poly (a ^^^ b) = shift poly a ^^^ shift poly b := by
  apply BitVec.eq_of_getLsbD_eq
  intro i hi
  have hpoly : ∀ low : Bool,
      (if low then poly else 0#w).getLsbD i = (low && poly.getLsbD i) := by
    intro low
    cases low <;> simp
  simp only [shift, BitVec.getLsbD_xor, BitVec.getLsbD_ushiftRight, hpoly]
  cases a.getLsbD 0 <;> cases b.getLsbD 0 <;> cases a.getLsbD (1 + i) <;>
    cases b.getLsbD (1 + i) <;> cases poly.getLsbD i <;> rfl

theorem iterate_shift_xor (poly a b : BitVec w) (n : Nat) :
    (shift poly)^[n] (a ^^^ b) = (shift poly)^[n] a ^^^ (shift poly)^[n] b := by
  induction n generalizing a b with
  | zero => rfl
  | succ n ih => rw [Function.iterate_succ_apply, shift_xor, ih]; rfl

/-- Shifts that only drop zeros. -/
theorem iterate_shift_of_low {poly c : BitVec w} {n : Nat} (h : ∀ i < n, c.getLsbD i = false) :
    (shift poly)^[n] c = c >>> n := by
  induction n with
  | zero => simp
  | succ n ih =>
      have hlow : (c >>> n).getLsbD 0 = false := by simpa using h n (Nat.lt_succ_self n)
      rw [Function.iterate_succ_apply', ih fun i hi => h i (Nat.lt_succ_of_lt hi), shift, hlow]
      simp [BitVec.shiftRight_add]

/-- The bytes of a window, the first one at the low end. -/
def word (w : Nat) : List (BitVec 8) → BitVec w
  | [] => 0#w
  | b :: rest => b.setWidth w ^^^ (word w rest <<< 8)

theorem getLsbD_word_cons (b : BitVec 8) (rest : List (BitVec 8)) {i : Nat} (hi : i < w) :
    (word w (b :: rest)).getLsbD i =
      if i < 8 then b.getLsbD i else (word w rest).getLsbD (i - 8) := by
  rw [word, BitVec.getLsbD_xor, BitVec.getLsbD_setWidth, BitVec.getLsbD_shiftLeft]
  by_cases h8 : i < 8
  · simp [hi, h8]
  · simp [hi, h8, BitVec.getLsbD_of_ge b i (Nat.not_lt.mp h8)]

/-- Nothing stands above the bytes. -/
theorem getLsbD_word_of_le (bytes : List (BitVec 8)) {i : Nat} (h : 8 * bytes.length ≤ i) :
    (word w bytes).getLsbD i = false := by
  induction bytes generalizing i with
  | nil => exact BitVec.getLsbD_zero
  | cons b rest ih =>
      rw [List.length_cons] at h
      by_cases hi : i < w
      · rw [getLsbD_word_cons b rest hi, if_neg (by omega)]
        exact ih (by omega)
      · exact BitVec.getLsbD_of_ge _ i (Nat.not_lt.mp hi)

/-- As long as the window fits the register, absorbing it is adding it and shifting it through. -/
theorem feed_eq_iterate {poly c : BitVec w} {bytes : List (BitVec 8)}
    (h : 8 * bytes.length ≤ w) :
    feed poly c bytes = (shift poly)^[8 * bytes.length] (c ^^^ word w bytes) := by
  induction bytes generalizing c with
  | nil => simp [word]
  | cons b rest ih =>
      rw [List.length_cons] at h
      have hlow : ∀ i < 8, (word w rest <<< 8).getLsbD i = false := by
        intro i hi
        simp [hi]
      have hback : (word w rest <<< 8) >>> 8 = word w rest := by
        apply BitVec.eq_of_getLsbD_eq
        intro i hi
        rw [BitVec.getLsbD_ushiftRight, BitVec.getLsbD_shiftLeft]
        by_cases htop : 8 + i < w
        · simp [htop]
        · simp [htop, getLsbD_word_of_le rest (show 8 * rest.length ≤ i by omega)]
      have hfirst : absorb poly c b ^^^ word w rest =
          (shift poly)^[8] (c ^^^ word w (b :: rest)) := by
        rw [word, ← BitVec.xor_assoc, iterate_shift_xor, iterate_shift_of_low hlow, hback, absorb]
      rw [feed_cons, ih (by omega), hfirst, ← Function.iterate_add_apply, List.length_cons,
        Nat.mul_succ]

theorem word_injective {bytes bytes' : List (BitVec 8)} (hlength : bytes.length = bytes'.length)
    (hfits : 8 * bytes.length ≤ w) (h : word w bytes = word w bytes') : bytes = bytes' := by
  induction bytes generalizing bytes' with
  | nil => exact (List.length_eq_zero_iff.mp hlength.symm).symm
  | cons b rest ih =>
      obtain ⟨b', rest', rfl⟩ := List.exists_cons_of_length_eq_add_one hlength.symm
      rw [List.length_cons] at hfits
      have hbit : ∀ i < w, (if i < 8 then b.getLsbD i else (word w rest).getLsbD (i - 8)) =
          if i < 8 then b'.getLsbD i else (word w rest').getLsbD (i - 8) := by
        intro i hi
        rw [← getLsbD_word_cons b rest hi, h, getLsbD_word_cons b' rest' hi]
      have hfirst : b = b' := by
        apply BitVec.eq_of_getLsbD_eq
        intro i hi
        have := hbit i (by omega)
        rwa [if_pos hi, if_pos hi] at this
      have hrest : word w rest = word w rest' := by
        apply BitVec.eq_of_getLsbD_eq
        intro i hi
        by_cases htop : i + 8 < w
        · have := hbit (i + 8) htop
          rwa [if_neg (by omega), if_neg (by omega), Nat.add_sub_cancel] at this
        · have hlength' : rest.length = rest'.length := Nat.succ.inj hlength
          rw [getLsbD_word_of_le rest (by omega), getLsbD_word_of_le rest' (by omega)]
      rw [hfirst, ih (Nat.succ.inj hlength) (by omega) hrest]

/-- Two windows that fit the register and differ leave different registers, whatever follows. -/
theorem feed_ne_of_window_ne {poly : BitVec w} (top : poly.msb = true) (c : BitVec w)
    (before after : List (BitVec 8)) {window window' : List (BitVec 8)}
    (hlength : window.length = window'.length) (hfits : 8 * window.length ≤ w)
    (hne : window ≠ window') :
    feed poly c (before ++ window ++ after) ≠ feed poly c (before ++ window' ++ after) := by
  intro h
  rw [feed_append, feed_append, feed_append, feed_append] at h
  have hfits' : 8 * window'.length ≤ w := hlength ▸ hfits
  have hwindow := feed_injective top after h
  rw [@feed_eq_iterate _ _ _ window hfits, @feed_eq_iterate _ _ _ window' hfits', ← hlength]
    at hwindow
  have hword := (BitVec.xor_right_inj _).mp ((shift_injective top).iterate _ hwindow)
  exact hne (word_injective hlength hfits hword)

end Crc

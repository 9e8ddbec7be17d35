import EmbedMq.Transport.Ring

/-!
# The slots of the indices

An index counts modulo `2 ^ 32`, and its slot is taken modulo the number of slots. Between two
wraps of the index the slots follow each other in a circle. At a wrap the circle is cut unless
the number of slots divides `2 ^ 32`.
-/

namespace EmbedMq

/-! ### Remainders across a wrap -/

section Wrap

variable {modulus count start length i j : Nat}

/-- Before a wrap and after it, two numbers have one remainder if their distance is the
remainder of the modulus. -/
theorem mod_eq_across_iff (hbefore : start + i < modulus) (hafter : modulus ≤ start + j)
    (hnear : j - i < count) :
    (start + i) % count = (start + j - modulus) % count ↔ modulus % count = j - i := by
  -- Both sides move up by what is missing to the wrap.
  have hcancel : (start + i) % count = (start + j - modulus) % count ↔
      (start + i + (modulus - (start + i))) % count =
        (start + j - modulus + (modulus - (start + i))) % count :=
    ⟨fun h => Nat.ModEq.add_right _ h, fun h => Nat.ModEq.add_right_cancel' _ h⟩
  have hleft : start + i + (modulus - (start + i)) = modulus := by omega
  have hright : start + j - modulus + (modulus - (start + i)) = j - i := by omega
  rw [hcancel, hleft, hright, Nat.mod_eq_of_lt hnear]

theorem mod_of_after (hstart : start < modulus) (hi : i < modulus) (h : modulus ≤ start + i) :
    (start + i) % modulus = start + i - modulus := by
  rw [Nat.mod_eq_sub_mod h, Nat.mod_eq_of_lt (by omega)]

/-- On the same side of a wrap, the remainders of a window are different. -/
theorem eq_of_mod_eq_window (hlength : length ≤ count) (hi : i < length) (hj : j < length)
    (low : Nat) (h : (low + i) % count = (low + j) % count) : i = j := by
  have heq := Nat.mod_injOn_Ico low count (Finset.mem_Ico.mpr ⟨by omega, by omega⟩)
    (Finset.mem_Ico.mpr ⟨by omega, by omega⟩) h
  omega

/-- When the numbers of a window that may wrap have different remainders. -/
theorem wrapped_inj_iff (hstart : start < modulus) (hcount : length ≤ count)
    (hmodulus : length ≤ modulus) :
    (∀ i j, i < j → j < length → (start + i) % modulus % count ≠ (start + j) % modulus % count) ↔
      start + length ≤ modulus ∨ modulus % count = 0 ∨ length ≤ modulus % count := by
  constructor
  · intro hdistinct
    by_contra hbad
    obtain ⟨hwraps, hrest⟩ := not_or.mp hbad
    obtain ⟨hzero, hshort⟩ := not_or.mp hrest
    -- The two that collide are as far apart as the remainder of the modulus says.
    have hbefore : start + (modulus - start - modulus % count) < modulus := by omega
    have hafter : modulus ≤ start + (modulus - start - modulus % count + modulus % count) := by
      omega
    refine hdistinct (modulus - start - modulus % count)
      (modulus - start - modulus % count + modulus % count) (by omega) (by omega) ?_
    rw [Nat.mod_eq_of_lt hbefore, mod_of_after hstart (by omega) hafter,
      mod_eq_across_iff hbefore hafter (by omega)]
    omega
  · intro hgood i j hij hj heq
    obtain hjBefore | hjAfter := Nat.lt_or_ge (start + j) modulus
    · rw [Nat.mod_eq_of_lt hjBefore, Nat.mod_eq_of_lt (by omega : start + i < modulus)] at heq
      exact absurd (eq_of_mod_eq_window hcount (by omega) hj start heq) (Nat.ne_of_lt hij)
    · obtain hiBefore | hiAfter := Nat.lt_or_ge (start + i) modulus
      · rw [Nat.mod_eq_of_lt hiBefore, mod_of_after hstart (by omega) hjAfter,
          mod_eq_across_iff hiBefore hjAfter (by omega)] at heq
        omega
      · rw [mod_of_after hstart (by omega) hiAfter, mod_of_after hstart (by omega) hjAfter] at heq
        have hlow : ∀ k, modulus ≤ start + k → start + k - modulus + modulus = start + k := by
          omega
        have heq := Nat.ModEq.add_right modulus heq
        rw [hlow i hiAfter, hlow j hjAfter] at heq
        exact absurd (eq_of_mod_eq_window hcount (by omega) hj start heq) (Nat.ne_of_lt hij)

end Wrap

/-! ### The ring -/

namespace ShmRing

variable (g : Geometry)

/-- The index at a distance from another one. -/
theorem toNat_add_ofNat (index : UInt32) (k : Nat) :
    (index + UInt32.ofNat k).toNat = (index.toNat + k) % 2 ^ 32 := by
  rw [UInt32.toNat_add, UInt32.toNat_ofNat', Nat.add_mod_mod]

/-- The indices that are outstanding have different slots. -/
def DistinctSlots (head tail : UInt32) : Prop :=
  ∀ i j, i < j → j < (head - tail).toNat →
    slotOf g (tail + UInt32.ofNat i).toNat ≠ slotOf g (tail + UInt32.ofNat j).toNat

/-- No index is outstanding from before the last wrap, or the circle is not cut at the wrap as
far as it is in use. -/
theorem distinctSlots_iff {head tail : UInt32} (h : head - tail ≤ g.slotCount) :
    DistinctSlots g head tail ↔
      tail.toNat + (head - tail).toNat ≤ 2 ^ 32 ∨ 2 ^ 32 % g.slotCount.toNat = 0 ∨
        (head - tail).toNat ≤ 2 ^ 32 % g.slotCount.toNat := by
  have hle := UInt32.le_iff_toNat_le.mp h
  have hlt := (head - tail).toNat_lt
  rw [← wrapped_inj_iff tail.toNat_lt hle (Nat.le_of_lt hlt)]
  simp only [DistinctSlots, slotOf, toNat_add_ofNat]

/-- A ring whose length divides `2 ^ 32` is the only one without a cut. -/
theorem distinctSlots_always_iff :
    (∀ head tail, head - tail ≤ g.slotCount → DistinctSlots g head tail) ↔
      2 ^ 32 % g.slotCount.toNat = 0 := by
  have hcount := UInt32.le_iff_toNat_le.mp g.slotCount_ge
  constructor
  · intro hall
    -- A full ring whose first index is the last one before the wrap.
    have hfull : g.slotCount + 4294967295 - 4294967295 = g.slotCount := UInt32.add_sub_cancel _ _
    have hle : g.slotCount + 4294967295 - 4294967295 ≤ g.slotCount :=
      UInt32.le_iff_toNat_le.mpr (Nat.le_of_eq (congrArg UInt32.toNat hfull))
    have hdistinct := (distinctSlots_iff g hle).mp (hall _ _ hle)
    rw [hfull] at hdistinct
    have hmod := Nat.mod_lt (2 ^ 32) (Nat.lt_of_lt_of_le Nat.two_pos hcount)
    have hlast : (4294967295 : UInt32).toNat = 4294967295 := rfl
    have htwo : (2 : UInt32).toNat = 2 := rfl
    omega
  · intro hzero head tail h
    exact (distinctSlots_iff g h).mpr (.inr (.inl hzero))

/-- A ring of three slots. -/
def threeSlots : Geometry := ⟨64, 3, smallest.slotSize_ge, by decide⟩

/-- The last index before the wrap and the first one after it share a slot. -/
theorem distinctSlots_wrap :
    ¬∀ g head tail, head - tail ≤ g.slotCount → DistinctSlots g head tail := by
  intro hall
  exact hall threeSlots 1 4294967295 (by decide) 0 1 (by decide) (by decide) (by decide)

theorem distinctSlots_iff_four :
    DistinctSlots threeSlots 4 2 ↔
      (2 : UInt32).toNat + (4 - 2 : UInt32).toNat ≤ 2 ^ 32 ∨
        2 ^ 32 % threeSlots.slotCount.toNat = 0 ∨
        (4 - 2 : UInt32).toNat ≤ 2 ^ 32 % threeSlots.slotCount.toNat :=
  distinctSlots_iff threeSlots (by decide)

end ShmRing

end EmbedMq

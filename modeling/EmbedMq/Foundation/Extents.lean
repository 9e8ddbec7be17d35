import Mathlib.Data.List.Nodup
import Mathlib.Data.List.Pairwise
import Mathlib.Order.Nat

/-!
# Ranges of addresses

An extent is a range of addresses, given by its first one and its size. Extents that are pairwise
apart stay so when each is cut into parts, and there are only as many of them below a bound as
there are addresses.
-/

structure Extent where
  start : Nat
  size : Nat
  deriving DecidableEq

namespace Extent

/-- The first address behind the extent. -/
def stop (e : Extent) : Nat := e.start + e.size

def Covers (e : Extent) (k : Nat) : Prop := e.start ≤ k ∧ k < e.stop

def Apart (e f : Extent) : Prop := e.stop ≤ f.start ∨ f.stop ≤ e.start

def Within (e f : Extent) : Prop := f.start ≤ e.start ∧ e.stop ≤ f.stop

instance (e : Extent) (k : Nat) : Decidable (e.Covers k) :=
  inferInstanceAs (Decidable (_ ∧ _))

instance (e f : Extent) : Decidable (e.Apart f) := inferInstanceAs (Decidable (_ ∨ _))

instance (e f : Extent) : Decidable (e.Within f) := inferInstanceAs (Decidable (_ ∧ _))

variable {e f g : Extent} {extents : List Extent}

theorem Apart.symm (h : e.Apart f) : f.Apart e := Or.symm h

instance : Std.Symm Apart := ⟨fun _ _ h => h.symm⟩

theorem Within.refl (e : Extent) : e.Within e := ⟨Nat.le_refl _, Nat.le_refl _⟩

theorem Within.covers (h : e.Within f) {k : Nat} (hk : e.Covers k) : f.Covers k :=
  ⟨h.1.trans hk.1, hk.2.trans_le h.2⟩

theorem Within.apart (h : e.Within f) (hapart : f.Apart g) : e.Apart g := by
  obtain hle | hle := hapart
  · exact .inl (h.2.trans hle)
  · exact .inr (hle.trans h.1)

theorem Apart.not_covers (h : e.Apart f) {k : Nat} (hk : e.Covers k) : ¬f.Covers k := by
  intro hk'
  obtain hle | hle := h
  · exact absurd (hk.2.trans_le hle) (Nat.not_lt_of_le hk'.1)
  · exact absurd (hk'.2.trans_le hle) (Nat.not_lt_of_le hk.1)

/-- In a list of extents that are pairwise apart, two are the same or apart. -/
theorem apart_or_eq (h : extents.Pairwise Apart) (he : e ∈ extents) (hf : f ∈ extents) :
    e = f ∨ e.Apart f := by
  by_cases heq : e = f
  · exact .inl heq
  · exact .inr (h.forall he hf heq)

theorem pairwise_perm {others : List Extent} (h : extents.Perm others) :
    extents.Pairwise Apart ↔ others.Pairwise Apart :=
  h.pairwise_iff fun hapart => hapart.symm

/-! ### Parts of equal size -/

/-- The part with number `i` of an extent that is cut into parts of one size. -/
def part (start size i : Nat) : Extent := ⟨start + i * size, size⟩

variable {start size n : Nat}

theorem stop_part (i : Nat) : (part start size i).stop = start + (i + 1) * size := by
  rw [stop, part, Nat.succ_mul, Nat.add_assoc]

theorem part_within {i : Nat} (hi : i < n) : (part start size i).Within ⟨start, n * size⟩ := by
  refine ⟨Nat.le_add_right _ _, ?_⟩
  rw [stop_part]
  exact Nat.add_le_add_left (Nat.mul_le_mul_right _ hi) _

theorem part_apart {i j : Nat} (h : i ≠ j) : (part start size i).Apart (part start size j) := by
  obtain hlt | hlt := Nat.lt_or_gt_of_ne h
  · left
    rw [stop_part]
    exact Nat.add_le_add_left (Nat.mul_le_mul_right _ hlt) _
  · right
    rw [stop_part]
    exact Nat.add_le_add_left (Nat.mul_le_mul_right _ hlt) _

theorem pairwise_parts (start size n : Nat) :
    ((List.range n).map (part start size)).Pairwise Apart := by
  rw [List.pairwise_map]
  exact List.nodup_range.imp part_apart

/-! ### How many there are -/

/-- No address is the first one of two extents. -/
theorem nodup_start (h : extents.Pairwise Apart) (hpos : ∀ e ∈ extents, 0 < e.size) :
    (extents.map Extent.start).Nodup := by
  rw [List.Nodup, List.pairwise_map]
  refine h.imp_of_mem fun {e f} he hf hapart heq => ?_
  have he := hpos e he
  have hf := hpos f hf
  rw [Apart, stop, stop] at hapart
  omega

theorem length_lt {bound : Nat} (hbound : 0 < bound) (h : extents.Pairwise Apart)
    (hin : ∀ e ∈ extents, 0 < e.size ∧ 0 < e.start ∧ e.stop ≤ bound) :
    extents.length < bound := by
  have hnodup : (0 :: extents.map Extent.start).Nodup := by
    refine List.nodup_cons.mpr ⟨fun hmem => ?_, nodup_start h fun e he => (hin e he).1⟩
    obtain ⟨e, he, hzero⟩ := List.mem_map.mp hmem
    exact absurd (hin e he).2.1 (hzero ▸ Nat.lt_irrefl _)
  have hsubset : (0 :: extents.map Extent.start) ⊆ List.range bound := by
    intro k hk
    rw [List.mem_range]
    obtain rfl | hk := List.mem_cons.mp hk
    · exact hbound
    · obtain ⟨e, he, rfl⟩ := List.mem_map.mp hk
      obtain ⟨hpos, -, hstop⟩ := hin e he
      exact (Nat.lt_add_of_pos_right hpos).trans_le hstop
  have hle := hnodup.length_le_of_subset hsubset
  rw [List.length_cons, List.length_map, List.length_range] at hle
  exact hle

end Extent

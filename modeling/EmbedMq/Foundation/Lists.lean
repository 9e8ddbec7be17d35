import Mathlib.Algebra.Order.BigOperators.Group.List
import Mathlib.Algebra.Order.Ring.Nat

/-!
# One place of a list

What `List.modify` does to a property of all entries, to a projection that it keeps and to a sum,
and where the entries of a list are after one more is put at its end.
-/

namespace List

variable {α : Type*} {l : List α} {i : ℕ}

theorem forall_mem_modify {P : α → Prop} {f : α → α} (h : ∀ x ∈ l, P x)
    (hf : ∀ x ∈ l, P x → P (f x)) : ∀ x ∈ l.modify i f, P x := by
  intro x hx
  obtain ⟨j, hj⟩ := mem_iff_getElem?.mp hx
  rw [getElem?_modify] at hj
  split at hj
  · obtain ⟨y, hy, rfl⟩ := Option.map_eq_some_iff.mp hj
    exact hf y (mem_of_getElem? hy) (h y (mem_of_getElem? hy))
  · rw [Option.map_eq_map, Option.map_id'] at hj
    exact h x (mem_of_getElem? hj)

theorem map_modify_eq {β : Type*} {f : α → α} {g : α → β} (h : ∀ x, g (f x) = g x) :
    (l.modify i f).map g = l.map g := by
  induction l generalizing i with
  | nil => rw [modify_nil]
  | cons x rest ih =>
      cases i with
      | zero => rw [modify_zero_cons, map_cons, map_cons, h]
      | succ i => rw [modify_succ_cons, map_cons, map_cons, ih]

/-- What one place adds to a sum, before and after it changes. -/
theorem sum_map_modify {x : α} (f : α → α) (g : α → ℕ) (h : l[i]? = some x) :
    ((l.modify i f).map g).sum + g x = (l.map g).sum + g (f x) := by
  induction l generalizing i with
  | nil => cases h
  | cons y rest ih =>
      cases i with
      | zero =>
          obtain rfl := Option.some.inj h
          simp only [modify_zero_cons, map_cons, sum_cons]
          omega
      | succ i =>
          have hrest := ih h
          simp only [modify_succ_cons, map_cons, sum_cons]
          omega

theorem getElem?_concat_eq_some {x y : α} :
    (l ++ [x])[i]? = some y ↔ l[i]? = some y ∨ i = l.length ∧ x = y := by
  obtain hlt | rfl | hgt := lt_trichotomy i l.length
  · rw [getElem?_append_left hlt]
    exact (or_iff_left fun hlast => hlt.ne hlast.1).symm
  · rw [getElem?_concat_length, getElem?_eq_none (Nat.le_refl l.length), Option.some_inj]
    refine ⟨fun hxy => .inr ⟨rfl, hxy⟩, ?_⟩
    rintro (⟨⟨⟩⟩ | ⟨-, hxy⟩)
    exact hxy
  · have hlength : (l ++ [x]).length ≤ i := by
      rw [length_append, length_singleton]
      exact hgt
    rw [getElem?_eq_none hlength, getElem?_eq_none hgt.le]
    refine iff_of_false (by rintro ⟨⟩) ?_
    rintro (⟨⟨⟩⟩ | ⟨hlast, -⟩)
    exact hgt.ne' hlast

end List

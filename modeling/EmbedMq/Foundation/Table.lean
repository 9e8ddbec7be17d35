import Mathlib.Data.List.AList

/-!
# Finite tables

A table has at most one value under each key. It is Mathlib's `AList` with a
constant value type; `lookup`, `insert` and `erase` and their laws are the ones
of `AList`. What is added here is the pass over a whole table that keeps an
entry, changes it or drops it, and its effect on a lookup.
-/

/-- At most one value under each key. -/
abbrev Table (κ β : Type*) := AList fun _ : κ => β

namespace Table

variable {κ β : Type*}

/-- The key-value pairs, in the order of the table. -/
def toList (t : Table κ β) : List (κ × β) :=
  t.entries.map fun entry => (entry.1, entry.2)

/-- Visit every entry; `f` gives the value that stays, or `none` to drop the entry. -/
def sweep (f : κ → β → Option β) (t : Table κ β) : Table κ β where
  entries := t.entries.filterMap fun entry => (f entry.1 entry.2).map (Sigma.mk entry.1)
  nodupKeys := by
    rw [List.nodupKeys_iff_pairwise, List.pairwise_filterMap]
    refine (List.nodupKeys_iff_pairwise.mp t.nodupKeys).imp ?_
    intro a b hne x hx y hy
    obtain ⟨_, _, rfl⟩ := Option.map_eq_some_iff.mp hx
    obtain ⟨_, _, rfl⟩ := Option.map_eq_some_iff.mp hy
    exact hne

theorem nodup_keys (t : Table κ β) : (t.toList.map Prod.fst).Nodup := by
  rw [toList, List.map_map]
  exact t.keys_nodup

theorem nodup_toList (t : Table κ β) : t.toList.Nodup := List.Nodup.of_map _ t.nodup_keys

variable [DecidableEq κ]

theorem mem_toList_iff {t : Table κ β} {k : κ} {v : β} :
    (k, v) ∈ t.toList ↔ t.lookup k = some v := by
  rw [← Option.mem_def, AList.mem_lookup_iff, toList, List.mem_map]
  constructor
  · rintro ⟨⟨k', v'⟩, hmem, hpair⟩
    obtain ⟨rfl, rfl⟩ := Prod.mk.inj hpair
    exact hmem
  · intro hmem
    exact ⟨⟨k, v⟩, hmem, rfl⟩

/-- The pairs under a key. -/
theorem filter_key (t : Table κ β) (k : κ) :
    (t.toList.filter fun entry => entry.1 = k).Perm ((t.lookup k).map (Prod.mk k)).toList := by
  have hvalue : ((t.lookup k).map (Prod.mk k)).toList.Nodup := by
    cases t.lookup k <;> simp
  rw [List.perm_ext_iff_of_nodup (t.nodup_toList.filter _) hvalue]
  rintro ⟨k', v⟩
  rw [List.mem_filter, mem_toList_iff, decide_eq_true_iff, Option.mem_toList,
    Option.map_eq_some_iff]
  constructor
  · rintro ⟨hlookup, rfl⟩
    exact ⟨v, hlookup, rfl⟩
  · rintro ⟨w, hlookup, hpair⟩
    obtain ⟨rfl, rfl⟩ := Prod.mk.inj hpair
    exact ⟨hlookup, rfl⟩

theorem lookup_sweep (f : κ → β → Option β) (t : Table κ β) (k : κ) :
    (t.sweep f).lookup k = (t.lookup k).bind (f k) := by
  apply Option.ext
  intro v
  rw [← Option.mem_def, AList.mem_lookup_iff, Option.bind_eq_some_iff]
  simp only [sweep, List.mem_filterMap, Option.map_eq_some_iff]
  constructor
  · rintro ⟨⟨k', old⟩, hmem, v', hkeep, hpair⟩
    obtain ⟨rfl, hv⟩ := Sigma.mk.inj hpair
    obtain rfl := eq_of_heq hv
    exact ⟨old, AList.mem_lookup_iff.mpr hmem, hkeep⟩
  · rintro ⟨old, hold, hkeep⟩
    exact ⟨⟨k, old⟩, AList.mem_lookup_iff.mp hold, v, hkeep, rfl⟩

theorem lookup_insert_eq (t : Table κ β) (k j : κ) (v : β) :
    (AList.insert j v t).lookup k = if k = j then some v else t.lookup k := by
  by_cases h : k = j
  · rw [if_pos h, h, AList.lookup_insert]
  · rw [if_neg h, AList.lookup_insert_ne h]

theorem lookup_erase_eq (t : Table κ β) (k j : κ) :
    (AList.erase j t).lookup k = if k = j then none else t.lookup k := by
  by_cases h : k = j
  · rw [if_pos h, h, AList.lookup_erase]
  · rw [if_neg h, AList.lookup_erase_ne h]

theorem eq_empty_of_lookup {t : Table κ β} (h : ∀ k, t.lookup k = none) : t = ∅ := by
  apply AList.ext
  cases hentries : t.entries with
  | nil => rfl
  | cons entry rest =>
      have hmem : entry ∈ t.entries := by rw [hentries]; exact List.mem_cons_self
      have hsome := AList.mem_lookup_iff.mpr hmem
      rw [h entry.1] at hsome
      cases hsome

/-! ### Selected keys -/

section Selected

variable (t : Table κ β) (p : β → Prop) [DecidablePred p] {k : κ}

omit [DecidableEq κ] in
theorem nodup_selected :
    (t.toList.filterMap fun entry => if p entry.2 then some entry.1 else none).Nodup := by
  rw [List.Nodup, List.pairwise_filterMap, toList, List.pairwise_map]
  refine (List.nodupKeys_iff_pairwise.mp t.nodupKeys).imp ?_
  intro a b hne x hx y hy
  obtain ⟨_, hfirst⟩ := Option.ite_none_right_eq_some.mp hx
  obtain ⟨_, hsecond⟩ := Option.ite_none_right_eq_some.mp hy
  rw [← Option.some.inj hfirst, ← Option.some.inj hsecond]
  exact hne

variable {t p}

theorem mem_selected :
    k ∈ (t.toList.filterMap fun entry => if p entry.2 then some entry.1 else none) ↔
      ∃ v, t.lookup k = some v ∧ p v := by
  simp only [List.mem_filterMap, Prod.exists, mem_toList_iff, Option.ite_none_right_eq_some,
    Option.some.injEq]
  constructor
  · rintro ⟨k', v, hlookup, hp, rfl⟩
    exact ⟨v, hlookup, hp⟩
  · rintro ⟨v, hlookup, hp⟩
    exact ⟨k, v, hlookup, hp, rfl⟩

/-- What is made of the selected values. -/
theorem mem_selected_map {γ : Type*} {f : β → γ} {x : γ} :
    x ∈ (t.toList.filterMap fun entry => if p entry.2 then some (f entry.2) else none) ↔
      ∃ k v, t.lookup k = some v ∧ p v ∧ f v = x := by
  simp only [List.mem_filterMap, Prod.exists, mem_toList_iff, Option.ite_none_right_eq_some,
    Option.some.injEq]

variable (t p k)

/-- A key is selected once or not at all. -/
theorem count_selected :
    (t.toList.filterMap fun entry => if p entry.2 then some entry.1 else none).count k =
      ((t.lookup k).filter fun v => decide (p v)).isSome.toNat := by
  cases hlookup : (t.lookup k).filter fun v => decide (p v) with
  | none =>
      apply List.count_eq_zero_of_not_mem
      rw [mem_selected]
      rintro ⟨v, hv, hp⟩
      rw [hv, Option.filter_some, decide_eq_true hp] at hlookup
      cases hlookup
  | some v =>
      apply List.count_eq_one_of_mem (nodup_selected t p)
      obtain ⟨hv, hp⟩ := Option.filter_eq_some_iff.mp hlookup
      exact mem_selected.mpr ⟨v, hv, of_decide_eq_true hp⟩

/-- A key is listed once or not at all. -/
theorem count_toList : (t.toList.map Prod.fst).count k = (t.lookup k).isSome.toNat := by
  have h := count_selected t (fun _ => True) k
  simpa using h

end Selected

end Table

import EmbedMq.Foundation.Table
import Mathlib.Order.Lattice

/-!
# Recency queues

A recency queue lists keys with their values, the one that was written longest ago at the
front. A write moves its key to the back, and a limit drops keys from the front.

A list of pairs and a table can have the same contents; `Table.Lists` says that they do. The
front of a queue is the pair that a scan for the least stamp finds, in whatever order the
scan visits the pairs, if the stamps increase from the front to the back.
-/

namespace Table

variable {κ β : Type*} [DecidableEq κ]

/-- The list has the pairs of the table, each once. -/
structure Lists (l : List (κ × β)) (t : Table κ β) : Prop where
  nodup : (l.map Prod.fst).Nodup
  mem_iff : ∀ k v, (k, v) ∈ l ↔ t.lookup k = some v

namespace Lists

theorem nil : Lists ([] : List (κ × β)) ∅ := by
  refine ⟨List.nodup_nil, fun k v => ?_⟩
  simp

variable {l : List (κ × β)} {t : Table κ β} (h : Lists l t)
include h

theorem perm_toList : l.Perm t.toList := by
  have hlist : l.Nodup := List.Nodup.of_map _ h.nodup
  rw [List.perm_ext_iff_of_nodup hlist t.nodup_toList]
  rintro ⟨k, v⟩
  rw [h.mem_iff, mem_toList_iff]

theorem length_eq : t.entries.length = l.length := by
  rw [h.perm_toList.length_eq, toList, List.length_map]

theorem unique {k : κ} {v w : β} (hv : (k, v) ∈ l) (hw : (k, w) ∈ l) : v = w := by
  have hlookup := (h.mem_iff k v).mp hv
  rw [(h.mem_iff k w).mp hw] at hlookup
  exact (Option.some.inj hlookup).symm

theorem erase (k : κ) : Lists (l.filter fun entry => entry.1 ≠ k) (t.erase k) := by
  refine ⟨h.nodup.sublist (List.Sublist.map _ List.filter_sublist), fun k' v => ?_⟩
  rw [List.mem_filter, h.mem_iff, lookup_erase_eq]
  by_cases hk : k' = k
  · simp [hk]
  · simp [hk]

theorem insert (k : κ) (v : β) :
    Lists (l.filter (fun entry => entry.1 ≠ k) ++ [(k, v)]) (t.insert k v) := by
  refine ⟨?_, fun k' v' => ?_⟩
  · rw [List.map_append, List.nodup_append]
    refine ⟨(h.erase k).nodup, by simp, ?_⟩
    intro k' hk' k'' hk''
    obtain ⟨entry, hentry, rfl⟩ := List.mem_map.mp hk'
    have hne : entry.1 ≠ k := by simpa using (List.mem_filter.mp hentry).2
    rw [List.mem_singleton.mp hk'']
    exact hne
  · rw [List.mem_append, (h.erase k).mem_iff, lookup_insert_eq, lookup_erase_eq]
    by_cases hk : k' = k
    · simp [hk, eq_comm]
    · simp [hk]

theorem sweep (p : β → Bool) :
    Lists (l.filter fun entry => p entry.2)
      (t.sweep fun _ v => if p v then some v else none) := by
  refine ⟨h.nodup.sublist (List.Sublist.map _ List.filter_sublist), fun k v => ?_⟩
  rw [List.mem_filter, h.mem_iff, lookup_sweep, Option.bind_eq_some_iff]
  constructor
  · rintro ⟨hlookup, hp⟩
    exact ⟨v, hlookup, by rw [if_pos hp]⟩
  · rintro ⟨w, hlookup, hkeep⟩
    obtain ⟨hp, hw⟩ := Option.ite_none_right_eq_some.mp hkeep
    obtain rfl := Option.some.inj hw
    exact ⟨hlookup, hp⟩

/-- Without the key at the front, the list has the pairs of the table without it. -/
theorem tail {k : κ} {v : β} {rest : List (κ × β)} (hl : l = (k, v) :: rest) :
    Lists rest (t.erase k) := by
  have herase := h.erase k
  have hnodup := h.nodup
  rw [hl, List.map_cons, List.nodup_cons] at hnodup
  rw [hl, List.filter_cons_of_neg (by simp), List.filter_eq_self.mpr] at herase
  · exact herase
  · intro entry hentry
    have hkey := List.mem_map_of_mem (f := Prod.fst) hentry
    have hne : entry.1 ≠ k := fun heq => hnodup.1 (heq ▸ hkey)
    simpa using hne

end Lists

end Table

namespace Recency

variable {κ β : Type*}

/-- Write under a key: the key moves to the back. -/
def touch [DecidableEq κ] (k : κ) (v : β) (q : List (κ × β)) : List (κ × β) :=
  q.filter (fun entry => entry.1 ≠ k) ++ [(k, v)]

/-- Drop from the front while there are more than `limit` pairs; a limit of zero is none. -/
def trim (limit : Nat) : List (κ × β) → List (κ × β)
  | [] => []
  | entry :: rest =>
      if 0 < limit ∧ limit < (entry :: rest).length then trim limit rest else entry :: rest

theorem trim_zero (q : List (κ × β)) : trim 0 q = q := by
  cases q with
  | nil => rfl
  | cons entry rest => rw [trim, if_neg (fun h => absurd h.1 (Nat.lt_irrefl 0))]

theorem trim_eq_drop {limit : Nat} (hlimit : 0 < limit) (q : List (κ × β)) :
    trim limit q = q.drop (q.length - limit) := by
  induction q with
  | nil => simp [trim]
  | cons entry rest ih =>
      rw [trim]
      by_cases hlong : limit < (entry :: rest).length
      · rw [if_pos ⟨hlimit, hlong⟩, ih]
        have hlength : (entry :: rest).length - limit = (rest.length - limit) + 1 := by
          rw [List.length_cons] at hlong ⊢
          omega
        rw [hlength, List.drop_succ_cons]
      · rw [if_neg (fun h => hlong h.2), Nat.sub_eq_zero_of_le (Nat.le_of_not_lt hlong),
          List.drop_zero]

theorem trim_suffix (limit : Nat) (q : List (κ × β)) : trim limit q <:+ q := by
  obtain rfl | hlimit := Nat.eq_zero_or_pos limit
  · exact (trim_zero q).symm ▸ List.suffix_refl q
  · rw [trim_eq_drop hlimit]
    exact List.drop_suffix _ _

/-- The key written last is not dropped. -/
theorem last_mem_trim (limit : Nat) (q : List (κ × β)) (entry : κ × β) :
    entry ∈ trim limit (q ++ [entry]) := by
  obtain rfl | hlimit := Nat.eq_zero_or_pos limit
  · rw [trim_zero]
    simp
  · rw [trim_eq_drop hlimit, List.drop_append_of_le_length]
    · simp
    · rw [List.length_append, List.length_singleton]
      omega

/-! ### Scans -/

section Scan

variable {α τ : Type*} [LinearOrder τ] (stamp : α → τ)

/-- A scan for the least stamp finds an entry that no entry is below. -/
theorem scan_least (first : α) (rest : List α) :
    let found := rest.foldl (fun best entry =>
      if stamp entry < stamp best then entry else best) first
    found ∈ first :: rest ∧ ∀ entry ∈ first :: rest, stamp found ≤ stamp entry := by
  induction rest generalizing first with
  | nil => simp
  | cons second rest ih =>
      rw [List.foldl_cons]
      by_cases hless : stamp second < stamp first
      · rw [if_pos hless]
        obtain ⟨hmem, hleast⟩ := ih second
        refine ⟨List.mem_cons_of_mem _ hmem, fun entry hentry => ?_⟩
        obtain rfl | hentry := List.mem_cons.mp hentry
        · exact le_trans (hleast second List.mem_cons_self) (le_of_lt hless)
        · exact hleast entry hentry
      · rw [if_neg hless]
        obtain ⟨hmem, hleast⟩ := ih first
        refine ⟨?_, fun entry hentry => ?_⟩
        · obtain hfirst | hrest := List.mem_cons.mp hmem
          · rw [hfirst]
            exact List.mem_cons_self
          · exact List.mem_cons_of_mem _ (List.mem_cons_of_mem _ hrest)
        · obtain rfl | hentry := List.mem_cons.mp hentry
          · exact hleast entry List.mem_cons_self
          · obtain rfl | hentry := List.mem_cons.mp hentry
            · exact le_trans (hleast first List.mem_cons_self) (not_lt.mp hless)
            · exact hleast entry (List.mem_cons_of_mem _ hentry)

/-- Whatever the order of the scan, it finds the front of a list with increasing stamps. -/
theorem scan_eq_front {front first : α} {rest queue : List α}
    (hstamps : (front :: queue).Pairwise fun a b => stamp a < stamp b)
    (hperm : (first :: rest).Perm (front :: queue)) :
    rest.foldl (fun best entry => if stamp entry < stamp best then entry else best) first =
      front := by
  obtain ⟨hmem, hleast⟩ := scan_least stamp first rest
  obtain hfront | hqueue := List.mem_cons.mp (hperm.mem_iff.mp hmem)
  · exact hfront
  · have hbelow := (List.pairwise_cons.mp hstamps).1 _ hqueue
    have hle := hleast front (hperm.mem_iff.mpr List.mem_cons_self)
    exact absurd hbelow (not_lt.mpr hle)

end Scan

end Recency

import EmbedMq.Foundation.ByteMemory

/-!
# Lists that are linked through memory

A list is kept in memory by the address of its first node; at every node stands the address of the
next one, and the last node has zero. The links are words of `w` bytes. What is written elsewhere
leaves the list alone.
-/

namespace LinkChain

open ByteMemory

variable {w : Nat} {m m' : Memory} {head n : Nat} {nodes : List Nat}

/-- The nodes of the list that begins at `head`, in order. -/
def Chain (w : Nat) (m : Memory) : Nat → List Nat → Prop
  | head, [] => head = 0
  | head, n :: rest => head = n ∧ n ≠ 0 ∧ Chain w m (load w m n) rest

theorem Chain.head_eq_zero_iff (h : Chain w m head nodes) : head = 0 ↔ nodes = [] := by
  cases nodes with
  | nil => exact iff_of_true h rfl
  | cons n rest => exact iff_of_false (fun hzero => h.2.1 (h.1.symm.trans hzero)) (by simp)

/-- A list depends on the links of its nodes only. -/
theorem Chain.congr (h : Chain w m head nodes)
    (hsame : ∀ n ∈ nodes, load w m' n = load w m n) : Chain w m' head nodes := by
  induction nodes generalizing head with
  | nil => exact h
  | cons n rest ih =>
      obtain ⟨hhead, hne, hrest⟩ := h
      refine ⟨hhead, hne, ?_⟩
      rw [hsame n List.mem_cons_self]
      exact ih hrest fun k hk => hsame k (List.mem_cons_of_mem _ hk)

/-- A node is put in front by writing the old head to it. -/
theorem Chain.push (h : Chain w m head nodes) (hne : n ≠ 0) (hhead : head < 256 ^ w)
    (hapart : ∀ k ∈ nodes, k + w ≤ n ∨ n + w ≤ k) :
    Chain w (store w m n head) n (n :: nodes) := by
  refine ⟨rfl, hne, ?_⟩
  rw [load_store hhead]
  exact h.congr fun k hk => load_store_of_disjoint (hapart k hk)

end LinkChain

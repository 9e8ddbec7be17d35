import EmbedMq.Foundation.LittleEndian

/-!
# Words in a memory of bytes

A memory gives a byte for every address. A word occupies some bytes, in little-endian order; it is
read back as it was written, and a write elsewhere does not change it. Words of 32 bits have
functions of their own.
-/

namespace ByteMemory

abbrev Memory := Nat → UInt8

def load32 (m : Memory) (a : Nat) : UInt32 :=
  UInt32.ofNat (LittleEndian.value [m a, m (a + 1), m (a + 2), m (a + 3)])

def store32 (m : Memory) (a : Nat) (x : UInt32) : Memory := fun k =>
  if a ≤ k ∧ k < a + 4 then (LittleEndian.bytes 4 x.toNat)[k - a]?.getD 0 else m k

variable {m m' : Memory} {a b : Nat}

theorem load32_congr (h : ∀ k, a ≤ k → k < a + 4 → m k = m' k) : load32 m a = load32 m' a := by
  rw [load32, load32, h a (by omega) (by omega), h (a + 1) (by omega) (by omega),
    h (a + 2) (by omega) (by omega), h (a + 3) (by omega) (by omega)]

theorem load32_store32 (x : UInt32) : load32 (store32 m a x) a = x := by
  have hbyte : ∀ i < 4, store32 m a x (a + i) =
      (LittleEndian.bytes 4 x.toNat)[i]?.getD 0 := by
    intro i hi
    rw [store32, if_pos (by omega), Nat.add_sub_cancel_left]
  have hword : [store32 m a x a, store32 m a x (a + 1), store32 m a x (a + 2),
      store32 m a x (a + 3)] = LittleEndian.bytes 4 x.toNat := by
    have hfirst := hbyte 0 (by omega)
    rw [Nat.add_zero] at hfirst
    rw [hfirst, hbyte 1 (by omega), hbyte 2 (by omega), hbyte 3 (by omega)]
    rfl
  rw [load32, hword, LittleEndian.value_bytes_of_lt x.toNat_lt]
  exact UInt32.ofNat_toNat

theorem load32_store32_of_disjoint (x : UInt32) (h : b + 4 ≤ a ∨ a + 4 ≤ b) :
    load32 (store32 m a x) b = load32 m b := by
  refine load32_congr fun k hk hk' => ?_
  rw [store32, if_neg (by omega)]

/-! ### Words of any number of bytes -/

def load (n : Nat) (m : Memory) (a : Nat) : Nat :=
  LittleEndian.value ((List.range n).map fun i => m (a + i))

def store (n : Nat) (m : Memory) (a x : Nat) : Memory := fun k =>
  if a ≤ k ∧ k < a + n then (LittleEndian.bytes n x)[k - a]?.getD 0 else m k

/-- Zeros from an address on. -/
def zero (n : Nat) (m : Memory) (a : Nat) : Memory := fun k =>
  if a ≤ k ∧ k < a + n then 0 else m k

variable {n n' x k : Nat}

theorem load_congr (h : ∀ k, a ≤ k → k < a + n → m' k = m k) : load n m' a = load n m a := by
  have hbytes : ∀ i ∈ List.range n, m' (a + i) = m (a + i) := fun i hi =>
    h (a + i) (Nat.le_add_right a i) (Nat.add_lt_add_left (List.mem_range.mp hi) a)
  rw [load, load, List.map_congr_left hbytes]

theorem load_store (hx : x < 256 ^ n) : load n (store n m a x) a = x := by
  have hbytes : ((List.range n).map fun i => store n m a x (a + i)) =
      LittleEndian.bytes n x := by
    refine List.ext_getElem (by simp) fun i hi hi' => ?_
    rw [LittleEndian.length_bytes] at hi'
    rw [List.getElem_map, List.getElem_range, store, if_pos (by omega), Nat.add_sub_cancel_left,
      List.getElem?_eq_getElem]
    rfl
  rw [load, hbytes, LittleEndian.value_bytes_of_lt hx]

theorem store_of_outside (h : ¬(a ≤ k ∧ k < a + n)) : store n m a x k = m k := if_neg h

theorem zero_of_outside (h : ¬(a ≤ k ∧ k < a + n)) : zero n m a k = m k := if_neg h

theorem load_store_of_disjoint (h : b + n' ≤ a ∨ a + n ≤ b) :
    load n' (store n m a x) b = load n' m b :=
  load_congr fun k hk hk' => store_of_outside (by omega)

end ByteMemory

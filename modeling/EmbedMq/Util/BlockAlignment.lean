import EmbedMq.Util.BlockInvariant

/-!
# Where blocks begin

A slot is as large as the header and the block size together, so only the first slot of a chunk is
sure to begin at a multiple of 16. The others do if the block size is a multiple of 16.
-/

namespace EmbedMq

open LinkChain

namespace FixedBlockPool

variable {cfg : PoolSettings} {s : FixedBlockPool} {free : List Nat}

/-- A call of `allocate` returns a multiple of 16, or null. -/
def Aligned (cfg : PoolSettings) (s : FixedBlockPool) : Prop :=
  ∀ size fresh, enabled cfg 16 s (.allocate size fresh) → header + size < cfg.sizeT.modulus →
    16 ∣ (allocate cfg size fresh s).1

theorem Fits.dvd_slotSize_iff (hfits : Fits cfg) : 16 ∣ slotSize cfg ↔ 16 ∣ userBlockSize cfg := by
  rw [hfits.slotSize_eq, header]
  exact Nat.dvd_add_right (Nat.dvd_refl 16)

/-- Every block begins at a multiple of 16. -/
theorem Holds.dvd_raw (hfits : Fits cfg) (h : Holds cfg 16 s free)
    (hslots : 16 ∣ userBlockSize cfg ∨ blocksPerChunk cfg = 1) {b : LentBlock}
    (hb : b ∈ s.outstanding) : 16 ∣ b.raw := by
  by_cases hover : userBlockSize cfg < b.size
  · exact (h.allocated _ (mem_allocations.mpr (.inr ⟨b, hb, hover, rfl⟩))).2.2
  · have hpool : b ∈ poolBlocks cfg s :=
      List.mem_filter.mpr ⟨hb, decide_eq_true (Nat.le_of_not_lt hover)⟩
    have hblock := h.perm.subset (List.mem_append_right _ (List.mem_map_of_mem hpool))
    obtain ⟨base, hbase, i, hi, hraw⟩ := mem_blocks.mp hblock
    obtain ⟨-, hstop, hdvd⟩ := h.allocated _ (mem_allocations.mpr (.inl ⟨base, hbase, rfl⟩))
    have hstart : b.raw = base + i * slotSize cfg :=
      hraw ▸ congrArg Extent.start (hfits.slot_node hstop hi)
    rw [hstart]
    refine Nat.dvd_add hdvd ?_
    obtain hdvd' | hone := hslots
    · exact Nat.dvd_mul_left_of_dvd (hfits.dvd_slotSize_iff.mpr hdvd') i
    · have hzero : i = 0 := by omega
      rw [hzero, Nat.zero_mul]
      exact Nat.dvd_zero 16

theorem Kept.aligned (hfits : Fits cfg) (h : Kept cfg 16 s)
    (hslots : 16 ∣ userBlockSize cfg ∨ blocksPerChunk cfg = 1) : Aligned cfg s := by
  intro size fresh henabled hsize
  obtain ⟨-, heq⟩ | ⟨-, raw, hpointer, hlent⟩ := allocate_cases hfits size fresh s
  · rw [heq]
    exact Nat.dvd_zero 16
  · obtain ⟨free, hafter, -⟩ := h.allocate hfits henabled hsize
    have hmem : ⟨raw, size⟩ ∈ (FixedBlockPool.allocate cfg size fresh s).2.outstanding :=
      hlent ▸ List.mem_cons_self
    rw [hpointer, hafter.pointer_eq hfits hmem]
    exact Nat.dvd_add (hafter.dvd_raw hfits hslots hmem) (Nat.dvd_refl 16)

/-! ### Two blocks of a chunk -/

/-- As long as there is a free block, nothing is asked for. -/
theorem enabled_of_freeList (h : s.freeList ≠ 0) : enabled cfg 16 s (.allocate 0 0) := by
  refine ⟨cfg.sizeT.modulus_pos, fun n hn => ?_⟩
  rw [request, if_neg (Nat.not_lt_zero _), if_neg fun hlist => h hlist.1] at hn
  cases hn

/-- The pointer to the first free block, and what is left. -/
theorem allocate_of_chain (hfits : Fits cfg) {n : Nat} (h : Holds cfg 16 s (n :: free)) :
    (allocate cfg 0 0 s).1 = n + header ∧ Holds cfg 16 (allocate cfg 0 0 s).2 free := by
  obtain ⟨hhead, hne, -⟩ := h.chain
  have hrun : allocate cfg 0 0 s = take cfg 0 s := by
    rw [allocate, if_neg (Nat.not_lt_zero _), if_neg (hhead ▸ hne)]
  obtain ⟨-, hstop, hsize⟩ := h.cell_bounds hfits (c := slot cfg n) List.mem_cons_self
  change n + slotSize cfg ≤ _ at hstop
  have hheader := hfits.header_lt
  rw [hrun]
  refine ⟨?_, h.take hfits (Nat.zero_le _)⟩
  change (s.freeList + header) % _ = _
  rw [hhead]
  exact Nat.mod_eq_of_lt (by omega)

/-- The two last slots of a chunk are handed out first. -/
theorem chunkNodes_reverse (cfg : PoolSettings) (base : Nat) {k : Nat}
    (hk : blocksPerChunk cfg = k + 2) : ∃ rest, (chunkNodes cfg base).reverse =
      node cfg base (k + 1) :: node cfg base k :: rest := by
  refine ⟨((List.range k).map (node cfg base)).reverse, ?_⟩
  rw [chunkNodes, hk, List.range_succ, List.range_succ]
  simp

theorem Fits.header_lt_modulus (hfits : Fits cfg) : header < cfg.sizeT.modulus :=
  (Nat.le_add_right _ _).trans_lt hfits.slot_lt

/-- Two slots that follow each other begin at multiples of 16 only if their size is one. -/
theorem dvd_of_aligned (hfits : Fits cfg) {n n' : Nat} (hnext : n = n' + slotSize cfg)
    (h : Holds cfg 16 s (n :: n' :: free)) (hfirst : Aligned cfg s)
    (hsecond : Aligned cfg (allocate cfg 0 0 s).2) : 16 ∣ userBlockSize cfg := by
  obtain ⟨hpointer, hrest⟩ := allocate_of_chain hfits h
  obtain ⟨hpointer', -⟩ := allocate_of_chain hfits hrest
  have hlist : s.freeList ≠ 0 := h.chain.1 ▸ h.chain.2.1
  have hlist' : (allocate cfg 0 0 s).2.freeList ≠ 0 := hrest.chain.1 ▸ hrest.chain.2.1
  have hdvd := hfirst 0 0 (enabled_of_freeList hlist) hfits.header_lt_modulus
  have hdvd' := hsecond 0 0 (enabled_of_freeList hlist') hfits.header_lt_modulus
  rw [hpointer, hnext, Nat.add_right_comm] at hdvd
  rw [hpointer'] at hdvd'
  exact hfits.dvd_slotSize_iff.mp ((Nat.dvd_add_right hdvd').mp hdvd)

theorem aligned_iff (hfits : Fits cfg) (hinit : (system cfg 16).init s) :
    (∀ labels, ((system cfg 16).restrict (SizeFits cfg)).Admits s labels →
        Aligned cfg ((system cfg 16).exec s labels)) ↔
      16 ∣ userBlockSize cfg ∨ blocksPerChunk cfg = 1 := by
  constructor
  · intro haligned
    by_contra hslots
    obtain ⟨hslots, hone⟩ := not_or.mp hslots
    obtain ⟨memory, base, hfresh, rfl⟩ := hinit
    have hpos := blocksPerChunk_pos cfg
    obtain ⟨k, hk⟩ : ∃ k, blocksPerChunk cfg = k + 2 := ⟨blocksPerChunk cfg - 2, by omega⟩
    obtain ⟨rest, hrest⟩ := chunkNodes_reverse cfg base hk
    have hholds := (holds_empty cfg 16 memory).grow hfits hfresh
    rw [hrest, List.append_nil] at hholds
    have hnode : ∀ i < k + 2, node cfg base i = base + i * slotSize cfg := fun i hi =>
      congrArg Extent.start (hfits.slot_node hfresh.stop_le (hk ▸ hi))
    have hnext : node cfg base (k + 1) = node cfg base k + slotSize cfg := by
      rw [hnode (k + 1) (by omega), hnode k (by omega), Nat.succ_mul, Nat.add_assoc]
    have henabled : enabled cfg 16 (create cfg memory base) (.allocate 0 0) :=
      enabled_of_freeList (hholds.chain.1 ▸ hholds.chain.2.1)
    exact hslots (dvd_of_aligned hfits hnext hholds (haligned [] trivial)
      (haligned [.allocate 0 0] ⟨⟨henabled, hfits.header_lt_modulus⟩, trivial⟩))
  · intro hslots labels hadmits
    have hreach : ((system cfg 16).restrict (SizeFits cfg)).Reachable s := .init hinit
    exact (kept_of_reachable hfits (hreach.exec hadmits)).aligned hfits hslots

/-- Four blocks of 24 bytes. -/
def oddBlocks : PoolSettings where
  blockSize := 24
  initialBlocks := 4
  blockSize_lt := by decide
  initialBlocks_lt := by decide

/-- The pool of these blocks at address 4096. -/
def oddBlocksPool : FixedBlockPool := create oddBlocks (fun _ => 0) 4096

theorem aligned_iff_oddBlocks :
    (∀ labels, ((system oddBlocks 16).restrict (SizeFits oddBlocks)).Admits oddBlocksPool labels →
        Aligned oddBlocks ((system oddBlocks 16).exec oddBlocksPool labels)) ↔
      16 ∣ userBlockSize oddBlocks ∨ blocksPerChunk oddBlocks = 1 :=
  aligned_iff ⟨by decide, by decide⟩ ⟨_, _, by decide, rfl⟩

theorem not_aligned_oddBlocks : Fits oddBlocks ∧ (system oddBlocks 16).init oddBlocksPool ∧
    enabled oddBlocks 16 oddBlocksPool (.allocate 24 0) ∧
      (allocate oddBlocks 24 0 oddBlocksPool).1 = 4232 ∧
        ¬Aligned oddBlocks oddBlocksPool := by
  have hpointer : (allocate oddBlocks 24 0 oddBlocksPool).1 = 4232 := by decide
  have henabled : enabled oddBlocks 16 oddBlocksPool (.allocate 24 0) := ⟨by decide, by decide⟩
  refine ⟨⟨by decide, by decide⟩, ⟨_, _, by decide, rfl⟩, henabled, hpointer, fun haligned => ?_⟩
  have hdvd := haligned 24 0 henabled (by decide)
  rw [hpointer] at hdvd
  exact absurd hdvd (by decide)

end FixedBlockPool

end EmbedMq

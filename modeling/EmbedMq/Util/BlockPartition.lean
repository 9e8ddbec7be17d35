import EmbedMq.Util.BlockInvariant

/-!
# Blocks, free and lent

Whatever is allocated and returned, the blocks of the chunks are divided among the free list and the
callers, and no two callers have a byte in common. The sum of the header and the size of an
oversized block is not checked: a request that makes it wrap gets a block without room for it.
-/

namespace EmbedMq

open ByteMemory LinkChain

namespace FixedBlockPool

variable {cfg : PoolSettings} {align : Nat} {s : FixedBlockPool}

/-- What the pool promises between two calls. -/
structure Sound (cfg : PoolSettings) (align : Nat) (s : FixedBlockPool) : Prop where
  /-- The free blocks and the lent ones are the blocks of the chunks. -/
  partition : ∃ free, Chain cfg.sizeT.pointerSize s.memory s.freeList free ∧
    (free ++ (poolBlocks cfg s).map LentBlock.raw).Perm (blocks cfg s)
  distinct : (blocks cfg s).Nodup
  total : s.totalBlocks = (blocks cfg s).length
  inUse : s.inUse = (poolBlocks cfg s).length
  pointer : ∀ b ∈ s.outstanding, pointer cfg b.raw = (userRange cfg b).start
  large : ∀ b ∈ s.outstanding, b.size ≤ (userRange cfg b).size
  owned : ∀ b ∈ s.outstanding, ∃ e ∈ allocations cfg s, (userRange cfg b).Within e
  disjoint : (s.outstanding.map (userRange cfg)).Pairwise Extent.Apart
  null : ∀ size fresh, enabled cfg align s (.allocate size fresh) →
    header + size < cfg.sizeT.modulus → ((allocate cfg size fresh s).1 = 0 ↔
      size ≤ userBlockSize cfg ∧ s.freeList = 0 ∧ cfg.allowGrow = false)

section Facts

variable {free : List Nat} (hfits : Fits cfg) (h : Holds cfg align s free)
include hfits h

theorem Holds.nodup_blocks : (blocks cfg s).Nodup := by
  have hstarts := Extent.nodup_start h.apart fun c hc =>
    Nat.zero_lt_of_lt (h.cell_bounds hfits hc).2.2
  have hraws : (free ++ s.outstanding.map LentBlock.raw).Nodup := by
    rw [cells, List.map_append, List.map_map, List.map_map] at hstarts
    rw [← List.map_id free]
    exact hstarts
  refine h.perm.nodup_iff.mp (hraws.sublist ?_)
  exact (List.Sublist.refl free).append (List.filter_sublist.map _)

theorem Holds.size_le_userRange {b : LentBlock} (hb : b ∈ s.outstanding) :
    b.size ≤ (userRange cfg b).size := by
  change b.size ≤ (extent cfg b).size - header
  by_cases hover : userBlockSize cfg < b.size
  · rw [extent_of_lt hover (h.sizes b hb), Nat.add_sub_cancel_left]
  · have hle := Nat.le_of_not_lt hover
    rw [extent_of_le hle, slot, hfits.slotSize_eq, Nat.add_sub_cancel_left]
    exact hle

theorem Holds.disjoint : (s.outstanding.map (userRange cfg)).Pairwise Extent.Apart := by
  have hextents := (List.pairwise_append.mp h.apart).2.1
  rw [List.pairwise_map] at hextents ⊢
  refine hextents.imp_of_mem fun hb hc hapart => ?_
  exact ((h.userRange_within hfits hc).apart
    ((h.userRange_within hfits hb).apart hapart).symm).symm

end Facts

theorem sound_of_sizesFit (hfits : Fits cfg)
    (h : ((system cfg align).restrict (SizeFits cfg)).Reachable s) : s.Sound cfg align := by
  have hkept := kept_of_reachable hfits h
  obtain ⟨free, hholds, hcounted⟩ := kept_of_reachable hfits h
  refine ⟨⟨free, hholds.chain, hholds.perm⟩, hholds.nodup_blocks hfits, hcounted.total,
    hcounted.inUse, fun b hb => hholds.pointer_eq hfits hb,
    fun b hb => hholds.size_le_userRange hfits hb, fun b hb => ?_, hholds.disjoint hfits,
    fun size fresh henabled hsize => ?_⟩
  · obtain ⟨e, he, hwithin⟩ := hholds.cell_within hfits (extent_mem_cells hb)
    have hrange := hholds.userRange_within hfits hb
    exact ⟨e, he, hwithin.1.trans hrange.1, hrange.2.trans hwithin.2⟩
  · obtain ⟨hnull, heq⟩ | ⟨hnull, raw, hpointer, hlent⟩ := allocate_cases hfits size fresh s
    · exact iff_of_true (congrArg Prod.fst heq) hnull
    · obtain ⟨free', hafter, -⟩ := hkept.allocate hfits henabled hsize
      have hraw := hafter.pointer_eq hfits (hlent ▸ List.mem_cons_self)
      refine iff_of_false (fun hzero => ?_) hnull
      rw [hpointer, hraw] at hzero
      exact absurd hzero (by rw [header]; omega)

/-- Two blocks of 64 bytes. -/
def twoBlocks : PoolSettings where
  blockSize := 64
  initialBlocks := 2
  allowGrow := false
  blockSize_lt := by decide
  initialBlocks_lt := by decide

theorem fits_twoBlocks : Fits twoBlocks := ⟨by decide, by decide⟩

/-- The pool of these blocks at address 4096. -/
def twoBlocksPool : FixedBlockPool := create twoBlocks (fun _ => 0) 4096

theorem init_twoBlocksPool : (system twoBlocks 16).init twoBlocksPool :=
  ⟨_, _, by decide, rfl⟩

/-- All blocks and an oversized one are lent, and one comes back. -/
def lending : List Label :=
  [.allocate 64 0, .allocate 100 8192, .allocate 1 0, .allocate 1 0, .deallocate 4192]

theorem sound_lending : ((system twoBlocks 16).exec twoBlocksPool lending).Sound twoBlocks 16 := by
  have hinit : ((system twoBlocks 16).restrict (SizeFits twoBlocks)).Reachable twoBlocksPool :=
    .init init_twoBlocksPool
  have hadmits : ((system twoBlocks 16).restrict (SizeFits twoBlocks)).Admits twoBlocksPool
      lending :=
    ⟨⟨⟨by decide, by decide⟩, by decide⟩, ⟨⟨by decide, by decide⟩, by decide⟩,
      ⟨⟨by decide, by decide⟩, by decide⟩, ⟨⟨by decide, by decide⟩, by decide⟩,
      ⟨.inr ⟨⟨4176, 64⟩, by decide, by decide⟩, trivial⟩, trivial⟩
  exact sound_of_sizesFit fits_twoBlocks (hinit.exec hadmits)

/-- A size with which the sum wraps is lent without room for it. -/
theorem not_sound_of_wrap (hfits : Fits cfg) {size fresh : Nat}
    (hwrap : cfg.sizeT.modulus ≤ header + size) (hlt : size < cfg.sizeT.modulus) :
    ¬(allocate cfg size fresh s).2.Sound cfg align := by
  have hslot := hfits.slot_lt
  have hover : userBlockSize cfg < size := by omega
  have hsize : (userRange cfg ⟨fresh, size⟩).size = oversize cfg size - header := by
    rw [userRange, extent, if_pos hover]
  have hsum : oversize cfg size = header + size - cfg.sizeT.modulus := by
    rw [oversize, Nat.mod_eq_sub_mod hwrap]
    exact Nat.mod_eq_of_lt (by omega)
  intro hsound
  have hlarge := hsound.large ⟨fresh, size⟩ (by
    rw [allocate, if_pos hover]
    exact List.mem_cons_self)
  rw [hsize, hsum] at hlarge
  change size ≤ _ at hlarge
  omega

/-- The pool after a request for all but one of the bytes that there are. -/
def longestLent : FixedBlockPool :=
  (system twoBlocks 16).next twoBlocksPool (.allocate (2 ^ 64 - 1) 8192)

theorem not_sound_longestLent : Fits twoBlocks ∧ (system twoBlocks 16).Reachable longestLent ∧
    ¬longestLent.Sound twoBlocks 16 := by
  have hinit : (system twoBlocks 16).Reachable twoBlocksPool := .init init_twoBlocksPool
  have henabled : (system twoBlocks 16).enabled twoBlocksPool (.allocate (2 ^ 64 - 1) 8192) :=
    ⟨by decide, by decide⟩
  exact ⟨fits_twoBlocks, hinit.step henabled,
    not_sound_of_wrap fits_twoBlocks (by decide) (by decide)⟩

end FixedBlockPool

end EmbedMq

import EmbedMq.Util.BlockPool
import Mathlib.Data.List.Flatten

/-!
# Who has which block

Free blocks, lent blocks and oversized blocks occupy memory that is pairwise apart, and each lies in
memory that the pool was given. So a header is written by the pool only, a link is found as it was
written, and a tag tells how a block was handed out. A block of a chunk is either on the free list
or lent, whatever was called in which order.
-/

namespace EmbedMq

open ByteMemory LinkChain

namespace FixedBlockPool

variable {cfg : PoolSettings} {align : Nat} {s : FixedBlockPool} {free : List Nat}

/-! ### Sizes -/

theorem pointerSize_le (sz : SizeT) : sz.pointerSize ≤ 8 := by
  cases sz <;> decide

theorem userBlockSize_pos (cfg : PoolSettings) : 0 < userBlockSize cfg := by
  have hpos : 0 < cfg.sizeT.pointerSize := by
    cases cfg.sizeT <;> decide
  rw [userBlockSize]
  split
  · exact hpos
  · omega

theorem blocksPerChunk_pos (cfg : PoolSettings) : 0 < blocksPerChunk cfg := by
  rw [blocksPerChunk]
  split <;> omega

theorem Fits.slotSize_eq (hfits : Fits cfg) : slotSize cfg = header + userBlockSize cfg :=
  Nat.mod_eq_of_lt hfits.slot_lt

theorem Fits.chunkSize_eq (hfits : Fits cfg) :
    chunkSize cfg = blocksPerChunk cfg * slotSize cfg := by
  rw [chunkSize, hfits.slotSize_eq, Nat.mod_eq_of_lt hfits.chunk_lt, Nat.mul_comm]

theorem Fits.header_lt (hfits : Fits cfg) : header < slotSize cfg := by
  rw [hfits.slotSize_eq]
  exact Nat.lt_add_of_pos_right (userBlockSize_pos cfg)

/-- Within the memory of a chunk the address of a slot does not wrap. -/
theorem Fits.slot_node (hfits : Fits cfg) {base i : Nat}
    (hstop : base + chunkSize cfg ≤ cfg.sizeT.modulus) (hi : i < blocksPerChunk cfg) :
    slot cfg (node cfg base i) = Extent.part base (slotSize cfg) i := by
  have hpart : (Extent.part base (slotSize cfg) i).stop ≤
      base + blocksPerChunk cfg * slotSize cfg := (Extent.part_within hi).2
  rw [← hfits.chunkSize_eq, Extent.stop_part, Nat.succ_mul] at hpart
  have hlt := hfits.header_lt
  have hnode : node cfg base i = base + i * slotSize cfg := Nat.mod_eq_of_lt (by omega)
  rw [slot, hnode]
  rfl

theorem extent_of_le {b : LentBlock} (h : b.size ≤ userBlockSize cfg) :
    extent cfg b = slot cfg b.raw := by
  rw [extent, if_neg (Nat.not_lt.mpr h), slot]

theorem extent_of_lt {b : LentBlock} (h : userBlockSize cfg < b.size)
    (hsize : header + b.size < cfg.sizeT.modulus) :
    extent cfg b = ⟨b.raw, header + b.size⟩ := by
  rw [extent, if_pos h, oversize, Nat.mod_eq_of_lt hsize]

theorem mem_allocations {e : Extent} : e ∈ allocations cfg s ↔
    (∃ base ∈ s.chunks, ⟨base, chunkSize cfg⟩ = e) ∨
      ∃ b ∈ s.outstanding, userBlockSize cfg < b.size ∧ extent cfg b = e := by
  rw [allocations, List.mem_append, List.mem_map, List.mem_map]
  simp [oversized, and_assoc]

/-- With fewer blocks lent, the pool has no other memory. -/
theorem mem_allocations_of_subset {outstanding : List LentBlock}
    (hsub : ∀ b ∈ outstanding, b ∈ s.outstanding) {e : Extent}
    (he : e ∈ allocations cfg { s with outstanding }) : e ∈ allocations cfg s := by
  obtain hchunk | ⟨b, hb, hover⟩ := mem_allocations.mp he
  · exact mem_allocations.mpr (.inl hchunk)
  · exact mem_allocations.mpr (.inr ⟨b, hsub b hb, hover⟩)

theorem mem_blocks {n : Nat} : n ∈ blocks cfg s ↔
    ∃ base ∈ s.chunks, ∃ i < blocksPerChunk cfg, node cfg base i = n := by
  simp [blocks]

/-! ### The invariant -/

/-- The memory of the blocks, free or lent. -/
def cells (cfg : PoolSettings) (s : FixedBlockPool) (free : List Nat) : List Extent :=
  free.map (slot cfg) ++ s.outstanding.map (extent cfg)

theorem slot_mem_cells {n : Nat} (hn : n ∈ free) : slot cfg n ∈ cells cfg s free :=
  List.mem_append_left _ (List.mem_map_of_mem hn)

theorem extent_mem_cells {b : LentBlock} (hb : b ∈ s.outstanding) :
    extent cfg b ∈ cells cfg s free :=
  List.mem_append_right _ (List.mem_map_of_mem hb)

/-- The free list is `free`. -/
structure Holds (cfg : PoolSettings) (align : Nat) (s : FixedBlockPool) (free : List Nat) :
    Prop where
  chain : Chain cfg.sizeT.pointerSize s.memory s.freeList free
  perm : (free ++ (poolBlocks cfg s).map LentBlock.raw).Perm (blocks cfg s)
  apart : (cells cfg s free).Pairwise Extent.Apart
  allocated : ∀ e ∈ allocations cfg s, 0 < e.start ∧ e.stop ≤ cfg.sizeT.modulus ∧ align ∣ e.start
  sizes : ∀ b ∈ s.outstanding, header + b.size < cfg.sizeT.modulus
  tags : ∀ b ∈ s.outstanding, readTag b.raw s.memory =
    if userBlockSize cfg < b.size then tagOversized else tagPool

/-- What the two counters count. -/
structure Counted (cfg : PoolSettings) (s : FixedBlockPool) : Prop where
  total : s.totalBlocks = (blocks cfg s).length
  inUse : s.inUse = (poolBlocks cfg s).length

section Facts

variable (hfits : Fits cfg) (h : Holds cfg align s free)
include hfits h

/-- A block of a chunk lies in it. -/
theorem Holds.slot_within {n : Nat} (hn : n ∈ blocks cfg s) :
    ∃ base ∈ s.chunks, (slot cfg n).Within ⟨base, chunkSize cfg⟩ := by
  obtain ⟨base, hbase, i, hi, rfl⟩ := mem_blocks.mp hn
  have hstop := (h.allocated _ (mem_allocations.mpr (.inl ⟨base, hbase, rfl⟩))).2.1
  refine ⟨base, hbase, ?_⟩
  rw [hfits.slot_node hstop hi, hfits.chunkSize_eq]
  exact Extent.part_within hi

theorem Holds.cell_within {c : Extent} (hc : c ∈ cells cfg s free) :
    ∃ e ∈ allocations cfg s, c.Within e := by
  have hslot : ∀ n ∈ blocks cfg s, ∃ e ∈ allocations cfg s, (slot cfg n).Within e := by
    intro n hn
    obtain ⟨base, hbase, hwithin⟩ := h.slot_within hfits hn
    exact ⟨_, mem_allocations.mpr (.inl ⟨base, hbase, rfl⟩), hwithin⟩
  obtain hc | hc := List.mem_append.mp hc
  · obtain ⟨n, hn, rfl⟩ := List.mem_map.mp hc
    exact hslot n (h.perm.subset (List.mem_append_left _ hn))
  · obtain ⟨b, hb, rfl⟩ := List.mem_map.mp hc
    by_cases hsize : userBlockSize cfg < b.size
    · exact ⟨_, mem_allocations.mpr (.inr ⟨b, hb, hsize, rfl⟩), Extent.Within.refl _⟩
    · have hle := Nat.le_of_not_lt hsize
      rw [extent_of_le hle]
      refine hslot b.raw (h.perm.subset (List.mem_append_right _ (List.mem_map_of_mem ?_)))
      exact List.mem_filter.mpr ⟨hb, decide_eq_true hle⟩

theorem Holds.cell_bounds {c : Extent} (hc : c ∈ cells cfg s free) :
    0 < c.start ∧ c.stop ≤ cfg.sizeT.modulus ∧ header < c.size := by
  obtain ⟨e, he, hstart, hstop⟩ := h.cell_within hfits hc
  obtain ⟨hpos, hle, -⟩ := h.allocated e he
  refine ⟨hpos.trans_le hstart, hstop.trans hle, ?_⟩
  obtain hc | hc := List.mem_append.mp hc
  · obtain ⟨n, -, rfl⟩ := List.mem_map.mp hc
    exact hfits.header_lt
  · obtain ⟨b, hb, rfl⟩ := List.mem_map.mp hc
    by_cases hsize : userBlockSize cfg < b.size
    · rw [extent_of_lt hsize (h.sizes b hb)]
      exact Nat.lt_add_of_pos_right (Nat.zero_lt_of_lt hsize)
    · rw [extent_of_le (Nat.le_of_not_lt hsize)]
      exact hfits.header_lt

theorem Holds.length_lt : free.length + s.outstanding.length < cfg.sizeT.modulus := by
  have hlt := Extent.length_lt cfg.sizeT.modulus_pos h.apart fun c hc => by
    obtain ⟨hpos, hstop, hsize⟩ := h.cell_bounds hfits hc
    exact ⟨Nat.zero_lt_of_lt hsize, hpos, hstop⟩
  rw [cells, List.length_append, List.length_map, List.length_map] at hlt
  exact hlt

theorem Holds.freeList_lt : s.freeList < cfg.sizeT.modulus := by
  have hchain := h.chain
  cases free with
  | nil =>
      rw [hchain.head_eq_zero_iff.mpr rfl]
      exact cfg.sizeT.modulus_pos
  | cons n rest =>
      obtain ⟨-, hstop, hsize⟩ := h.cell_bounds hfits (c := slot cfg n) List.mem_cons_self
      rw [hchain.1]
      exact (Nat.lt_add_of_pos_right (Nat.zero_lt_of_lt hsize)).trans_le hstop

theorem Holds.userRange_within {b : LentBlock} (hb : b ∈ s.outstanding) :
    (userRange cfg b).Within (extent cfg b) := by
  have hsize := (h.cell_bounds hfits (extent_mem_cells hb)).2.2
  refine ⟨Nat.le_add_right _ _, ?_⟩
  change b.raw + header + ((extent cfg b).size - header) ≤ b.raw + (extent cfg b).size
  omega

/-- The header of a block is not lent. -/
theorem Holds.header_private {c : Extent} (hc : c ∈ cells cfg s free) {k : Nat}
    (hk : c.start ≤ k) (hk' : k < c.start + header) : Private cfg s k := by
  have hcovers : c.Covers k :=
    ⟨hk, hk'.trans (Nat.add_lt_add_left (h.cell_bounds hfits hc).2.2 _)⟩
  obtain ⟨e, he, hwithin⟩ := h.cell_within hfits hc
  refine ⟨⟨e, he, hwithin.covers hcovers⟩, fun b hb hlent => ?_⟩
  obtain rfl | hapart := Extent.apart_or_eq h.apart hc (extent_mem_cells hb)
  · exact absurd hlent.1 (Nat.not_le_of_lt hk')
  · exact hapart.not_covers hcovers ((h.userRange_within hfits hb).covers hlent)

end Facts

/-! ### Writing a header -/

theorem load_store_of_apart {e c : Extent} {w w' x : Nat} {m : Memory} (h : e.Apart c)
    (hw : w ≤ e.size) (hw' : w' ≤ c.size) :
    load w' (store w m e.start x) c.start = load w' m c.start := by
  refine load_store_of_disjoint ?_
  rw [Extent.Apart, Extent.stop, Extent.stop] at h
  omega

/-- The memory may change outside of the headers. -/
theorem Holds.of_headers (h : Holds cfg align s free) {memory : Memory}
    (hsame : ∀ c ∈ cells cfg s free, ∀ k, c.start ≤ k → k < c.start + header →
      memory k = s.memory k) : Holds cfg align { s with memory } free := by
  have hload : ∀ w ≤ header, ∀ c ∈ cells cfg s free,
      load w memory c.start = load w s.memory c.start := fun w hw c hc =>
    load_congr fun k hk hk' => hsame c hc k hk (hk'.trans_le (Nat.add_le_add_left hw _))
  refine ⟨h.chain.congr fun n hn => ?_, h.perm, h.apart, h.allocated, h.sizes, fun b hb => ?_⟩
  · exact hload _ ((pointerSize_le _).trans (by decide)) (slot cfg n)
      (slot_mem_cells hn)
  · exact (hload 8 (by decide) _ (extent_mem_cells hb)).trans (h.tags b hb)

/-- A tag fits into a block that is larger than its header. -/
theorem word_le {n : Nat} (h : header < n) : 8 ≤ n := by
  rw [header] at h
  omega

theorem chain_writeTag (hfits : Fits cfg) {e : Extent} {m : Memory} {head tag : Nat}
    (h : Chain cfg.sizeT.pointerSize m head free) (he : header < e.size)
    (hapart : ∀ n ∈ free, e.Apart (slot cfg n)) :
    Chain cfg.sizeT.pointerSize (writeTag e.start tag m) head free := by
  refine h.congr fun n hn => load_store_of_apart (hapart n hn) (word_le he) ?_
  exact (pointerSize_le _).trans (word_le hfits.header_lt)

/-- The tags of other blocks stay as they are. -/
theorem Holds.tags_store (h : Holds cfg align s free) (hfits : Fits cfg) {e : Extent} {w x : Nat}
    (hw : w ≤ e.size) {b : LentBlock} (hb : b ∈ s.outstanding) (hapart : e.Apart (extent cfg b)) :
    readTag b.raw (store w s.memory e.start x) =
      if userBlockSize cfg < b.size then tagOversized else tagPool := by
  have hsize := (h.cell_bounds hfits (extent_mem_cells hb)).2.2
  rw [header] at hsize
  exact (load_store_of_apart hapart hw (by omega)).trans (h.tags b hb)

/-! ### Handing out -/

theorem poolBlocks_take (s : FixedBlockPool) {size : Nat} (h : size ≤ userBlockSize cfg) :
    poolBlocks cfg (take cfg size s).2 = ⟨s.freeList, size⟩ :: poolBlocks cfg s :=
  List.filter_cons_of_pos (decide_eq_true h)

/-- The first free block is lent. -/
theorem Holds.take (hfits : Fits cfg) {n size : Nat} (h : Holds cfg align s (n :: free))
    (hsize : size ≤ userBlockSize cfg) : Holds cfg align (take cfg size s).2 free := by
  obtain ⟨rfl, hne, hchain⟩ := h.chain
  have hextent : extent cfg ⟨s.freeList, size⟩ = slot cfg s.freeList := extent_of_le hsize
  have hcells : (slot cfg s.freeList :: cells cfg s free).Pairwise Extent.Apart := h.apart
  obtain ⟨hapart, -⟩ := List.pairwise_cons.mp hcells
  have hslot : header < (slot cfg s.freeList).size := hfits.header_lt
  have hover : oversized cfg (FixedBlockPool.take cfg size s).2 = oversized cfg s :=
    List.filter_cons_of_neg (by simpa using hsize)
  refine ⟨?_, ?_, ?_, ?_, ?_, ?_⟩
  · exact chain_writeTag hfits hchain hslot fun k hk =>
      hapart _ (List.mem_append_left _ (List.mem_map_of_mem hk))
  · rw [poolBlocks_take s hsize]
    exact List.perm_middle.trans h.perm
  · refine (Extent.pairwise_perm ?_).mp hcells
    rw [cells, cells, FixedBlockPool.take, List.map_cons, hextent]
    exact List.perm_middle.symm
  · rw [allocations, hover]
    exact h.allocated
  · intro b hb
    obtain rfl | hb := List.mem_cons.mp hb
    · exact (Nat.add_le_add_left hsize _).trans_lt hfits.slot_lt
    · exact h.sizes b hb
  · intro b hb
    obtain rfl | hb := List.mem_cons.mp hb
    · rw [if_neg (Nat.not_lt.mpr hsize)]
      exact load_store (by decide)
    · exact h.tags_store hfits (word_le hslot) hb (hapart _ (extent_mem_cells hb))

/-- What is new is apart from every block. -/
theorem Holds.apart_of_fresh (h : Holds cfg align s free) (hfits : Fits cfg) {size fresh : Nat}
    (hfresh : Fresh cfg align s size fresh) {c : Extent} (hc : c ∈ cells cfg s free) :
    Extent.Apart ⟨fresh, size⟩ c := by
  obtain ⟨e, he, hwithin⟩ := h.cell_within hfits hc
  exact (hwithin.apart (hfresh.apart e he).symm).symm

/-- A block from `operator new` is lent. -/
theorem Holds.lendOversized (h : Holds cfg align s free) (hfits : Fits cfg) {size fresh : Nat}
    (hover : userBlockSize cfg < size) (hsize : header + size < cfg.sizeT.modulus)
    (hfresh : Fresh cfg align s (oversize cfg size) fresh) :
    Holds cfg align
      { s with
        memory := writeTag fresh tagOversized s.memory
        outstanding := ⟨fresh, size⟩ :: s.outstanding } free := by
  have hextent : extent cfg ⟨fresh, size⟩ = ⟨fresh, header + size⟩ := extent_of_lt hover hsize
  rw [oversize, Nat.mod_eq_of_lt hsize] at hfresh
  have hapart : ∀ c ∈ cells cfg s free, (extent cfg ⟨fresh, size⟩).Apart c := by
    rw [hextent]
    exact fun c => h.apart_of_fresh hfits hfresh
  have hheader : header < (extent cfg ⟨fresh, size⟩).size := by
    rw [hextent]
    exact Nat.lt_add_of_pos_right (Nat.zero_lt_of_lt hover)
  refine ⟨?_, ?_, ?_, ?_, ?_, ?_⟩
  · exact chain_writeTag hfits h.chain hheader fun n hn => hapart _ (slot_mem_cells hn)
  · have hpool : poolBlocks cfg { s with outstanding := ⟨fresh, size⟩ :: s.outstanding } =
        poolBlocks cfg s := List.filter_cons_of_neg (by simpa using hover)
    change (free ++ (poolBlocks cfg { s with outstanding := _ }).map LentBlock.raw).Perm _
    rw [hpool]
    exact h.perm
  · refine (Extent.pairwise_perm List.perm_middle).mpr ?_
    exact List.pairwise_cons.mpr ⟨hapart, h.apart⟩
  · intro e he
    obtain ⟨base, hbase, rfl⟩ | ⟨b, hb, hlarge, rfl⟩ := mem_allocations.mp he
    · exact h.allocated _ (mem_allocations.mpr (.inl ⟨base, hbase, rfl⟩))
    · obtain rfl | hb := List.mem_cons.mp hb
      · rw [hextent]
        exact ⟨Nat.pos_of_ne_zero hfresh.ne_zero, hfresh.stop_le, hfresh.aligned⟩
      · exact h.allocated _ (mem_allocations.mpr (.inr ⟨b, hb, hlarge, rfl⟩))
  · intro b hb
    obtain rfl | hb := List.mem_cons.mp hb
    · exact hsize
    · exact h.sizes b hb
  · intro b hb
    obtain rfl | hb := List.mem_cons.mp hb
    · rw [if_pos hover]
      exact load_store (by decide)
    · exact h.tags_store hfits (word_le hheader) hb (hapart _ (extent_mem_cells hb))

/-! ### Chunks -/

theorem pointer_lt (cfg : PoolSettings) {n : Nat} (h : n < cfg.sizeT.modulus) :
    n < 256 ^ cfg.sizeT.pointerSize := by
  rw [← cfg.sizeT.modulus_eq]
  exact h

/-- A block comes to the front of the free list. -/
theorem chain_push (hfits : Fits cfg) {n : Nat}
    (h : Chain cfg.sizeT.pointerSize s.memory s.freeList free)
    (hlt : s.freeList < cfg.sizeT.modulus) (hne : n ≠ 0)
    (hapart : ∀ k ∈ free, (slot cfg n).Apart (slot cfg k)) :
    Chain cfg.sizeT.pointerSize (push cfg s n).memory (push cfg s n).freeList (n :: free) := by
  have hpointer := pointerSize_le cfg.sizeT
  have hslot := hfits.header_lt
  rw [header] at hslot
  refine h.push hne (pointer_lt cfg hlt) fun k hk => ?_
  have hapart : n + slotSize cfg ≤ k ∨ k + slotSize cfg ≤ n := hapart k hk
  omega

/-- The blocks of a chunk are put on the free list one after the other. -/
theorem chain_foldl_push (hfits : Fits cfg) (nodes : List Nat)
    (h : Chain cfg.sizeT.pointerSize s.memory s.freeList free)
    (hlt : s.freeList < cfg.sizeT.modulus)
    (hnodes : ∀ n ∈ nodes, n ≠ 0 ∧ n < cfg.sizeT.modulus)
    (hapart : ((nodes ++ free).map (slot cfg)).Pairwise Extent.Apart) :
    Chain cfg.sizeT.pointerSize (nodes.foldl (push cfg) s).memory
      (nodes.foldl (push cfg) s).freeList (nodes.reverse ++ free) := by
  induction nodes generalizing s free with
  | nil => exact h
  | cons n rest ih =>
      obtain ⟨hne, hn⟩ := hnodes n List.mem_cons_self
      obtain ⟨hfirst, -⟩ := List.pairwise_cons.mp hapart
      have hpushed := chain_push hfits h hlt hne fun k hk =>
        hfirst _ (List.mem_map_of_mem (List.mem_append_right _ hk))
      rw [List.reverse_cons, List.append_assoc]
      refine ih hpushed hn (fun k hk => hnodes k (List.mem_cons_of_mem _ hk)) ?_
      exact (Extent.pairwise_perm (List.perm_middle.map _)).mpr hapart

/-- Only links and the head of the list change. -/
theorem foldl_push_eq (hfits : Fits cfg) (nodes : List Nat) (s : FixedBlockPool) :
    ∃ memory freeList, nodes.foldl (push cfg) s = { s with memory, freeList } ∧
      ∀ k, (∀ n ∈ nodes, ¬(slot cfg n).Covers k) → memory k = s.memory k := by
  induction nodes generalizing s with
  | nil => exact ⟨s.memory, s.freeList, rfl, fun _ _ => rfl⟩
  | cons n rest ih =>
      obtain ⟨memory, freeList, heq, hsame⟩ := ih (push cfg s n)
      refine ⟨memory, freeList, heq, fun k hk => ?_⟩
      rw [hsame k fun n hn => hk n (List.mem_cons_of_mem _ hn)]
      refine store_of_outside ?_
      have hpointer := pointerSize_le cfg.sizeT
      have hslot := hfits.header_lt
      have hout : ¬(n ≤ k ∧ k < n + slotSize cfg) := hk n List.mem_cons_self
      rw [header] at hslot
      omega

/-- The slots of a chunk. -/
def chunkNodes (cfg : PoolSettings) (base : Nat) : List Nat :=
  (List.range (blocksPerChunk cfg)).map (node cfg base)

theorem map_slot_chunkNodes (hfits : Fits cfg) {base : Nat}
    (hstop : base + chunkSize cfg ≤ cfg.sizeT.modulus) :
    (chunkNodes cfg base).map (slot cfg) =
      (List.range (blocksPerChunk cfg)).map (Extent.part base (slotSize cfg)) := by
  rw [chunkNodes, List.map_map]
  exact List.map_congr_left fun i hi => hfits.slot_node hstop (List.mem_range.mp hi)

theorem slot_within_chunk (hfits : Fits cfg) {base n : Nat}
    (hstop : base + chunkSize cfg ≤ cfg.sizeT.modulus) (hn : n ∈ chunkNodes cfg base) :
    (slot cfg n).Within ⟨base, chunkSize cfg⟩ := by
  obtain ⟨i, hi, rfl⟩ := List.mem_map.mp hn
  rw [hfits.slot_node hstop (List.mem_range.mp hi), hfits.chunkSize_eq]
  exact Extent.part_within (List.mem_range.mp hi)

theorem blocks_append (cfg : PoolSettings) (s : FixedBlockPool) (base : Nat) :
    blocks cfg { s with chunks := s.chunks ++ [base] } = blocks cfg s ++ chunkNodes cfg base := by
  rw [blocks, List.flatMap_append, List.flatMap_singleton]
  rfl

/-- A new chunk keeps what there is and puts its blocks in front of the free list. -/
theorem Holds.grow (h : Holds cfg align s free) (hfits : Fits cfg) {base : Nat}
    (hfresh : Fresh cfg align s (chunkSize cfg) base) :
    Holds cfg align (allocateChunkLocked cfg base s) ((chunkNodes cfg base).reverse ++ free) := by
  have hstop := hfresh.stop_le
  have hwithin := fun n => slot_within_chunk (n := n) hfits hstop
  have hapart : ∀ c ∈ cells cfg s free, Extent.Apart ⟨base, chunkSize cfg⟩ c :=
    fun c => h.apart_of_fresh hfits hfresh
  have houtside : ∀ c ∈ cells cfg s free, ∀ k, c.start ≤ k → k < c.start + header →
      ¬Extent.Covers ⟨base, chunkSize cfg⟩ k := fun c hc k hk hk' =>
    (hapart c hc).symm.not_covers
      ⟨hk, hk'.trans (Nat.add_lt_add_left (h.cell_bounds hfits hc).2.2 _)⟩
  have hcells : ((chunkNodes cfg base).map (slot cfg) ++ cells cfg s free).Pairwise
      Extent.Apart := by
    refine List.pairwise_append.mpr ⟨?_, h.apart, fun c hc d hd => ?_⟩
    · rw [map_slot_chunkNodes hfits hstop]
      exact Extent.pairwise_parts ..
    · obtain ⟨n, hn, rfl⟩ := List.mem_map.mp hc
      exact (hwithin n hn).apart (hapart d hd)
  have hnodes : ∀ n ∈ chunkNodes cfg base, n ≠ 0 ∧ n < cfg.sizeT.modulus := by
    intro n hn
    obtain ⟨hle, hle'⟩ : base ≤ n ∧ n + slotSize cfg ≤ base + chunkSize cfg := hwithin n hn
    have hne := hfresh.ne_zero
    have hslot := hfits.header_lt
    omega
  have hslots : ((chunkNodes cfg base ++ free).map (slot cfg)).Pairwise Extent.Apart := by
    rw [cells, ← List.append_assoc, ← List.map_append] at hcells
    exact (List.pairwise_append.mp hcells).1
  have hzeroed : Holds cfg align { s with memory := zero (chunkSize cfg) s.memory base } free :=
    h.of_headers fun c hc k hk hk' => zero_of_outside (houtside c hc k hk hk')
  have hchain := chain_foldl_push hfits _ hzeroed.chain (hzeroed.freeList_lt hfits) hnodes hslots
  obtain ⟨memory, freeList, heq, hsame⟩ := foldl_push_eq hfits (chunkNodes cfg base)
    { s with memory := zero (chunkSize cfg) s.memory base }
  have hkept : Holds cfg align { s with memory } free := by
    refine h.of_headers fun c hc k hk hk' => ?_
    have hout := houtside c hc k hk hk'
    exact (hsame k fun n hn hcovers => hout ((hwithin n hn).covers hcovers)).trans
      (zero_of_outside hout)
  rw [heq] at hchain
  rw [allocateChunkLocked, ← chunkNodes, heq]
  refine ⟨hchain, ?_, ?_, ?_, h.sizes, hkept.tags⟩
  · change (_ ++ (poolBlocks cfg s).map _).Perm (blocks cfg { s with chunks := s.chunks ++ [base] })
    rw [blocks_append, List.append_assoc]
    exact List.perm_append_comm.trans (h.perm.append (List.reverse_perm _))
  · refine (Extent.pairwise_perm ?_).mp hcells
    rw [cells, cells, List.map_append, List.append_assoc]
    exact ((List.reverse_perm _).symm.map _).append_right _
  · intro e he
    obtain ⟨b, hb, rfl⟩ | hover := mem_allocations.mp he
    · obtain hb | hb := List.mem_append.mp hb
      · exact h.allocated _ (mem_allocations.mpr (.inl ⟨b, hb, rfl⟩))
      · rw [List.mem_singleton.mp hb]
        exact ⟨Nat.pos_of_ne_zero hfresh.ne_zero, hstop, hfresh.aligned⟩
    · exact h.allocated e (mem_allocations.mpr (.inr hover))

/-- A pool without a chunk. -/
theorem holds_empty (cfg : PoolSettings) (align : Nat) (memory : Memory) :
    Holds cfg align { memory } [] where
  chain := rfl
  perm := .nil
  apart := .nil
  allocated _ he := absurd he List.not_mem_nil
  sizes _ hb := absurd hb List.not_mem_nil
  tags _ hb := absurd hb List.not_mem_nil

/-! ### Taking back -/

/-- The order of the blocks that are lent does not matter. -/
theorem Holds.of_perm {outstanding : List LentBlock} (h : Holds cfg align s free)
    (hperm : s.outstanding.Perm outstanding) : Holds cfg align { s with outstanding } free where
  chain := h.chain
  perm := ((hperm.filter _).map _ |>.append_left free).symm.trans h.perm
  apart := (Extent.pairwise_perm ((hperm.map _).append_left _)).mp h.apart
  allocated e he :=
    h.allocated e (mem_allocations_of_subset (fun _ hb => hperm.mem_iff.mpr hb) he)
  sizes b hb := h.sizes b (hperm.mem_iff.mpr hb)
  tags b hb := h.tags b (hperm.mem_iff.mpr hb)

section Return

variable {b : LentBlock} {rest : List LentBlock}

/-- A block of a chunk comes back to the free list. -/
theorem Holds.giveBack (h : Holds cfg align s free) (hfits : Fits cfg)
    (hout : s.outstanding = b :: rest) (hsize : b.size ≤ userBlockSize cfg) :
    Holds cfg align (push cfg { s with outstanding := rest } b.raw) (b.raw :: free) := by
  have hmem : b ∈ s.outstanding := hout ▸ List.mem_cons_self
  have hrest : ∀ c ∈ rest, c ∈ s.outstanding := fun c hc => hout ▸ List.mem_cons_of_mem _ hc
  have hne : b.raw ≠ 0 := Nat.ne_of_gt (h.cell_bounds hfits (extent_mem_cells hmem)).1
  have hcells : (slot cfg b.raw :: cells cfg { s with outstanding := rest } free).Pairwise
      Extent.Apart := by
    have hapart := h.apart
    rw [cells, hout, List.map_cons, extent_of_le hsize] at hapart
    exact (Extent.pairwise_perm List.perm_middle).mp hapart
  obtain ⟨hapart, -⟩ := List.pairwise_cons.mp hcells
  have hchain := chain_push hfits h.chain (h.freeList_lt hfits) hne fun n hn =>
    hapart _ (slot_mem_cells hn)
  refine ⟨hchain, ?_, hcells, fun e he => h.allocated e (mem_allocations_of_subset hrest he),
    fun c hc => h.sizes c (hrest c hc), fun c hc => ?_⟩
  · have hpool : poolBlocks cfg s = b :: poolBlocks cfg { s with outstanding := rest } := by
      rw [poolBlocks, hout]
      exact List.filter_cons_of_pos (decide_eq_true hsize)
    have hperm := h.perm
    rw [hpool, List.map_cons] at hperm
    exact List.perm_middle.symm.trans hperm
  · have hword : cfg.sizeT.pointerSize ≤ (slot cfg b.raw).size :=
      (pointerSize_le _).trans (word_le hfits.header_lt)
    exact h.tags_store hfits hword (hrest c hc) (hapart _ (extent_mem_cells hc))

/-- An oversized block goes back to `operator delete`. -/
theorem Holds.drop (h : Holds cfg align s free) (hout : s.outstanding = b :: rest)
    (hover : userBlockSize cfg < b.size) : Holds cfg align { s with outstanding := rest } free := by
  have hrest : ∀ c ∈ rest, c ∈ s.outstanding := fun c hc => hout ▸ List.mem_cons_of_mem _ hc
  refine ⟨h.chain, ?_, ?_, fun e he => h.allocated e (mem_allocations_of_subset hrest he),
    fun c hc => h.sizes c (hrest c hc), fun c hc => h.tags c (hrest c hc)⟩
  · have hpool : poolBlocks cfg s = poolBlocks cfg { s with outstanding := rest } := by
      rw [poolBlocks, hout]
      exact List.filter_cons_of_neg (by simpa using hover)
    have hperm := h.perm
    rw [hpool] at hperm
    exact hperm
  · have hapart := h.apart
    rw [cells, hout, List.map_cons] at hapart
    exact (List.pairwise_cons.mp ((Extent.pairwise_perm List.perm_middle).mp hapart)).2
end Return

theorem Holds.pointer_eq (h : Holds cfg align s free) (hfits : Fits cfg) {b : LentBlock}
    (hb : b ∈ s.outstanding) : pointer cfg b.raw = b.raw + header := by
  obtain ⟨-, hstop, hsize⟩ := h.cell_bounds hfits (extent_mem_cells hb)
  change b.raw + (extent cfg b).size ≤ _ at hstop
  exact Nat.mod_eq_of_lt (by omega)

theorem Fits.rawOf_add_header (hfits : Fits cfg) {raw : Nat} (h : raw < cfg.sizeT.modulus) :
    rawOf cfg (raw + header) = raw := by
  have hle := (Nat.le_add_right header _).trans_lt hfits.slot_lt
  have hsum : raw + header + (cfg.sizeT.modulus - header) = raw + cfg.sizeT.modulus := by omega
  rw [rawOf, hsum, Nat.add_mod_right, Nat.mod_eq_of_lt h]

/-- The tag tells how the block was handed out. -/
theorem Holds.deallocate_cases (h : Holds cfg align s free) (hfits : Fits cfg) {p : Nat}
    (hp : p ≠ 0) (hlent : ∃ b ∈ s.outstanding, pointer cfg b.raw = p) :
    ∃ b rest, s.outstanding.Perm (b :: rest) ∧
      (b.size ≤ userBlockSize cfg ∧ deallocate cfg p s =
          { push cfg { s with outstanding := rest } b.raw with
            inUse := (s.inUse + (cfg.sizeT.modulus - 1)) % cfg.sizeT.modulus } ∨
        userBlockSize cfg < b.size ∧ deallocate cfg p s = { s with outstanding := rest }) := by
  obtain ⟨_, hmem, heq⟩ := hlent
  obtain ⟨b, before, after, -, hb, hsplit, herase⟩ :=
    List.exists_of_eraseP (p := fun b => decide (pointer cfg b.raw = p)) hmem (decide_eq_true heq)
  have hmem : b ∈ s.outstanding := hsplit ▸ List.mem_append_right _ List.mem_cons_self
  have hraw : rawOf cfg p = b.raw := by
    have hpointer : pointer cfg b.raw = p := of_decide_eq_true hb
    obtain ⟨-, hstop, hsize⟩ := h.cell_bounds hfits (extent_mem_cells hmem)
    rw [← hpointer, h.pointer_eq hfits hmem]
    exact hfits.rawOf_add_header
      ((Nat.lt_add_of_pos_right (Nat.zero_lt_of_lt hsize)).trans_le hstop)
  have htag := h.tags b hmem
  refine ⟨b, before ++ after, hsplit ▸ List.perm_middle, ?_⟩
  rw [deallocate, if_neg hp]
  simp only [hraw, herase]
  by_cases hover : userBlockSize cfg < b.size
  · rw [if_pos hover] at htag
    exact .inr ⟨hover, if_pos htag⟩
  · rw [if_neg hover] at htag
    exact .inl ⟨Nat.le_of_not_lt hover, if_neg (by rw [htag]; decide)⟩

/-! ### The counters -/

theorem Holds.length_blocks (h : Holds cfg align s free) :
    (blocks cfg s).length = free.length + (poolBlocks cfg s).length := by
  rw [← h.perm.length_eq, List.length_append, List.length_map]

theorem Holds.blocks_lt (h : Holds cfg align s free) (hfits : Fits cfg) :
    (blocks cfg s).length < cfg.sizeT.modulus := by
  rw [h.length_blocks]
  exact (Nat.add_le_add_left (List.length_filter_le ..) _).trans_lt (h.length_lt hfits)

theorem Holds.poolBlocks_lt (h : Holds cfg align s free) (hfits : Fits cfg) :
    (poolBlocks cfg s).length < cfg.sizeT.modulus :=
  (Nat.le_add_left _ _).trans_lt (h.length_blocks ▸ h.blocks_lt hfits)

theorem Counted.take (hcounted : Counted cfg s) (hfits : Fits cfg) {size : Nat}
    (hsize : size ≤ userBlockSize cfg)
    (h : Holds cfg align (FixedBlockPool.take cfg size s).2 free) :
    Counted cfg (FixedBlockPool.take cfg size s).2 := by
  have hlt := h.poolBlocks_lt hfits
  rw [poolBlocks_take s hsize, List.length_cons] at hlt
  refine ⟨hcounted.total, ?_⟩
  rw [poolBlocks_take s hsize, List.length_cons, ← Nat.mod_eq_of_lt hlt, ← hcounted.inUse]
  rfl

theorem Counted.grow (hcounted : Counted cfg s) (hfits : Fits cfg) {base : Nat}
    (h : Holds cfg align (allocateChunkLocked cfg base s) free) :
    Counted cfg (allocateChunkLocked cfg base s) := by
  obtain ⟨memory, freeList, heq, -⟩ := foldl_push_eq hfits (chunkNodes cfg base)
    { s with memory := zero (chunkSize cfg) s.memory base }
  have hblocks : blocks cfg (allocateChunkLocked cfg base s) =
      blocks cfg s ++ chunkNodes cfg base := by
    rw [allocateChunkLocked, ← chunkNodes, heq]
    exact blocks_append cfg s base
  have hlt := h.blocks_lt hfits
  rw [hblocks, List.length_append, chunkNodes, List.length_map, List.length_range] at hlt
  constructor
  · rw [hblocks, List.length_append, chunkNodes, List.length_map, List.length_range,
      ← Nat.mod_eq_of_lt hlt, ← hcounted.total]
    rfl
  · rw [allocateChunkLocked, ← chunkNodes, heq]
    exact hcounted.inUse

theorem length_poolBlocks (cfg : PoolSettings) {outstanding : List LentBlock}
    (hperm : s.outstanding.Perm outstanding) : (poolBlocks cfg s).length =
      (outstanding.filter fun b => decide (b.size ≤ userBlockSize cfg)).length :=
  (hperm.filter _).length_eq

theorem Counted.giveBack (hcounted : Counted cfg s) (h : Holds cfg align s free)
    (hfits : Fits cfg) {b : LentBlock} {rest : List LentBlock}
    (hperm : s.outstanding.Perm (b :: rest)) (hsize : b.size ≤ userBlockSize cfg) :
    Counted cfg
      { push cfg { s with outstanding := rest } b.raw with
        inUse := (s.inUse + (cfg.sizeT.modulus - 1)) % cfg.sizeT.modulus } := by
  have hlt := h.poolBlocks_lt hfits
  refine ⟨hcounted.total, ?_⟩
  change (s.inUse + (cfg.sizeT.modulus - 1)) % cfg.sizeT.modulus =
    (rest.filter fun c => decide (c.size ≤ userBlockSize cfg)).length
  have hlength := length_poolBlocks cfg hperm
  rw [List.filter_cons_of_pos (by simpa using hsize), List.length_cons] at hlength
  rw [hcounted.inUse, hlength]
  have hsum : ∀ k, k + 1 + (cfg.sizeT.modulus - 1) = k + cfg.sizeT.modulus := fun k => by
    omega
  rw [hsum, Nat.add_mod_right, Nat.mod_eq_of_lt (by omega)]

theorem Counted.drop (hcounted : Counted cfg s) {b : LentBlock} {rest : List LentBlock}
    (hperm : s.outstanding.Perm (b :: rest)) (hover : userBlockSize cfg < b.size) :
    Counted cfg { s with outstanding := rest } := by
  have hlength := length_poolBlocks cfg hperm
  rw [List.filter_cons_of_neg (by simpa using hover)] at hlength
  exact ⟨hcounted.total, hcounted.inUse.trans hlength⟩

/-! ### Every run -/

/-- A call that returns null changes nothing, and another one returns the block it lends. -/
theorem allocate_cases (hfits : Fits cfg) (size fresh : Nat) (s : FixedBlockPool) :
    (size ≤ userBlockSize cfg ∧ s.freeList = 0 ∧ cfg.allowGrow = false) ∧
        allocate cfg size fresh s = (0, s) ∨
      ¬(size ≤ userBlockSize cfg ∧ s.freeList = 0 ∧ cfg.allowGrow = false) ∧
        ∃ raw, (allocate cfg size fresh s).1 = pointer cfg raw ∧
          (allocate cfg size fresh s).2.outstanding = ⟨raw, size⟩ :: s.outstanding := by
  rw [allocate]
  split
  · rename_i hover
    exact .inr ⟨fun h => Nat.not_le_of_lt hover h.1, fresh, rfl, rfl⟩
  · rename_i hover
    split
    · rename_i hlist
      split
      · rename_i hgrow
        exact .inl ⟨⟨Nat.le_of_not_lt hover, hlist, hgrow⟩, rfl⟩
      · rename_i hgrow
        obtain ⟨memory, freeList, heq, -⟩ := foldl_push_eq hfits (chunkNodes cfg fresh)
          { s with memory := zero (chunkSize cfg) s.memory fresh }
        refine .inr ⟨fun h => hgrow h.2.2, _, rfl, ?_⟩
        rw [take, allocateChunkLocked, ← chunkNodes, heq]
    · rename_i hlist
      exact .inr ⟨fun h => hlist h.2.1, _, rfl, rfl⟩

/-- The invariant of a run. -/
def Kept (cfg : PoolSettings) (align : Nat) (s : FixedBlockPool) : Prop :=
  ∃ free, Holds cfg align s free ∧ Counted cfg s

theorem kept_create (hfits : Fits cfg) {memory : Memory} {base : Nat}
    (hfresh : Fresh cfg align { memory } (chunkSize cfg) base) :
    Kept cfg align (create cfg memory base) := by
  have hholds := (holds_empty cfg align memory).grow hfits hfresh
  exact ⟨_, hholds, Counted.grow ⟨rfl, rfl⟩ hfits hholds⟩

/-- The free list has a block, or gets some. -/
theorem Kept.take (hfits : Fits cfg) (h : Kept cfg align s) (hlist : s.freeList ≠ 0) {size : Nat}
    (hsize : size ≤ userBlockSize cfg) : Kept cfg align (take cfg size s).2 := by
  obtain ⟨free, hholds, hcounted⟩ := h
  cases free with
  | nil => exact absurd (hholds.chain.head_eq_zero_iff.mpr rfl) hlist
  | cons n rest =>
      have htaken := hholds.take hfits hsize
      exact ⟨rest, htaken, hcounted.take hfits hsize htaken⟩

theorem Kept.grow (hfits : Fits cfg) (h : Kept cfg align s) {base : Nat}
    (hfresh : Fresh cfg align s (chunkSize cfg) base) :
    Kept cfg align (allocateChunkLocked cfg base s) ∧
      (allocateChunkLocked cfg base s).freeList ≠ 0 := by
  obtain ⟨free, hholds, hcounted⟩ := h
  have hgrown := hholds.grow hfits hfresh
  refine ⟨⟨_, hgrown, hcounted.grow hfits hgrown⟩, fun hzero => ?_⟩
  have hnil := hgrown.chain.head_eq_zero_iff.mp hzero
  have hlength := congrArg List.length hnil
  rw [List.length_append, List.length_reverse, chunkNodes, List.length_map, List.length_range]
    at hlength
  have hpos := blocksPerChunk_pos cfg
  change _ = 0 at hlength
  omega

theorem Kept.allocate (hfits : Fits cfg) (h : Kept cfg align s) {size fresh : Nat}
    (henabled : enabled cfg align s (.allocate size fresh))
    (hsize : header + size < cfg.sizeT.modulus) :
    Kept cfg align (allocate cfg size fresh s).2 := by
  obtain ⟨-, hrequest⟩ := henabled
  rw [request] at hrequest
  rw [FixedBlockPool.allocate]
  split
  · rename_i hover
    rw [if_pos hover] at hrequest
    obtain ⟨free, hholds, hcounted⟩ := h
    have hlent := hholds.lendOversized hfits hover hsize (hrequest _ rfl)
    refine ⟨free, hlent, hcounted.total, hcounted.inUse.trans ?_⟩
    exact congrArg List.length (List.filter_cons_of_neg (by simpa using hover)).symm
  · rename_i hover
    have hle := Nat.le_of_not_lt hover
    rw [if_neg hover] at hrequest
    split
    · rename_i hlist
      split
      · exact h
      · rename_i hgrow
        rw [if_pos ⟨hlist, by simpa using hgrow⟩] at hrequest
        obtain ⟨hgrown, hsome⟩ := h.grow hfits (hrequest _ rfl)
        exact hgrown.take hfits hsome hle
    · rename_i hlist
      exact h.take hfits hlist hle

theorem Kept.deallocate (hfits : Fits cfg) (h : Kept cfg align s) {p : Nat}
    (henabled : enabled cfg align s (.deallocate p)) : Kept cfg align (deallocate cfg p s) := by
  by_cases hp : p = 0
  · rw [FixedBlockPool.deallocate, if_pos hp]
    exact h
  · obtain ⟨free, hholds, hcounted⟩ := h
    obtain ⟨b, rest, hperm, ⟨hsize, heq⟩ | ⟨hover, heq⟩⟩ :=
      hholds.deallocate_cases hfits hp (henabled.resolve_left hp)
    · have hback := (hholds.of_perm hperm).giveBack hfits rfl hsize
      rw [heq]
      exact ⟨_, ⟨hback.chain, hback.perm, hback.apart, hback.allocated, hback.sizes, hback.tags⟩,
        hcounted.giveBack hholds hfits hperm hsize⟩
    · rw [heq]
      exact ⟨free, (hholds.of_perm hperm).drop rfl hover, hcounted.drop hperm hover⟩

theorem Kept.step (hfits : Fits cfg) (h : Kept cfg align s) {l : Label}
    (henabled : enabled cfg align s l) (hsize : SizeFits cfg s l) :
    Kept cfg align (next cfg s l) := by
  cases l with
  | allocate size fresh => exact h.allocate hfits henabled hsize
  | deallocate p => exact h.deallocate hfits henabled
  | write memory =>
      obtain ⟨free, hholds, hcounted⟩ := h
      exact ⟨free, hholds.of_headers fun c hc k hk hk' =>
        henabled k (hholds.header_private hfits hc hk hk'), hcounted.total, hcounted.inUse⟩

theorem kept_of_reachable (hfits : Fits cfg)
    (h : ((system cfg align).restrict (SizeFits cfg)).Reachable s) : Kept cfg align s := by
  refine h.invariant ?_ fun s l _ hkept henabled => hkept.step hfits henabled.1 henabled.2
  rintro s ⟨memory, base, hfresh, rfl⟩
  exact kept_create hfits hfresh

end FixedBlockPool

end EmbedMq

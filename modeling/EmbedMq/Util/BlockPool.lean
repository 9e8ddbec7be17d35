import EmbedMq.Codec.Basic
import EmbedMq.Foundation.Extents
import EmbedMq.Foundation.LinkChain
import EmbedMq.Foundation.Transition

/-!
# The block pool

`FixedBlockPool` cuts chunks into slots. A slot begins with a header of 16 bytes and the caller gets
the address behind it. The header of a slot that is lent holds a tag, and that of a free slot the
link to the next free one, at the same place. A request that is larger than a slot is passed on to
`operator new` with a header and a tag of its own.

Sizes and addresses are numbers modulo the width of `size_t`. What `operator new` returns is chosen
from outside. Between two calls the memory may change wherever the pool has lent it or does not
have it.
-/

namespace EmbedMq

open ByteMemory LinkChain

/-- `sizeof(void*)`. -/
def SizeT.pointerSize : SizeT → Nat
  | bits32 => 4
  | bits64 => 8

theorem SizeT.modulus_eq (sz : SizeT) : sz.modulus = 256 ^ sz.pointerSize := by
  cases sz <;> rfl

theorem SizeT.modulus_pos (sz : SizeT) : 0 < sz.modulus := by
  cases sz <;> decide

/-- The arguments of the constructor. -/
structure PoolSettings where
  sizeT : SizeT := .bits64
  blockSize : Nat
  initialBlocks : Nat := 64
  allowGrow : Bool := true
  blockSize_lt : blockSize < sizeT.modulus
  initialBlocks_lt : initialBlocks < sizeT.modulus

/-- A block that was handed out and not yet returned. -/
structure LentBlock where
  /-- The address of its header. -/
  raw : Nat
  /-- The size that was asked for. -/
  size : Nat
  deriving DecidableEq

structure FixedBlockPool where
  memory : Memory
  freeList : Nat := 0
  totalBlocks : Nat := 0
  inUse : Nat := 0
  chunks : List Nat := []
  outstanding : List LentBlock := []

namespace FixedBlockPool

/-- `HEADER` -/
def header : Nat := 16

def tagPool : Nat := 0

def tagOversized : Nat := 0xEB0CEB0CEB0CEB0C

section Settings

variable (cfg : PoolSettings)

def userBlockSize : Nat :=
  if cfg.blockSize < cfg.sizeT.pointerSize then cfg.sizeT.pointerSize else cfg.blockSize

def slotSize : Nat := (header + userBlockSize cfg) % cfg.sizeT.modulus

def blocksPerChunk : Nat := if cfg.initialBlocks = 0 then 1 else cfg.initialBlocks

/-- The size of a chunk, as it is asked for. -/
def chunkSize : Nat := slotSize cfg * blocksPerChunk cfg % cfg.sizeT.modulus

/-- The size that is asked for when a request is larger than a slot. -/
def oversize (size : Nat) : Nat := (header + size) % cfg.sizeT.modulus

/-- The address of a slot in the chunk at `base`. -/
def node (base i : Nat) : Nat := (base + i * slotSize cfg) % cfg.sizeT.modulus

/-- `raw + HEADER` -/
def pointer (raw : Nat) : Nat := (raw + header) % cfg.sizeT.modulus

/-- `p - HEADER` -/
def rawOf (p : Nat) : Nat := (p + (cfg.sizeT.modulus - header)) % cfg.sizeT.modulus

def writeTag (raw tag : Nat) (m : Memory) : Memory := store 8 m raw tag

def readTag (raw : Nat) (m : Memory) : Nat := load 8 m raw

/-- `n->next = freeList_; freeList_ = n` -/
def push (s : FixedBlockPool) (n : Nat) : FixedBlockPool :=
  { s with memory := store cfg.sizeT.pointerSize s.memory n s.freeList, freeList := n }

/-- `new[]` returns `base`, with zeros. -/
def allocateChunkLocked (base : Nat) (s : FixedBlockPool) : FixedBlockPool :=
  let chunk := { s with memory := zero (chunkSize cfg) s.memory base }
  let threaded := ((List.range (blocksPerChunk cfg)).map (node cfg base)).foldl (push cfg) chunk
  { threaded with
    totalBlocks := (s.totalBlocks + blocksPerChunk cfg) % cfg.sizeT.modulus
    chunks := s.chunks ++ [base] }

/-- The constructor; the memory is what it was before. -/
def create (memory : Memory) (base : Nat) : FixedBlockPool :=
  allocateChunkLocked cfg base { memory }

/-- The first free block is handed out. -/
def take (size : Nat) (s : FixedBlockPool) : Nat × FixedBlockPool :=
  let raw := s.freeList
  (pointer cfg raw,
    { s with
      freeList := load cfg.sizeT.pointerSize s.memory raw
      inUse := (s.inUse + 1) % cfg.sizeT.modulus
      memory := writeTag raw tagPool s.memory
      outstanding := ⟨raw, size⟩ :: s.outstanding })

/-- The pointer that is returned, and the pool afterwards; `fresh` is what `operator new` or `new[]`
returns if it is called. -/
def allocate (size fresh : Nat) (s : FixedBlockPool) : Nat × FixedBlockPool :=
  if userBlockSize cfg < size then
    (pointer cfg fresh,
      { s with
        memory := writeTag fresh tagOversized s.memory
        outstanding := ⟨fresh, size⟩ :: s.outstanding })
  else if s.freeList = 0 then
    if cfg.allowGrow = false then (0, s)
    else take cfg size (allocateChunkLocked cfg fresh s)
  else take cfg size s

def deallocate (p : Nat) (s : FixedBlockPool) : FixedBlockPool :=
  if p = 0 then s
  else
    let raw := rawOf cfg p
    let returned := { s with outstanding := s.outstanding.eraseP fun b => pointer cfg b.raw = p }
    if readTag raw s.memory = tagOversized then returned
    else
      let pushed := push cfg returned raw
      { pushed with inUse := (s.inUse + (cfg.sizeT.modulus - 1)) % cfg.sizeT.modulus }

/-! ### The memory of the pool -/

/-- A block with its header. -/
def extent (b : LentBlock) : Extent :=
  ⟨b.raw, if userBlockSize cfg < b.size then oversize cfg b.size else slotSize cfg⟩

/-- The bytes of a block behind its header. -/
def userRange (b : LentBlock) : Extent := ⟨b.raw + header, (extent cfg b).size - header⟩

def slot (n : Nat) : Extent := ⟨n, slotSize cfg⟩

def poolBlocks (s : FixedBlockPool) : List LentBlock :=
  s.outstanding.filter fun b => b.size ≤ userBlockSize cfg

def oversized (s : FixedBlockPool) : List LentBlock :=
  s.outstanding.filter fun b => userBlockSize cfg < b.size

/-- What the pool has from `operator new` and `new[]`. -/
def allocations (s : FixedBlockPool) : List Extent :=
  s.chunks.map (⟨·, chunkSize cfg⟩) ++ (oversized cfg s).map (extent cfg)

/-- The slots of all chunks, by the addresses of their headers. -/
def blocks (s : FixedBlockPool) : List Nat :=
  s.chunks.flatMap fun base => (List.range (blocksPerChunk cfg)).map (node cfg base)

/-- A byte of the pool that it has not lent. -/
def Private (s : FixedBlockPool) (k : Nat) : Prop :=
  (∃ e ∈ allocations cfg s, e.Covers k) ∧ ∀ b ∈ s.outstanding, ¬(userRange cfg b).Covers k

/-! ### Runs -/

/-- What `operator new` may return for a request: memory that is not in use. -/
structure Fresh (align : Nat) (s : FixedBlockPool) (size fresh : Nat) : Prop where
  ne_zero : fresh ≠ 0
  stop_le : fresh + size ≤ cfg.sizeT.modulus
  apart : ∀ e ∈ allocations cfg s, Extent.Apart ⟨fresh, size⟩ e
  aligned : align ∣ fresh

instance (align : Nat) (s : FixedBlockPool) (size fresh : Nat) :
    Decidable (Fresh cfg align s size fresh) :=
  decidable_of_iff (fresh ≠ 0 ∧ fresh + size ≤ cfg.sizeT.modulus ∧
    (∀ e ∈ allocations cfg s, Extent.Apart ⟨fresh, size⟩ e) ∧ align ∣ fresh)
    ⟨fun h => ⟨h.1, h.2.1, h.2.2.1, h.2.2.2⟩,
      fun h => ⟨h.ne_zero, h.stop_le, h.apart, h.aligned⟩⟩

/-- How much memory a call of `allocate` asks for. -/
def request (s : FixedBlockPool) (size : Nat) : Option Nat :=
  if userBlockSize cfg < size then some (oversize cfg size)
  else if s.freeList = 0 ∧ cfg.allowGrow then some (chunkSize cfg)
  else none

inductive Label where
  | allocate (size fresh : Nat)
  | deallocate (p : Nat)
  /-- The memory changes between two calls. -/
  | write (memory : Memory)

def next (s : FixedBlockPool) : Label → FixedBlockPool
  | .allocate size fresh => (allocate cfg size fresh s).2
  | .deallocate p => deallocate cfg p s
  | .write memory => { s with memory }

/-- `operator new` succeeds, and only null or a pointer that is outstanding is returned. -/
def enabled (align : Nat) (s : FixedBlockPool) : Label → Prop
  | .allocate size fresh =>
      size < cfg.sizeT.modulus ∧ ∀ n ∈ request cfg s size, Fresh cfg align s n fresh
  | .deallocate p => p = 0 ∨ ∃ b ∈ s.outstanding, pointer cfg b.raw = p
  | .write memory => ∀ k, Private cfg s k → memory k = s.memory k

/-- The calls on a pool, with what `operator new` promises about alignment. -/
def system (align : Nat) : TransitionSystem FixedBlockPool Label where
  init s := ∃ memory base, Fresh cfg align { memory } (chunkSize cfg) base ∧
    s = create cfg memory base
  enabled := enabled cfg align
  next := next cfg

/-- The sizes of a slot and of a chunk do not wrap. -/
structure Fits : Prop where
  slot_lt : header + userBlockSize cfg < cfg.sizeT.modulus
  chunk_lt : (header + userBlockSize cfg) * blocksPerChunk cfg < cfg.sizeT.modulus

/-- The size of an oversized block does not wrap either. -/
def SizeFits (_ : FixedBlockPool) : Label → Prop
  | .allocate size _ => header + size < cfg.sizeT.modulus
  | _ => True

instance (s : FixedBlockPool) : DecidablePred (SizeFits cfg s)
  | .allocate size _ => inferInstanceAs (Decidable (header + size < cfg.sizeT.modulus))
  | .deallocate _ => isTrue trivial
  | .write _ => isTrue trivial

end Settings

end FixedBlockPool

end EmbedMq

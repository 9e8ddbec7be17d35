import EmbedMq.Foundation.ByteMemory
import EmbedMq.Transport.Ring
import EmbedMq.Transport.ShmSender

/-!
# The geometry of an inbox that is created

`init` opens its inbox under a name that may still belong to the segment of an earlier owner. It
gives the segment the size that it needs and fills in the header, unless the magic word is already
there: then everything stays as it was. Producers take the geometry from the header, and `recvLoop`
takes it from the owner's settings.
-/

namespace EmbedMq

open ByteMemory
open ShmRing (Geometry)

namespace ShmTransport

/-- A shared memory object. -/
structure Segment where
  size : Nat := 0
  memory : Memory := fun _ => 0

namespace Segment

/-- A segment that grows is filled up with zeros. -/
def ftruncate (size : Nat) (seg : Segment) : Segment where
  size := size
  memory k := if k < seg.size ∧ k < size then seg.memory k else 0

def header (seg : Segment) : ShmHeader where
  magic := load32 seg.memory 0
  layoutVersion := load32 seg.memory 4
  slotSize := load32 seg.memory 8
  slotCount := load32 seg.memory 12
  head := load32 seg.memory 16
  tail := load32 seg.memory 20
  notify := load32 seg.memory 24

def setHeader (h : ShmHeader) (seg : Segment) : Segment :=
  let stores := [(0, h.magic), (4, h.layoutVersion), (8, h.slotSize), (12, h.slotCount),
    (16, h.head), (20, h.tail), (24, h.notify)]
  { seg with memory := stores.foldl (fun m entry => store32 m entry.1 entry.2) seg.memory }

def memset (seg : Segment) : Segment := { seg with memory := fun _ => 0 }

end Segment

/-- Where the slot of an index is for a producer, who reads the header. -/
def producerSlot (h : ShmHeader) (idx : UInt32) : Nat :=
  headerSize + (idx % h.slotCount).toNat * h.slotSize.toNat

/-- Where it is for `recvLoop`. -/
def consumerSlot (g : Geometry) (idx : UInt32) : Nat :=
  headerSize + (idx % g.slotCount).toNat * g.slotSize.toNat

def totalSize (g : Geometry) : Nat := headerSize + g.slotCount.toNat * g.slotSize.toNat

/-- Whether the calls of the operating system succeed. -/
structure Opening where
  shmOpen : Bool := true
  ftruncate : Bool := true
  mmap : Bool := true

/-- What the name denoted before, at its new size. -/
def resized (g : Geometry) (prior : Option Segment) : Segment :=
  (prior.getD {}).ftruncate (totalSize g)

/-- A segment that is filled in anew. -/
def fresh (g : Geometry) (seg : Segment) : Segment :=
  seg.memset.setHeader { slotSize := g.slotSize, slotCount := g.slotCount }

/-- `openInbox` with `create`, on what the name denoted before. -/
def createInbox (os : Opening) (g : Geometry) (prior : Option Segment) : Option Segment :=
  if os.shmOpen = false then none
  else if os.ftruncate = false then none
  else if os.mmap = false then none
  else if (resized g prior).header.magic ≠ shmMagic then some (fresh g (resized g prior))
  else some (resized g prior)

theorem clamp_ge (low n : UInt32) : low ≤ if n < low then low else n := by
  split
  · exact UInt32.le_refl low
  · rename_i h
    exact UInt32.not_lt.mp h

/-- The settings of `init`, raised to the smallest that it allows. -/
def clamp (slotSize slotCount : UInt32) : Geometry where
  slotSize := if slotSize < 64 then 64 else slotSize
  slotCount := if slotCount < 2 then 2 else slotCount
  slotSize_ge := clamp_ge 64 slotSize
  slotCount_ge := clamp_ge 2 slotCount

/-- `init`: the geometry in the owner's fields and the inbox, unless it fails. -/
def init (os : Opening) (slotSize slotCount : UInt32) (prior : Option Segment) :
    Option (Geometry × Segment) :=
  let g := clamp slotSize slotCount
  (createInbox os g prior).map fun seg => (g, seg)

/-- The state of a slot, where the owner looks for it. -/
def slotState (g : Geometry) (seg : Segment) (idx : UInt32) : UInt32 :=
  load32 seg.memory (consumerSlot g idx)

/-- `SLOT_EMPTY`. -/
def slotEmpty : UInt32 := 0

/-- The header and the owner agree on an empty ring. -/
structure Agrees (g : Geometry) (seg : Segment) : Prop where
  slotSize : seg.header.slotSize = g.slotSize
  slotCount : seg.header.slotCount = g.slotCount
  drained : seg.header.head = seg.header.tail
  empty : ∀ idx, slotState g seg idx = slotEmpty
  address : ∀ idx, producerSlot seg.header idx = consumerSlot g idx

/-- What the name denoted is no inbox, or is an empty inbox of this geometry. -/
def Clean (g : Geometry) (prior : Option Segment) : Prop :=
  let left := resized g prior
  left.header.magic = shmMagic →
    left.header.slotSize = g.slotSize ∧ left.header.slotCount = g.slotCount ∧
      left.header.head = left.header.tail ∧ ∀ idx, slotState g left idx = slotEmpty

/-! ### A header that was written -/

theorem header_setHeader (h : ShmHeader) (seg : Segment) : (seg.setHeader h).header = h := by
  cases h
  simp (disch := omega) only [Segment.header, Segment.setHeader, List.foldl_cons, List.foldl_nil,
    load32_store32, load32_store32_of_disjoint]

/-- The header lies before the slots. -/
theorem load32_setHeader (h : ShmHeader) (seg : Segment) {a : Nat} (ha : headerSize ≤ a) :
    load32 (seg.setHeader h).memory a = load32 seg.memory a := by
  rw [headerSize] at ha
  simp (disch := omega) only [Segment.setHeader, List.foldl_cons, List.foldl_nil,
    load32_store32_of_disjoint]

theorem headerSize_le_consumerSlot (g : Geometry) (idx : UInt32) :
    headerSize ≤ consumerSlot g idx := Nat.le_add_right _ _

/-- A producer and the owner who have the same numbers find the same slot. -/
theorem producerSlot_eq {h : ShmHeader} {g : Geometry} (hsize : h.slotSize = g.slotSize)
    (hcount : h.slotCount = g.slotCount) (idx : UInt32) :
    producerSlot h idx = consumerSlot g idx := by
  rw [producerSlot, consumerSlot, hsize, hcount]

/-- A segment that is filled in anew is an empty inbox of the owner's geometry. -/
theorem agrees_fresh (g : Geometry) (seg : Segment) : Agrees g (fresh g seg) := by
  have hheader : (fresh g seg).header = { slotSize := g.slotSize, slotCount := g.slotCount } :=
    header_setHeader _ _
  have hsize := congrArg ShmHeader.slotSize hheader
  have hcount := congrArg ShmHeader.slotCount hheader
  refine ⟨hsize, hcount, ?_, fun idx => ?_, producerSlot_eq hsize hcount⟩
  · rw [hheader]
  · rw [slotState, fresh, load32_setHeader _ _ (headerSize_le_consumerSlot g idx)]
    rfl

theorem createInbox_eq_some {os : Opening} {g : Geometry} {prior : Option Segment} {seg : Segment}
    (h : createInbox os g prior = some seg) :
    ((resized g prior).header.magic ≠ shmMagic ∧ seg = fresh g (resized g prior)) ∨
      (resized g prior).header.magic = shmMagic ∧ seg = resized g prior := by
  rw [createInbox] at h
  split at h
  · cases h
  · split at h
    · cases h
    · split at h
      · cases h
      · split at h
        · rename_i hmagic
          exact .inl ⟨hmagic, (Option.some.inj h).symm⟩
        · rename_i hmagic
          exact .inr ⟨not_not.mp hmagic, (Option.some.inj h).symm⟩

/-- After `init` both sides agree exactly if the name did not denote another inbox, or one that was
in use. -/
theorem agrees_iff_clean {os : Opening} {slotSize slotCount : UInt32} {prior : Option Segment}
    {g : Geometry} {seg : Segment} (h : init os slotSize slotCount prior = some (g, seg)) :
    Agrees g seg ↔ Clean g prior := by
  rw [init, Option.map_eq_some_iff] at h
  obtain ⟨created, hcreated, heq⟩ := h
  obtain ⟨rfl, rfl⟩ := Prod.mk.inj heq
  obtain ⟨hmagic, rfl⟩ | ⟨hmagic, rfl⟩ := createInbox_eq_some hcreated
  · exact ⟨fun _ hleft => absurd hleft hmagic, fun _ => agrees_fresh _ _⟩
  · constructor
    · rintro ⟨hsize, hcount, hdrained, hempty, -⟩ -
      exact ⟨hsize, hcount, hdrained, hempty⟩
    · intro hclean
      obtain ⟨hsize, hcount, hdrained, hempty⟩ := hclean hmagic
      exact ⟨hsize, hcount, hdrained, hempty, producerSlot_eq hsize hcount⟩

/-- The inbox of an owner with two slots of 128 bytes, who did not get to unlink it. -/
def leftOver : Segment := fresh (clamp 128 2) (resized (clamp 128 2) none)

theorem slotState_leftOver (idx : UInt32) :
    slotState (clamp 128 2) (resized (clamp 128 2) (some leftOver)) idx = slotEmpty := by
  have hslot : consumerSlot (clamp 128 2) idx = 32 ∨ consumerSlot (clamp 128 2) idx = 160 := by
    have hcount : (clamp 128 2).slotCount.toNat = 2 := by decide
    have hsize : (clamp 128 2).slotSize.toNat = 128 := by decide
    rw [consumerSlot, UInt32.toNat_mod, hcount, hsize, headerSize]
    omega
  obtain h | h := hslot <;> rw [slotState, h] <;> decide

theorem agrees_iff_clean_leftOver :
    Agrees (clamp 128 2) (resized (clamp 128 2) (some leftOver)) ∧
      ¬ Agrees (clamp 64 2) (resized (clamp 64 2) (some leftOver)) := by
  refine ⟨(@agrees_iff_clean {} 128 2 (some leftOver) _ _ rfl).mpr ?_, fun h => ?_⟩
  · exact fun _ => ⟨by decide, by decide, by decide, slotState_leftOver⟩
  · have hclean := (@agrees_iff_clean {} 64 2 (some leftOver) _ _ rfl).mp h
    exact absurd (hclean (by decide)).1 (by decide)

/-- The next owner has smaller slots, and the header still says otherwise. -/
theorem agrees_leftOver :
    ¬∀ (os : Opening) (slotSize slotCount : UInt32) (prior : Option Segment) (g : Geometry)
      (seg : Segment), init os slotSize slotCount prior = some (g, seg) → Agrees g seg := by
  intro hclaim
  have hinit : init {} 64 2 (some leftOver) =
      some (clamp 64 2, resized (clamp 64 2) (some leftOver)) := rfl
  have hsize := (hclaim {} 64 2 (some leftOver) _ _ hinit).slotSize
  revert hsize
  decide

end ShmTransport

end EmbedMq

import EmbedMq.Foundation.Table
import EmbedMq.Transport.Ring

/-!
# The sender's end of a shared-memory inbox

`send` and `sendv` of `ShmTransport`, each as the source has it, on the segment of a peer. Other
threads and processes may do anything to the segment until a slot of it is reserved, and while the
call waits for that slot to be empty. From then on the slot is the caller's alone.
-/

namespace EmbedMq

open ShmRing (Slot copies)

namespace ShmTransport

def shmMagic : UInt32 := 0x4D485345

def shmLayoutVersion : UInt32 := 1

/-- `sizeof(ShmHeader)`. -/
def headerSize : Nat := 32

/-- `SIZE_MAX`. -/
def sizeMax : Nat := 2 ^ 64 - 1

structure ShmHeader where
  magic : UInt32 := shmMagic
  layoutVersion : UInt32 := shmLayoutVersion
  slotSize : UInt32
  slotCount : UInt32
  head : UInt32 := 0
  tail : UInt32 := 0
  notify : UInt32 := 0

/-- A segment that is mapped. -/
structure Region where
  header : ShmHeader
  totalSize : Nat
  slots : Nat → Slot := fun _ => {}

namespace Region

/-- The header is that of an inbox of this layout. -/
def Valid (r : Region) : Prop :=
  r.header.magic = shmMagic ∧ r.header.layoutVersion = shmLayoutVersion

instance (r : Region) : Decidable r.Valid := inferInstanceAs (Decidable (_ ∧ _))

/-- The geometry in the header fits the segment. -/
def Fits (r : Region) : Prop :=
  let count := r.header.slotCount.toNat
  let size := r.header.slotSize.toNat
  ¬(count = 0 ∨ size = 0) ∧ slotHeader ≤ size ∧ count ≤ (sizeMax - headerSize) / size ∧
    headerSize + count * size ≤ r.totalSize

instance (r : Region) : Decidable r.Fits := inferInstanceAs (Decidable (_ ∧ _))

def setHead (r : Region) (head : UInt32) : Region := { r with header := { r.header with head } }

def setSlot (r : Region) (slot : Nat) (value : Slot) : Region :=
  { r with slots := Function.update r.slots slot value }

def wakeConsumer (r : Region) : Region :=
  { r with header := { r.header with notify := r.header.notify + 1 } }

end Region

/-- What others do in one round of the loop that reserves a slot. -/
structure Round where
  beforeHead : Region → Region := id
  beforeTail : Region → Region := id
  beforeSwap : Region → Region := id
  /-- The weak compare-and-swap fails for no reason. -/
  spurious : Bool := false

/-- What others do during a call. After the last of the rounds they are quiet. -/
structure Others where
  rounds : List Round := []
  /-- Before each look at the state of the slot. -/
  spins : Nat → Region → Region := fun _ => id

/-- The loop that reserves a slot: its index, or nothing when the ring is full. -/
def reserve (cap : UInt32) : List Round → Region → Option UInt32 × Region
  | [], r =>
      if cap ≤ r.header.head - r.header.tail then (none, r)
      else (some r.header.head, r.setHead (r.header.head + 1))
  | round :: rounds, r =>
      let r := round.beforeHead r
      let head := r.header.head
      let r := round.beforeTail r
      if cap ≤ head - r.header.tail then (none, r)
      else
        let r := round.beforeSwap r
        if r.header.head = head ∧ round.spurious = false then (some head, r.setHead (head + 1))
        else reserve cap rounds r

/-- The loop that waits for the slot to be empty, with the number of looks that are left. -/
def awaitEmpty (spins : Nat → Region → Region) (slot : Nat) : Nat → Region → Bool × Region
  | 0, r => (false, r)
  | left + 1, r =>
      let r := spins left r
      if (r.slots slot).state = .empty then (true, r) else awaitEmpty spins slot left r

/-- What a call has done to a segment and to the drop counter. -/
structure Outcome where
  ok : Bool
  dropped : UInt64
  region : Region

def writeToRegion (others : Others) (dropped : UInt64) (r : Region) (data : Bytes) : Outcome :=
  let cap := r.header.slotCount
  let ssize := r.header.slotSize
  if ssize.toNat < data.length + slotHeader then ⟨false, dropped, r⟩
  else
    match reserve cap others.rounds r with
    | (none, r) => ⟨false, dropped + 1, r⟩
    | (some idx, r) =>
        let slot := (idx % cap).toNat
        let (empty, r) := awaitEmpty others.spins slot 100000 r
        let sh := r.slots slot
        if empty = false then
          let placeholder := { sh.write (.len 0) with state := .ready }
          ⟨false, dropped + 1, (r.setSlot slot placeholder).wakeConsumer⟩
        else
          let filled := (sh.write (.len (UInt32.ofNat data.length))).write (.copy 0 data)
          ⟨true, dropped, (r.setSlot slot { filled with state := .ready }).wakeConsumer⟩

/-- The slices are copied first, and the length is stored after them. -/
def writevToRegion (others : Others) (dropped : UInt64) (r : Region) (slices : List Bytes) :
    Outcome :=
  let cap := r.header.slotCount
  let ssize := r.header.slotSize
  let total := (slices.map List.length).sum
  if ssize.toNat < total + slotHeader then ⟨false, dropped, r⟩
  else
    match reserve cap others.rounds r with
    | (none, r) => ⟨false, dropped + 1, r⟩
    | (some idx, r) =>
        let slot := (idx % cap).toNat
        let (empty, r) := awaitEmpty others.spins slot 100000 r
        let sh := r.slots slot
        if empty = false then
          let placeholder := { sh.write (.len 0) with state := .ready }
          ⟨false, dropped + 1, (r.setSlot slot placeholder).wakeConsumer⟩
        else
          let copied := (copies 0 slices).foldl Slot.write sh
          let filled := copied.write (.len (UInt32.ofNat total))
          ⟨true, dropped, (r.setSlot slot { filled with state := .ready }).wakeConsumer⟩

end ShmTransport

open ShmTransport

/-- A transport, and the shared memory of its machine. -/
structure ShmSender where
  active : Bool := true
  dropped : UInt64 := 0
  peerRegions : Table Bytes Nat := ∅
  /-- The named shared memory objects. -/
  names : Table Bytes Nat := ∅
  regions : Nat → Region

namespace ShmSender

/-- `openInbox` without `create`: the segment under the name, if it is an inbox. -/
def openInbox (s : ShmSender) (name : Bytes) : Option Nat :=
  match s.names.lookup name with
  | some segment =>
      if (s.regions segment).Valid ∧ (s.regions segment).Fits then some segment else none
  | none => none

/-- Open the inbox and keep it. -/
def openPeer (s : ShmSender) (target : Bytes) : Option Nat × ShmSender :=
  match s.openInbox target with
  | some segment => (some segment, { s with peerRegions := s.peerRegions.insert target segment })
  | none => (none, s)

def resolvePeer (s : ShmSender) (target : Bytes) : Option Nat × ShmSender :=
  match s.peerRegions.lookup target with
  | some segment =>
      if (s.regions segment).Valid then (some segment, s)
      else openPeer { s with peerRegions := s.peerRegions.erase target } target
  | none => s.openPeer target

/-- A call returns. -/
def finish (s : ShmSender) (segment : Nat) (outcome : Outcome) : Bool × ShmSender :=
  (outcome.ok, { s with
    dropped := outcome.dropped
    regions := Function.update s.regions segment outcome.region })

def send (s : ShmSender) (others : Others) (endpoint : Endpoint) (data : Bytes) :
    Bool × ShmSender :=
  if s.active = false then (false, s)
  else if endpoint.address = [] then (false, s)
  else
    match s.resolvePeer endpoint.address with
    | (none, s) => (false, s)
    | (some segment, s) =>
        s.finish segment (writeToRegion others s.dropped (s.regions segment) data)

def sendv (s : ShmSender) (others : Others) (endpoint : Endpoint) (slices : List Bytes) :
    Bool × ShmSender :=
  if s.active = false then (false, s)
  else if endpoint.address = [] then (false, s)
  else
    match s.resolvePeer endpoint.address with
    | (none, s) => (false, s)
    | (some segment, s) =>
        s.finish segment (writevToRegion others s.dropped (s.regions segment) slices)

end ShmSender

/-! ### Slices in a slot -/

namespace ShmRing

@[simp] theorem Slot.write_copy_nil (slot : Slot) (offset : Nat) :
    slot.write (.copy offset []) = slot := by
  have hnone : ∀ k, ¬(offset ≤ k ∧ k < offset + ([] : Bytes).length) := by
    intro k hk
    exact absurd hk.2 (Nat.not_lt.mpr hk.1)
  simp only [Slot.write, hnone, if_false]

/-- Two copies, one behind the other. -/
theorem Slot.write_copy_append (slot : Slot) (offset : Nat) (part rest : Bytes) :
    (slot.write (.copy offset part)).write (.copy (offset + part.length) rest) =
      slot.write (.copy offset (part ++ rest)) := by
  have hpayload : ((slot.write (.copy offset part)).write
      (.copy (offset + part.length) rest)).payload =
        (slot.write (.copy offset (part ++ rest))).payload := by
    funext k
    simp only [Slot.write, List.length_append]
    rcases Nat.lt_or_ge k (offset + part.length) with hk | hk
    · -- Before the second copy the first one counts.
      have hrest : ¬(offset + part.length ≤ k ∧ k < offset + part.length + rest.length) := by omega
      rw [if_neg hrest]
      by_cases hoffset : offset ≤ k
      · rw [if_pos ⟨hoffset, hk⟩, if_pos ⟨hoffset, by omega⟩,
          List.getElem?_append_left (by omega)]
      · rw [if_neg (fun h => hoffset h.1), if_neg (fun h => hoffset h.1)]
    · have hpart : ¬(offset ≤ k ∧ k < offset + part.length) := by omega
      rw [if_neg hpart]
      by_cases hrest : k < offset + part.length + rest.length
      · rw [if_pos ⟨hk, hrest⟩, if_pos ⟨by omega, by omega⟩,
          List.getElem?_append_right (by omega), Nat.sub_sub]
      · rw [if_neg (fun h => hrest h.2), if_neg (by omega)]
  exact congrArg (fun payload => { slot with payload }) hpayload

theorem foldl_copies (slices : List Bytes) (offset : Nat) (slot : Slot) :
    (copies offset slices).foldl Slot.write slot = slot.write (.copy offset slices.flatten) := by
  induction slices generalizing offset slot with
  | nil => exact (Slot.write_copy_nil slot offset).symm
  | cons part rest ih =>
      rw [copies, List.flatten_cons]
      split
      · rename_i hnil
        rw [hnil, List.nil_append]
        exact ih offset slot
      · rw [List.foldl_cons, ih, Slot.write_copy_append]

end ShmRing

namespace ShmTransport

/-- Both functions do the same to the segment. -/
theorem writevToRegion_eq (others : Others) (dropped : UInt64) (r : Region)
    (slices : List Bytes) :
    writevToRegion others dropped r slices = writeToRegion others dropped r slices.flatten := by
  have htotal : (slices.map List.length).sum = slices.flatten.length := List.length_flatten.symm
  simp only [writevToRegion, writeToRegion, htotal, ShmRing.foldl_copies]
  rfl

end ShmTransport

namespace ShmSender

theorem sendv_flatten (s : ShmSender) (others : Others) (endpoint : Endpoint)
    (slices : List Bytes) :
    s.sendv others endpoint slices = s.send others endpoint slices.flatten := by
  simp only [sendv, send, writevToRegion_eq]

end ShmSender

end EmbedMq

import EmbedMq.Foundation.Transition
import EmbedMq.Transport.Basic
import Mathlib.Logic.Function.Basic
import Mathlib.Order.Interval.Finset.Nat

/-!
# The ring of a shared-memory inbox

Any number of producers run `writeToRegion` and `writevToRegion` on one inbox, and its owner
runs `recvLoop`. The two counters wrap around; a slot is empty or ready, and holds a length
and the bytes of a message. Each load, compare-and-swap, store and copy is a step, in one
order that all threads agree on. The event that wakes the consumer up and the limit on a
batch change nothing that is looked at here and are left out, and a callback is set.

Beside what the memory holds, the state keeps the reservations in their order, the number of
slots that the consumer has released, and for each producer whether the ring was full at
some instant of the call in progress.
-/

namespace EmbedMq

namespace ShmRing

/-- The geometry that `init` chooses. -/
structure Geometry where
  slotSize : UInt32
  slotCount : UInt32
  slotSize_ge : 64 ≤ slotSize
  slotCount_ge : 2 ≤ slotCount

/-- The smallest ring. -/
def smallest : Geometry := ⟨64, 2, by decide, by decide⟩

inductive SlotState where
  | empty
  | ready
  deriving DecidableEq

/-- A slot: `SlotHeader` and what follows it. -/
structure Slot where
  state : SlotState := .empty
  len : UInt32 := 0
  payload : Nat → UInt8 := fun _ => 0

/-! ### What a producer writes -/

/-- A write to a slot: `sh->len`, or a `memcpy` to an offset. -/
inductive SlotWrite where
  | len (n : UInt32)
  | copy (offset : Nat) (data : Bytes)

namespace Slot

def write (slot : Slot) : SlotWrite → Slot
  | .len n => { slot with len := n }
  | .copy offset data =>
      { slot with payload := fun k =>
          if offset ≤ k ∧ k < offset + data.length then data[k - offset]?.getD 0
          else slot.payload k }

/-- The first bytes after the header. -/
def read (slot : Slot) (len : Nat) : Bytes := (List.range len).map slot.payload

/-- The slot holds these bytes and their length. -/
def Holds (slot : Slot) (data : Bytes) : Prop :=
  slot.len.toNat = data.length ∧ slot.read data.length = data

end Slot

/-- The loop of `writevToRegion` over the slices; empty ones are not copied. -/
def copies : Nat → List Bytes → List SlotWrite
  | _, [] => []
  | offset, part :: rest =>
      if part = [] then copies offset rest
      else .copy offset part :: copies (offset + part.length) rest

/-- The writes to the slot, in the order of `writeToRegion` and of `writevToRegion`. -/
def slotWrites : Outgoing → List SlotWrite
  | .buffer data => [.len (UInt32.ofNat data.length), .copy 0 data]
  | .slices parts => copies 0 parts ++ [.len (UInt32.ofNat (parts.map List.length).sum)]

/-! ### The threads -/

/-- A slot that a producer has reserved. -/
structure Reserved where
  message : Outgoing
  idx : UInt32
  /-- The number of reservations before this one. -/
  number : Nat

/-- Where a producer is. -/
inductive Producer where
  | idle
  | loadHead (m : Outgoing)
  /-- `head` was loaded after `since` reservations. -/
  | loadTail (m : Outgoing) (head : UInt32) (since : Nat)
  /-- `tail` was loaded when `passed` slots had been released. -/
  | compare (m : Outgoing) (head tail : UInt32) (since passed : Nat)
  /-- In the loop that waits for the slot to be empty. -/
  | awaiting (r : Reserved) (spin : Nat)
  /-- These writes are left, and then the slot becomes ready. -/
  | writing (r : Reserved) (left : List SlotWrite)
  /-- The slot was not empty in time: it is given a length of zero, and then it becomes ready. -/
  | placeholder (r : Reserved) (sized : Bool)

/-- The slot that a producer has reserved and not yet made ready. -/
def Producer.reserved : Producer → Option Reserved
  | awaiting r _ => some r
  | writing r _ => some r
  | placeholder r _ => some r
  | _ => none

instance : (producer : Producer) → Decidable (producer = .idle)
  | .idle => isTrue rfl
  | .loadHead _ => isFalse (by rintro ⟨⟩)
  | .loadTail _ _ _ => isFalse (by rintro ⟨⟩)
  | .compare _ _ _ _ _ => isFalse (by rintro ⟨⟩)
  | .awaiting _ _ => isFalse (by rintro ⟨⟩)
  | .writing _ _ => isFalse (by rintro ⟨⟩)
  | .placeholder _ _ => isFalse (by rintro ⟨⟩)

/-- Where the consumer is, with the value of `tail` that it has loaded. -/
inductive Consumer where
  | loadTail
  | loadHead (tail : UInt32)
  | loadState (tail : UInt32)
  | readLen (tail : UInt32)
  | copy (tail len : UInt32)
  | storeEmpty (tail : UInt32) (data : Bytes)
  | storeTail (tail : UInt32) (data : Bytes)
  | callback (data : Bytes)

/-- A reservation, and whether the slot has become ready. -/
structure Reservation where
  message : Bytes
  written : Bool
  deriving DecidableEq

end ShmRing

open ShmRing

structure ShmRing where
  head : UInt32 := 0
  tail : UInt32 := 0
  slots : Nat → Slot := fun _ => {}
  producers : Nat → Producer := fun _ => .idle
  consumer : Consumer := .loadTail
  /-- The messages that the callback was invoked with. -/
  handed : List Bytes := []
  /-- The reservations in their order. -/
  reservations : List Reservation := []
  /-- The number of slots that the consumer has released. -/
  released : Nat := 0
  /-- For each producer, whether the ring was full at an instant of its call so far. -/
  sawFull : Nat → Bool := fun _ => false
  /-- The same of each call that dropped its message for want of a slot, when it did. -/
  drops : List Bool := []

namespace ShmRing

section Steps

variable (g : Geometry)

/-- The slot of an index. -/
def slotOf (index : Nat) : Nat := index % g.slotCount.toNat

def setProducer (s : ShmRing) (p : Nat) (producer : Producer) : ShmRing :=
  { s with producers := Function.update s.producers p producer }

def setSlot (s : ShmRing) (index : UInt32) (slot : Slot) : ShmRing :=
  { s with slots := Function.update s.slots (slotOf g index.toNat) slot }

def slotAt (s : ShmRing) (index : UInt32) : Slot := s.slots (slotOf g index.toNat)

/-- `tail` does not catch up with `head` within the ring. -/
def isFull (s : ShmRing) : Bool :=
  decide (s.released + g.slotCount.toNat ≤ s.reservations.length)

/-- One step of a producer. A weak compare-and-swap may fail for no reason. -/
def produce (s : ShmRing) (p : Nat) (spurious : Bool) : ShmRing :=
  match s.producers p with
  | .idle => s
  | .loadHead m => s.setProducer p (.loadTail m s.head s.reservations.length)
  | .loadTail m head since => s.setProducer p (.compare m head s.tail since s.released)
  | .compare m head tail _ _ =>
      if g.slotCount ≤ head - tail then
        { s.setProducer p .idle with drops := s.drops ++ [s.sawFull p] }
      else if s.head = head ∧ spurious = false then
        { s.setProducer p (.awaiting ⟨m, head, s.reservations.length⟩ 0) with
          head := head + 1
          reservations := s.reservations ++ [⟨m.bytes, false⟩] }
      else s.setProducer p (.loadHead m)
  | .awaiting r spin =>
      if (s.slotAt g r.idx).state = .empty then
        s.setProducer p (.writing r (slotWrites r.message))
      else if spin + 1 < 100000 then s.setProducer p (.awaiting r (spin + 1))
      else s.setProducer p (.placeholder r false)
  | .writing r (w :: left) =>
      (s.setSlot g r.idx ((s.slotAt g r.idx).write w)).setProducer p (.writing r left)
  | .writing r [] =>
      { (s.setSlot g r.idx { s.slotAt g r.idx with state := .ready }).setProducer p .idle with
        reservations := s.reservations.set r.number ⟨r.message.bytes, true⟩ }
  | .placeholder r false =>
      (s.setSlot g r.idx { s.slotAt g r.idx with len := 0 }).setProducer p (.placeholder r true)
  | .placeholder r true =>
      (s.setSlot g r.idx { s.slotAt g r.idx with state := .ready }).setProducer p .idle

/-- One step of the consumer. -/
def consume (s : ShmRing) : ShmRing :=
  match s.consumer with
  | .loadTail => { s with consumer := .loadHead s.tail }
  | .loadHead tail =>
      { s with consumer := if tail = s.head then .loadTail else .loadState tail }
  | .loadState tail =>
      { s with consumer := if (s.slotAt g tail).state = .ready then .readLen tail else .loadTail }
  | .readLen tail =>
      let len := (s.slotAt g tail).len
      let room := g.slotSize.toNat - ShmTransport.slotHeader
      { s with consumer := .copy tail (if room < len.toNat then 0 else len) }
  | .copy tail len =>
      { s with consumer := .storeEmpty tail ((s.slotAt g tail).read len.toNat) }
  | .storeEmpty tail data =>
      { s.setSlot g tail { s.slotAt g tail with state := .empty } with
        consumer := .storeTail tail data }
  | .storeTail tail data =>
      { s with tail := tail + 1, released := s.released + 1, consumer := .callback data }
  | .callback data =>
      { s with
        handed := if data = [] then s.handed else s.handed ++ [data]
        consumer := .loadTail }

inductive Label where
  /-- A producer is given a message; one that does not fit a slot is refused at once. -/
  | call (p : Nat) (m : Outgoing)
  | produce (p : Nat) (spurious : Bool)
  | consume

/-- The message fits a slot. -/
def Fits (m : Outgoing) : Prop := m.bytes.length + ShmTransport.slotHeader ≤ g.slotSize.toNat

instance (m : Outgoing) : Decidable (Fits g m) := inferInstanceAs (Decidable (_ ≤ _))

/-- Every call that is in progress sees whether the ring is full. -/
def observe (s : ShmRing) : ShmRing :=
  { s with sawFull := fun p => s.sawFull p || s.isFull g }

def next (s : ShmRing) : Label → ShmRing
  | .call p m =>
      observe g
        { s.setProducer p (.loadHead m) with sawFull := Function.update s.sawFull p false }
  | .produce p spurious => observe g (s.produce g p spurious)
  | .consume => observe g (s.consume g)

def Enabled (s : ShmRing) : Label → Prop
  | .call p m => s.producers p = .idle ∧ Fits g m
  | _ => True

instance (s : ShmRing) : (l : Label) → Decidable (Enabled g s l)
  | .call _ _ => inferInstanceAs (Decidable (_ ∧ _))
  | .produce _ _ => isTrue trivial
  | .consume => isTrue trivial

/-- All interleavings on a ring that was just initialised. -/
def system : TransitionSystem ShmRing Label where
  init s := s = {}
  enabled := Enabled g
  next := next g

instance (s : ShmRing) (l : Label) : Decidable ((system g).enabled s l) :=
  inferInstanceAs (Decidable (Enabled g s l))

end Steps

/-! ### What the steps leave alone -/

@[simp] theorem setProducer_producers (s : ShmRing) (p : Nat) (producer : Producer) :
    (s.setProducer p producer).producers p = producer :=
  Function.update_self ..

theorem setProducer_producers_of_ne (s : ShmRing) {p q : Nat} (h : q ≠ p) (producer : Producer) :
    (s.setProducer p producer).producers q = s.producers q :=
  Function.update_of_ne h ..

@[simp] theorem setSlot_slots (g : Geometry) (s : ShmRing) (index : UInt32) (slot : Slot) :
    (s.setSlot g index slot).slots (slotOf g index.toNat) = slot :=
  Function.update_self ..

theorem setSlot_slots_of_ne (g : Geometry) (s : ShmRing) {index : UInt32} {k : Nat}
    (h : k ≠ slotOf g index.toNat) (slot : Slot) :
    (s.setSlot g index slot).slots k = s.slots k :=
  Function.update_of_ne h ..

/-- Two indices of a window as long as the ring have different slots. -/
theorem slotOf_inj {g : Geometry} {low i j : Nat} (hi : low ≤ i ∧ i < low + g.slotCount.toNat)
    (hj : low ≤ j ∧ j < low + g.slotCount.toNat) (h : slotOf g i = slotOf g j) : i = j :=
  Nat.mod_injOn_Ico low g.slotCount.toNat (Finset.mem_Ico.mpr hi) (Finset.mem_Ico.mpr hj) h

/-- The slot after the ones of a window is the first one again. -/
theorem slotOf_add (g : Geometry) (i : Nat) : slotOf g (i + g.slotCount.toNat) = slotOf g i :=
  Nat.add_mod_right ..

/-! ### The counters -/

theorem counter_succ (n : Nat) : UInt32.ofNat n + 1 = UInt32.ofNat (n + 1) :=
  (UInt32.ofNat_add n 1).symm

/-- The distance of two counters is right whenever it fits them, wrapped or not. -/
theorem counter_sub {a b : Nat} (hle : b ≤ a) (hlt : a - b < 2 ^ 32) :
    (UInt32.ofNat a - UInt32.ofNat b).toNat = a - b := by
  rw [UInt32.toNat_sub, UInt32.toNat_ofNat', UInt32.toNat_ofNat']
  omega

/-! ### The writes of a message -/

@[simp] theorem Slot.write_state (slot : Slot) (w : SlotWrite) :
    (slot.write w).state = slot.state := by
  cases w <;> rfl

theorem Slot.read_length (slot : Slot) (len : Nat) : (slot.read len).length = len := by
  simp only [Slot.read, List.length_map, List.length_range]

theorem Slot.read_getElem? (slot : Slot) {len k : Nat} (h : k < len) :
    (slot.read len)[k]? = some (slot.payload k) := by
  simp only [Slot.read, List.getElem?_map, List.getElem?_range h, Option.map_some]

theorem Slot.read_write_copy {slot : Slot} {done part : Bytes}
    (h : slot.read done.length = done) :
    (slot.write (.copy done.length part)).read (done ++ part).length = done ++ part := by
  refine List.ext_getElem? fun k => ?_
  rcases Nat.lt_or_ge k (done ++ part).length with hk | hk
  · rw [Slot.read_getElem? _ hk]
    rw [List.length_append] at hk
    rcases Nat.lt_or_ge k done.length with hdone | hdone
    · have hold : some (slot.payload k) = done[k]? := by
        rw [← Slot.read_getElem? slot hdone, h]
      rw [List.getElem?_append_left hdone, ← hold]
      simp only [Slot.write, Nat.not_le.mpr hdone, false_and, if_false]
    · have hpart : k - done.length < part.length := by omega
      rw [List.getElem?_append_right hdone, List.getElem?_eq_getElem hpart]
      simp only [Slot.write, hdone, hk, true_and, if_true, List.getElem?_eq_getElem hpart,
        Option.getD_some]
  · rw [List.getElem?_eq_none hk, List.getElem?_eq_none (by rw [Slot.read_length]; exact hk)]

/-- The loop over the slices: what was copied stays, and the slices follow it. -/
theorem Slot.read_copies (parts : List Bytes) {slot : Slot} {done : Bytes}
    (h : slot.read done.length = done) :
    ((copies done.length parts).foldl Slot.write slot).read (done ++ parts.flatten).length
      = done ++ parts.flatten := by
  induction parts generalizing slot done with
  | nil =>
      rw [List.flatten_nil, List.append_nil]
      exact h
  | cons part rest ih =>
      by_cases hpart : part = []
      · simp only [copies, hpart, if_true, List.flatten_cons, List.nil_append]
        exact ih h
      · have hnext := ih (@Slot.read_write_copy slot done part h)
        simp only [copies, if_neg hpart, List.flatten_cons, List.foldl_cons]
        rw [← List.append_assoc, ← List.length_append]
        exact hnext

/-- After its writes, the slot holds the message. -/
theorem Slot.holds_slotWrites (slot : Slot) {m : Outgoing} (h : m.bytes.length < 2 ^ 32) :
    ((slotWrites m).foldl Slot.write slot).Holds m.bytes := by
  cases m with
  | buffer data =>
      refine ⟨UInt32.toNat_ofNat_of_lt h, ?_⟩
      exact @Slot.read_write_copy (slot.write (.len _)) [] data rfl
  | slices parts =>
      have hsum : (parts.map List.length).sum = parts.flatten.length := List.length_flatten.symm
      simp only [slotWrites, List.foldl_append, List.foldl_cons, List.foldl_nil, hsum]
      exact ⟨UInt32.toNat_ofNat_of_lt h, @Slot.read_copies parts _ [] rfl⟩

end ShmRing

end EmbedMq

import EmbedMq.Transport.Ring

/-!
# Safety of the ring

Below 2³² reservations the counters are the numbers of reservations and of released slots.
A slot is empty unless it holds a written message that the consumer has not taken yet, so a
producer finds its slot empty at the first check and is the only one that writes to it. The
callback gets the messages in the order of the reservations.
-/

namespace EmbedMq

namespace ShmRing

variable {g : Geometry} {s s' : ShmRing} {p q : Nat}

/-- The messages that the callback is invoked with. -/
def nonEmpty (messages : List Bytes) : List Bytes := messages.filter fun data => data ≠ []

/-- The messages of the slots that became ready, in the order of the reservations. -/
def written (s : ShmRing) : List Bytes :=
  nonEmpty ((s.reservations.filter Reservation.written).map Reservation.message)

theorem nonEmpty_append (a b : List Bytes) : nonEmpty (a ++ b) = nonEmpty a ++ nonEmpty b :=
  List.filter_append ..

theorem nonEmpty_singleton {data : Bytes} (h : data ≠ []) : nonEmpty [data] = [data] :=
  List.filter_cons_of_pos (decide_eq_true h)

/-- What holds at every instant. -/
structure Safe (g : Geometry) (s : ShmRing) : Prop where
  tail_le : s.tail ≤ s.head
  head_le : s.head.toNat ≤ s.tail.toNat + g.slotCount.toNat
  head_eq : s.head.toNat = s.reservations.length
  index {p : Nat} {r : Reserved} : (s.producers p).reserved = some r → r.idx.toNat = r.number
  /-- The first check of a producer succeeds, -/
  firstCheck {p : Nat} {r : Reserved} {spin : Nat} : s.producers p = .awaiting r spin →
    spin = 0 ∧ (s.slotAt g r.idx).state = .empty
  /-- so that it never gives up. -/
  noPlaceholder (p : Nat) (r : Reserved) (sized : Bool) : s.producers p ≠ .placeholder r sized
  /-- No two producers are at work on one slot. -/
  oneWriter {p q : Nat} {r r' : Reserved} : (s.producers p).reserved = some r →
    (s.producers q).reserved = some r' → slotOf g r.idx.toNat = slotOf g r'.idx.toNat → p = q
  /-- The slot of a message that is not consumed is written by the producer that reserved it. -/
  onlyWriter {i p : Nat} {r : Reserved} : s.tail.toNat ≤ i → i < s.head.toNat →
    (s.producers p).reserved = some r → slotOf g r.idx.toNat = slotOf g i → r.number = i
  /-- The consumer writes to no slot that a producer is at work on. -/
  notConsumer {tail : UInt32} {data : Bytes} {p : Nat} {r : Reserved} :
    s.consumer = .storeEmpty tail data → (s.producers p).reserved = some r →
      slotOf g tail.toNat ≠ slotOf g r.idx.toNat
  /-- A step that changes this slot is one of that producer, or consumes the message. -/
  changed {i : Nat} {l : Label} : s.tail.toNat ≤ i → i < s.head.toNat →
    ((system g).next s l).slots (slotOf g i) ≠ s.slots (slotOf g i) →
      (∃ p spurious r, l = .produce p spurious ∧ (s.producers p).reserved = some r ∧ r.number = i) ∨
      (l = .consume ∧ i = s.tail.toNat ∧ ∃ data, s.reservations[i]? = some ⟨data, true⟩)
  handed : s.handed <+: s.written

/-! ### The invariant -/

/-- The number of slots that the consumer has set empty. -/
def emptied (s : ShmRing) : Nat :=
  match s.consumer with
  | .storeTail _ _ => s.released + 1
  | _ => s.released

/-- The message between its slot and the callback. -/
def due (s : ShmRing) : List Bytes :=
  match s.consumer with
  | .callback data => [data]
  | _ => []

/-- A reservation that is not written yet. -/
def Owns (s : ShmRing) (r : Reserved) : Prop :=
  r.idx = UInt32.ofNat r.number ∧
    s.reservations[r.number]? = some ⟨r.message.bytes, false⟩

def ProducerOk (g : Geometry) (s : ShmRing) : Producer → Prop
  | .idle => True
  | .loadHead m => Fits g m
  | .loadTail m head since =>
      Fits g m ∧ head = UInt32.ofNat since ∧ since ≤ s.reservations.length
  | .compare m head tail since passed =>
      Fits g m ∧ head = UInt32.ofNat since ∧ since ≤ s.reservations.length ∧
        tail = UInt32.ofNat passed ∧ passed ≤ s.released
  | .awaiting r spin => Owns s r ∧ spin = 0
  | .writing r left =>
      Owns s r ∧ (left.foldl Slot.write (s.slotAt g r.idx)).Holds r.message.bytes
  | .placeholder _ _ => False

/-- The next message to consume is written. -/
def Takes (s : ShmRing) (tail : UInt32) (data : Bytes) : Prop :=
  tail = UInt32.ofNat s.released ∧ s.reservations[s.released]? = some ⟨data, true⟩

def ConsumerOk (s : ShmRing) : Consumer → Prop
  | .loadTail => True
  | .loadHead tail => tail = UInt32.ofNat s.released
  | .loadState tail => tail = UInt32.ofNat s.released ∧ s.released < s.reservations.length
  | .readLen tail => ∃ data, Takes s tail data
  | .copy tail len => ∃ data, Takes s tail data ∧ len.toNat = data.length
  | .storeEmpty tail data => Takes s tail data
  | .storeTail tail data => Takes s tail data
  | .callback _ => True

structure Inv (g : Geometry) (s : ShmRing) : Prop where
  bound : s.reservations.length < 2 ^ 32
  head : s.head = UInt32.ofNat s.reservations.length
  tail : s.tail = UInt32.ofNat s.released
  length_le : s.reservations.length ≤ s.released + g.slotCount.toNat
  fits : ∀ r ∈ s.reservations, r.message.length + ShmTransport.slotHeader ≤ g.slotSize.toNat
  consumed : ∀ i < s.emptied, ∃ data, s.reservations[i]? = some ⟨data, true⟩
  ready : ∀ i data, s.emptied ≤ i → s.reservations[i]? = some ⟨data, true⟩ →
    (s.slots (slotOf g i)).state = .ready ∧ (s.slots (slotOf g i)).Holds data
  empty : ∀ i, s.released ≤ i → i < s.released + g.slotCount.toNat →
    (s.emptied ≤ i → ∀ data, s.reservations[i]? ≠ some ⟨data, true⟩) →
      (s.slots (slotOf g i)).state = .empty
  producer : ∀ p, ProducerOk g s (s.producers p)
  distinct : ∀ p q r r', (s.producers p).reserved = some r → (s.producers q).reserved = some r' →
    r.number = r'.number → p = q
  consumer : ConsumerOk s s.consumer
  handed : s.handed ++ nonEmpty s.due =
    nonEmpty ((s.reservations.take s.released).map Reservation.message)

theorem released_le_emptied (s : ShmRing) : s.released ≤ s.emptied := by
  cases h : s.consumer <;> simp only [emptied, h] <;> omega

theorem ProducerOk.owns {producer : Producer} {r : Reserved} (h : ProducerOk g s producer)
    (hr : producer.reserved = some r) : Owns s r := by
  cases producer with
  | awaiting _ _ => cases hr; exact h.1
  | writing _ _ => cases hr; exact h.1
  | placeholder _ _ => exact h.elim
  | _ => cases hr

theorem slotCount_pos (g : Geometry) : 0 < g.slotCount.toNat :=
  Nat.lt_of_lt_of_le Nat.two_pos (UInt32.le_iff_toNat_le.mp g.slotCount_ge)

/-- What a producer relies on is not touched by the steps of the others. -/
theorem ProducerOk.frame {producer : Producer} (h : ProducerOk g s producer)
    (hlength : s.reservations.length ≤ s'.reservations.length)
    (hreleased : s.released ≤ s'.released)
    (howns : ∀ r, producer.reserved = some r → Owns s r →
      Owns s' r ∧ s'.slotAt g r.idx = s.slotAt g r.idx) :
    ProducerOk g s' producer := by
  cases producer with
  | idle => trivial
  | loadHead m => exact h
  | loadTail m head since => exact ⟨h.1, h.2.1, h.2.2.trans hlength⟩
  | compare m head tail since passed =>
      obtain ⟨hfits, hhead, hsince, htail, hpassed⟩ := h
      exact ⟨hfits, hhead, hsince.trans hlength, htail, hpassed.trans hreleased⟩
  | awaiting r spin => exact ⟨(howns r rfl h.1).1, h.2⟩
  | writing r left =>
      obtain ⟨hown, hslot⟩ := howns r rfl h.1
      refine ⟨hown, ?_⟩
      rw [hslot]
      exact h.2
  | placeholder r sized => exact h.elim

/-- What the consumer relies on: no step of a producer touches the next message. -/
theorem ConsumerOk.frame {consumer : Consumer} (h : ConsumerOk s consumer)
    (hreleased : s'.released = s.released)
    (hlength : s.reservations.length ≤ s'.reservations.length)
    (hkeep : ∀ data, s.reservations[s.released]? = some ⟨data, true⟩ →
      s'.reservations[s.released]? = some ⟨data, true⟩) :
    ConsumerOk s' consumer := by
  have htakes : ∀ {tail data}, Takes s tail data → Takes s' tail data := by
    rintro tail data ⟨htail, hdata⟩
    refine ⟨hreleased.symm ▸ htail, ?_⟩
    rw [hreleased]
    exact hkeep data hdata
  cases consumer with
  | loadTail => trivial
  | loadHead tail => exact h.trans (congrArg UInt32.ofNat hreleased.symm)
  | loadState tail =>
      refine ⟨h.1.trans (congrArg UInt32.ofNat hreleased.symm), ?_⟩
      rw [hreleased]
      exact h.2.trans_le hlength
  | readLen tail => exact h.imp fun _ => htakes
  | copy tail len => exact h.imp fun _ hdata => ⟨htakes hdata.1, hdata.2⟩
  | storeEmpty tail data => exact htakes h
  | storeTail tail data => exact htakes h
  | callback data => trivial

namespace Inv

/-- The reservations that are not written are ahead of the consumer. -/
theorem emptied_le (h : Inv g s) {r : Reserved} (hr : Owns s r) : s.emptied ≤ r.number := by
  rcases Nat.lt_or_ge r.number s.emptied with hlt | hge
  · obtain ⟨data, hdata⟩ := h.consumed _ hlt
    have hboth := hdata.symm.trans hr.2
    simp at hboth
  · exact hge

theorem lt_length {r : Reserved} (hr : Owns s r) : r.number < s.reservations.length :=
  (List.getElem?_eq_some_iff.mp hr.2).1

/-- An unwritten reservation is in the window of the ring. -/
theorem window (h : Inv g s) {r : Reserved} (hr : Owns s r) :
    s.released ≤ r.number ∧ r.number < s.released + g.slotCount.toNat :=
  ⟨(released_le_emptied s).trans (h.emptied_le hr), (lt_length hr).trans_le h.length_le⟩

theorem idx_toNat (h : Inv g s) {r : Reserved} (hr : Owns s r) : r.idx.toNat = r.number := by
  rw [hr.1]
  exact UInt32.toNat_ofNat_of_lt ((lt_length hr).trans h.bound)

theorem owns (h : Inv g s) {r : Reserved} (hr : (s.producers p).reserved = some r) : Owns s r :=
  (h.producer p).owns hr

/-- The slot of a reservation that is not written is empty. -/
theorem slot_empty (h : Inv g s) {r : Reserved} (hr : Owns s r) :
    (s.slotAt g r.idx).state = .empty := by
  rw [slotAt, h.idx_toNat hr]
  refine h.empty r.number (h.window hr).1 (h.window hr).2 fun _ data hdata => ?_
  have hboth := hdata.symm.trans hr.2
  simp at hboth

/-- The slots of the window that others have are not the one of a reservation. -/
theorem slotOf_ne (h : Inv g s) {r : Reserved} (hr : Owns s r) {i : Nat}
    (hi : s.released ≤ i ∧ i < s.released + g.slotCount.toNat) (hne : i ≠ r.number) :
    slotOf g i ≠ slotOf g r.idx.toNat := by
  rw [h.idx_toNat hr]
  exact fun heq => hne (slotOf_inj hi (h.window hr) heq)

/-! ### The steps of a producer -/

/-- Producers do not share a slot. -/
theorem slotOf_ne_of_ne (h : Inv g s) {r r' : Reserved} (hr : (s.producers p).reserved = some r)
    (hr' : (s.producers q).reserved = some r') (hne : q ≠ p) :
    slotOf g r'.idx.toNat ≠ slotOf g r.idx.toNat := by
  have hown : Owns s r' := h.owns hr'
  rw [h.idx_toNat hown]
  apply h.slotOf_ne (h.owns hr) (h.window hown)
  exact fun heq => hne (h.distinct q p r' r hr' hr heq)

/-- A write to the slot of an unwritten reservation changes no other slot of the window. -/
theorem setSlot_window (h : Inv g s) {r : Reserved} (hr : Owns s r) {i : Nat} (hle : s.released ≤ i)
    (hlt : i < s.released + g.slotCount.toNat) (hne : i ≠ r.number) (slot : Slot) :
    (s.setSlot g r.idx slot).slots (slotOf g i) = s.slots (slotOf g i) :=
  setSlot_slots_of_ne g s (h.slotOf_ne hr ⟨hle, hlt⟩ hne) slot

theorem setSlot_number (h : Inv g s) {r : Reserved} (hr : Owns s r) (slot : Slot) :
    (s.setSlot g r.idx slot).slots (slotOf g r.number) = slot := by
  rw [← h.idx_toNat hr, setSlot_slots]

theorem setSlot_other (h : Inv g s) {r r' : Reserved} (hr : Owns s r) (hr' : Owns s r')
    (hne : r'.number ≠ r.number) (slot : Slot) :
    (s.setSlot g r.idx slot).slotAt g r'.idx = s.slotAt g r'.idx := by
  rw [slotAt, slotAt, h.idx_toNat hr']
  exact h.setSlot_window hr (h.window hr').1 (h.window hr').2 hne slot

/-- A written reservation is another one than one that is not. -/
theorem ne_number {r : Reserved} (hr : Owns s r) {i : Nat} {data : Bytes}
    (hi : s.reservations[i]? = some ⟨data, true⟩) : i ≠ r.number := by
  rintro rfl
  have hboth := hi.symm.trans hr.2
  simp at hboth

/-- A written reservation that is not consumed is in the window. -/
theorem window_of_written (h : Inv g s) {i : Nat} {data : Bytes} (hle : s.emptied ≤ i)
    (hi : s.reservations[i]? = some ⟨data, true⟩) :
    s.released ≤ i ∧ i < s.released + g.slotCount.toNat :=
  ⟨(released_le_emptied s).trans hle, (List.getElem?_eq_some_iff.mp hi).1.trans_le h.length_le⟩

/-- The producers other than the one whose slot is written. -/
theorem others (h : Inv g s) {r : Reserved} (hr : (s.producers p).reserved = some r) (slot : Slot)
    {s' : ShmRing} (hlength : s'.reservations.length = s.reservations.length)
    (hreleased : s'.released = s.released) (hslots : s'.slots = (s.setSlot g r.idx slot).slots)
    (hkeep : ∀ i, i ≠ r.number → s'.reservations[i]? = s.reservations[i]?) (hne : q ≠ p) :
    ProducerOk g s' (s.producers q) := by
  apply (h.producer q).frame hlength.ge hreleased.ge
  intro r' hr' hown
  have hnumber : r'.number ≠ r.number := fun heq => hne (h.distinct q p r' r hr' hr heq)
  refine ⟨⟨hown.1, (hkeep _ hnumber).trans hown.2⟩, ?_⟩
  rw [slotAt, hslots]
  exact h.setSlot_other (h.owns hr) hown hnumber slot

/-- No producer gets a slot by writing to the one it has, or by leaving it. -/
theorem distinct_of_setProducer (h : Inv g s) {producer : Producer}
    (hkeep : ∀ r, producer.reserved = some r → (s.producers p).reserved = some r)
    (producers : Nat → Producer) (hproducers : producers = Function.update s.producers p producer) :
    ∀ q q' r r', (producers q).reserved = some r → (producers q').reserved = some r' →
      r.number = r'.number → q = q' := by
  have hreserved : ∀ q r, (producers q).reserved = some r → (s.producers q).reserved = some r := by
    intro q r hr
    rw [hproducers] at hr
    by_cases hq : q = p
    · subst hq
      rw [Function.update_self] at hr
      exact hkeep r hr
    · rw [Function.update_of_ne hq] at hr
      exact hr
  intro q q' r r' hr hr'
  exact h.distinct q q' r r' (hreserved q r hr) (hreserved q' r' hr')

/-- A producer that keeps its slot, or has none, moves on. -/
theorem setProducer (h : Inv g s) {producer : Producer} (hok : ProducerOk g s producer)
    (hkeep : ∀ r, producer.reserved = some r → (s.producers p).reserved = some r) :
    Inv g (s.setProducer p producer) := by
  refine { h with
    producer := fun q => ?_
    distinct := h.distinct_of_setProducer hkeep _ rfl }
  by_cases hq : q = p
  · subst hq
    rw [setProducer_producers]
    exact hok
  · rw [setProducer_producers_of_ne s hq]
    exact h.producer q

/-- What is recorded about full rings and dropped messages does not matter. -/
theorem ghosts (h : Inv g s) (sawFull : Nat → Bool) (drops : List Bool) :
    Inv g { s with sawFull := sawFull, drops := drops } :=
  { h with }

/-- A producer writes to its slot. -/
theorem write (h : Inv g s) {r : Reserved} (hr : (s.producers p).reserved = some r)
    {slot : Slot} (hstate : slot.state = .empty) {left : List SlotWrite}
    (hholds : (left.foldl Slot.write slot).Holds r.message.bytes) :
    Inv g ((s.setSlot g r.idx slot).setProducer p (.writing r left)) := by
  have hown : Owns s r := h.owns hr
  refine { h with
    ready := fun i data hle hi => ?_
    empty := fun i hle hlt hi => ?_
    producer := fun q => ?_
    distinct := h.distinct_of_setProducer (fun _ heq => heq ▸ hr) _ rfl }
  · have hwindow := h.window_of_written hle hi
    have hslot := h.setSlot_window hown hwindow.1 hwindow.2 (ne_number hown hi) slot
    exact hslot.symm ▸ h.ready i data hle hi
  · by_cases hne : i = r.number
    · have hslot := h.setSlot_number hown slot
      exact hne ▸ hslot.symm ▸ hstate
    · have hslot := h.setSlot_window hown hle hlt hne slot
      exact hslot.symm ▸ h.empty i hle hlt hi
  · by_cases hq : q = p
    · subst hq
      rw [setProducer_producers]
      refine ⟨hown, ?_⟩
      have hslot : ((s.setSlot g r.idx slot).setProducer q (.writing r left)).slotAt g r.idx
          = slot := setSlot_slots g s r.idx slot
      rw [hslot]
      exact hholds
    · rw [setProducer_producers_of_ne _ hq]
      exact h.others hr slot rfl rfl rfl (fun _ _ => rfl) hq

/-- A producer makes its slot ready. -/
theorem finish (h : Inv g s) {r : Reserved} (hp : s.producers p = .writing r []) :
    Inv g { (s.setSlot g r.idx { s.slotAt g r.idx with state := .ready }).setProducer p .idle with
      reservations := s.reservations.set r.number ⟨r.message.bytes, true⟩ } := by
  have hr : (s.producers p).reserved = some r := by rw [hp]; rfl
  have hown : Owns s r := h.owns hr
  have hok : ProducerOk g s (.writing r []) := hp ▸ h.producer p
  have hset : ∀ i, i ≠ r.number →
      (s.reservations.set r.number ⟨r.message.bytes, true⟩)[i]? = s.reservations[i]? :=
    fun i hne => List.getElem?_set_ne (Ne.symm hne)
  have hself : (s.reservations.set r.number ⟨r.message.bytes, true⟩)[r.number]?
      = some ⟨r.message.bytes, true⟩ := List.getElem?_set_self (lt_length hown)
  refine { h with
    bound := ?_, head := ?_, length_le := ?_, fits := ?_
    consumed := fun i hi => ?_
    ready := fun i data hle hi => ?_
    empty := fun i hle hlt hi => ?_
    producer := fun q => ?_
    distinct := h.distinct_of_setProducer (fun _ heq => by cases heq) _ rfl
    consumer := ?_, handed := ?_ }
  · exact (List.length_set ..).trans_lt h.bound
  · exact h.head.trans (congrArg UInt32.ofNat (List.length_set ..).symm)
  · exact (List.length_set ..).trans_le h.length_le
  · intro res hres
    rcases List.mem_or_eq_of_mem_set hres with hold | rfl
    · exact h.fits res hold
    · exact h.fits ⟨_, false⟩ (List.mem_of_getElem? hown.2)
  · obtain ⟨data, hdata⟩ := h.consumed i hi
    exact ⟨data, (hset i (ne_number hown hdata)).trans hdata⟩
  · by_cases hne : i = r.number
    · subst hne
      cases hself.symm.trans hi
      have hslot := h.setSlot_number hown { s.slotAt g r.idx with state := .ready }
      exact hslot.symm ▸ ⟨rfl, hok.2⟩
    · have hdata := (hset i hne).symm.trans hi
      have hwindow := h.window_of_written hle hdata
      have hslot := h.setSlot_window hown hwindow.1 hwindow.2 hne
        { s.slotAt g r.idx with state := .ready }
      exact hslot.symm ▸ h.ready i data hle hdata
  · have hne : i ≠ r.number := by
      rintro rfl
      exact hi (h.emptied_le hown) _ hself
    have hslot := h.setSlot_window hown hle hlt hne { s.slotAt g r.idx with state := .ready }
    refine hslot.symm ▸ h.empty i hle hlt fun hemptied data hdata => ?_
    exact hi hemptied data ((hset i hne).trans hdata)
  · by_cases hq : q = p
    · subst hq
      rw [setProducer_producers]
      trivial
    · rw [setProducer_producers_of_ne _ hq]
      exact h.others hr _ (List.length_set ..) rfl rfl hset hq
  · exact ConsumerOk.frame h.consumer rfl (List.length_set ..).ge fun data hdata =>
      (hset _ (ne_number hown hdata)).trans hdata
  · have htake : (s.reservations.set r.number ⟨r.message.bytes, true⟩).take s.released
        = s.reservations.take s.released := List.take_set_of_le (h.window hown).1
    exact h.handed.trans (htake.symm ▸ rfl)

theorem emptied_le_length (h : Inv g s) : s.emptied ≤ s.reservations.length := by
  rcases Nat.eq_zero_or_pos s.emptied with hzero | hpos
  · omega
  · obtain ⟨data, hdata⟩ := h.consumed (s.emptied - 1) (by omega)
    have hlt : s.emptied - 1 < s.reservations.length := (List.getElem?_eq_some_iff.mp hdata).1
    omega

theorem released_le (h : Inv g s) : s.released ≤ s.reservations.length :=
  (released_le_emptied s).trans h.emptied_le_length

/-- A compare-and-swap only succeeds on the value of `head` that is still current, and
`tail` has not gone back: the check on the loaded values is one on the ring. -/
theorem room_of_compare (h : Inv g s) {m : Outgoing} {head tail : UInt32} {since passed : Nat}
    (hp : s.producers p = .compare m head tail since passed)
    (hroom : ¬ g.slotCount ≤ head - tail) (hcas : s.head = head) :
    s.reservations.length + 1 ≤ s.released + g.slotCount.toNat := by
  have hok : ProducerOk g s (.compare m head tail since passed) := hp ▸ h.producer p
  obtain ⟨-, -, -, htail, hpassed⟩ := hok
  have hreleased : s.released ≤ s.reservations.length := h.released_le
  have hbound : s.reservations.length < 2 ^ 32 := h.bound
  have hdistance : (head - tail).toNat = s.reservations.length - passed := by
    rw [← hcas, h.head, htail]
    exact counter_sub (hpassed.trans hreleased) (by omega)
  have hlt : (head - tail).toNat < g.slotCount.toNat :=
    UInt32.lt_iff_toNat_lt.mp (UInt32.not_le.mp hroom)
  omega

theorem reservation_old {res : Reservation} {i : Nat} (m : Outgoing)
    (hi : s.reservations[i]? = some res) :
    (s.reservations ++ [⟨m.bytes, false⟩])[i]? = some res :=
  (List.getElem?_append_left (List.getElem?_eq_some_iff.mp hi).1).trans hi

/-- A new reservation is not written yet. -/
theorem reservation_written {m : Outgoing} {data : Bytes} {i : Nat}
    (hi : (s.reservations ++ [⟨m.bytes, false⟩])[i]? = some ⟨data, true⟩) :
    s.reservations[i]? = some ⟨data, true⟩ := by
  rcases Nat.lt_or_ge i s.reservations.length with hlt | hge
  · exact (List.getElem?_append_left hlt).symm.trans hi
  · rw [List.getElem?_append_right hge] at hi
    cases List.mem_singleton.mp (List.mem_of_getElem? hi)

/-- A new index is above all those that producers hold. -/
theorem distinct_of_reserve (h : Inv g s) (m : Outgoing) (head : UInt32)
    (producers : Nat → Producer) (hproducers : producers = Function.update s.producers p
      (.awaiting ⟨m, head, s.reservations.length⟩ 0)) :
    ∀ q q' r r', (producers q).reserved = some r → (producers q').reserved = some r' →
      r.number = r'.number → q = q' := by
  have hholder : ∀ q r, (producers q).reserved = some r →
      q = p ∧ r.number = s.reservations.length ∨ (s.producers q).reserved = some r := by
    intro q r hr
    rw [hproducers] at hr
    by_cases hq : q = p
    · subst hq
      rw [Function.update_self] at hr
      cases hr
      exact .inl ⟨rfl, rfl⟩
    · rw [Function.update_of_ne hq] at hr
      exact .inr hr
  intro q q' r r' hr hr' hnumber
  rcases hholder q r hr with ⟨hq, hlast⟩ | hqold <;>
    rcases hholder q' r' hr' with ⟨hq', hlast'⟩ | hqold'
  · exact hq.trans hq'.symm
  · have hlt := lt_length (h.owns hqold')
    omega
  · have hlt := lt_length (h.owns hqold)
    omega
  · exact h.distinct q q' r r' hqold hqold' hnumber

/-- A producer reserves the next slot. -/
theorem reserve (h : Inv g s) {m : Outgoing} (hfits : Fits g m)
    (hbound : s.reservations.length + 1 < 2 ^ 32)
    (hroom : s.reservations.length + 1 ≤ s.released + g.slotCount.toNat) :
    Inv g { s.setProducer p (.awaiting ⟨m, s.head, s.reservations.length⟩ 0) with
      head := s.head + 1
      reservations := s.reservations ++ [⟨m.bytes, false⟩] } := by
  have hlength : (s.reservations ++ [(⟨m.bytes, false⟩ : Reservation)]).length
      = s.reservations.length + 1 := List.length_append
  refine { h with
    bound := ?_, head := ?_, length_le := ?_, fits := ?_
    consumed := fun i hi => ?_
    ready := fun i data hle hi => h.ready i data hle (reservation_written hi)
    empty := fun i hle hlt hi =>
      h.empty i hle hlt fun hemptied data hdata => hi hemptied data (reservation_old m hdata)
    producer := fun q => ?_
    distinct := h.distinct_of_reserve m s.head _ rfl
    consumer := ?_, handed := ?_ }
  · exact hlength.trans_lt hbound
  · rw [hlength, ← counter_succ, ← h.head]
  · exact hlength.trans_le hroom
  · intro res hres
    rcases List.mem_append.mp hres with hmem | hmem
    · exact h.fits res hmem
    · cases List.mem_singleton.mp hmem
      exact hfits
  · obtain ⟨data, hdata⟩ := h.consumed i hi
    exact ⟨data, reservation_old m hdata⟩
  · by_cases hq : q = p
    · subst hq
      rw [setProducer_producers]
      exact ⟨⟨h.head, List.getElem?_concat_length⟩, rfl⟩
    · rw [setProducer_producers_of_ne _ hq]
      apply (h.producer q).frame
      · rw [hlength]
        exact Nat.le_succ _
      · exact Nat.le_refl _
      · exact fun r _ hown => ⟨⟨hown.1, reservation_old m hown.2⟩, rfl⟩
  · refine ConsumerOk.frame h.consumer rfl ?_ fun _ hdata => reservation_old m hdata
    rw [hlength]
    exact Nat.le_succ _
  · have htake : (s.reservations ++ [(⟨m.bytes, false⟩ : Reservation)]).take s.released
        = s.reservations.take s.released := List.take_append_of_le_length h.released_le
    exact h.handed.trans (htake.symm ▸ rfl)

theorem produce (h : Inv g s) (p : Nat) (spurious : Bool)
    (hbound : (s.produce g p spurious).reservations.length < 2 ^ 32) :
    Inv g (s.produce g p spurious) := by
  have hok : ProducerOk g s (s.producers p) := h.producer p
  cases hp : s.producers p with
  | idle =>
      simp only [ShmRing.produce, hp]
      exact h
  | loadHead m =>
      rw [hp] at hok
      simp only [ShmRing.produce, hp]
      refine h.setProducer ?_ ?_
      · exact ⟨hok, h.head, Nat.le_refl _⟩
      · rintro r ⟨⟩
  | loadTail m head since =>
      rw [hp] at hok
      simp only [ShmRing.produce, hp]
      refine h.setProducer ?_ ?_
      · exact ⟨hok.1, hok.2.1, hok.2.2, h.tail, Nat.le_refl _⟩
      · rintro r ⟨⟩
  | compare m head tail since passed =>
      rw [hp] at hok
      by_cases hfull : g.slotCount ≤ head - tail
      · simp only [ShmRing.produce, hp, if_pos hfull]
        apply Inv.ghosts
        refine h.setProducer ?_ ?_
        · trivial
        · rintro r ⟨⟩
      · by_cases hcas : s.head = head ∧ spurious = false
        · have hroom := h.room_of_compare hp hfull hcas.1
          simp only [ShmRing.produce, hp, if_neg hfull, if_pos hcas] at hbound ⊢
          rw [← hcas.1]
          exact h.reserve hok.1 (List.length_append.symm.trans_lt hbound) hroom
        · simp only [ShmRing.produce, hp, if_neg hfull, if_neg hcas]
          refine h.setProducer ?_ ?_
          · exact hok.1
          · rintro r ⟨⟩
  | awaiting r spin =>
      rw [hp] at hok
      have hempty := h.slot_empty hok.1
      simp only [ShmRing.produce, hp, if_pos hempty]
      apply h.setProducer
      · refine ⟨hok.1, Slot.holds_slotWrites _ ?_⟩
        have hfits := h.fits ⟨_, false⟩ (List.mem_of_getElem? hok.1.2)
        have hsize : g.slotSize.toNat < 2 ^ 32 := g.slotSize.toNat_lt
        exact (Nat.le_add_right _ _).trans_lt (hfits.trans_lt hsize)
      · rintro r' ⟨⟩
        rw [hp]
        rfl
  | writing r left =>
      rw [hp] at hok
      cases left with
      | nil =>
          simp only [ShmRing.produce, hp]
          exact h.finish hp
      | cons w left =>
          simp only [ShmRing.produce, hp]
          apply h.write (by rw [hp]; rfl)
          · rw [Slot.write_state]
            exact h.slot_empty hok.1
          · exact hok.2
  | placeholder r sized =>
      rw [hp] at hok
      exact hok.elim

/-! ### The steps of the consumer -/

/-- The consumer moves on without a store and without a callback. -/
theorem setConsumer (h : Inv g s) {consumer : Consumer} (hok : ConsumerOk s consumer)
    (hbefore : s.emptied = s.released ∧ s.due = [])
    (hafter : emptied { s with consumer := consumer } = s.released ∧
      due { s with consumer := consumer } = []) :
    Inv g { s with consumer := consumer } := by
  have hemptied := hafter.1.trans hbefore.1.symm
  have hdue := hafter.2.trans hbefore.2.symm
  refine { h with
    consumed := hemptied ▸ h.consumed
    ready := hemptied ▸ h.ready
    empty := hemptied ▸ h.empty
    consumer := hok
    handed := hdue ▸ h.handed }

/-- A ready slot at `tail` holds the next message. -/
theorem written_of_ready (h : Inv g s) (hready : (s.slots (slotOf g s.released)).state = .ready) :
    ∃ data, s.reservations[s.released]? = some ⟨data, true⟩ := by
  by_contra hnone
  have hempty := h.empty s.released (Nat.le_refl _) (Nat.lt_add_of_pos_right (slotCount_pos g))
    fun _ data hdata => hnone ⟨data, hdata⟩
  rw [hready] at hempty
  cases hempty

theorem tail_toNat (h : Inv g s) {tail : UInt32} (htail : tail = UInt32.ofNat s.released) :
    tail.toNat = s.released := by
  rw [htail]
  exact UInt32.toNat_ofNat_of_lt (h.released_le.trans_lt h.bound)

/-- The slot that the consumer reads holds the next message. -/
theorem slotAt_holds (h : Inv g s) {tail : UInt32} {data : Bytes} (htakes : Takes s tail data)
    (hemptied : s.emptied = s.released) : (s.slotAt g tail).Holds data := by
  rw [slotAt, h.tail_toNat htakes.1]
  exact (h.ready s.released data hemptied.le htakes.2).2

/-- The consumer sets the slot of the next message empty. -/
theorem storeEmpty (h : Inv g s) {tail : UInt32} {data : Bytes}
    (hc : s.consumer = .storeEmpty tail data) :
    Inv g { s.setSlot g tail { s.slotAt g tail with state := .empty } with
      consumer := .storeTail tail data } := by
  have htakes : ConsumerOk s (.storeEmpty tail data) := hc ▸ h.consumer
  have hemptied : s.emptied = s.released := by simp only [emptied, hc]
  have hdue : s.due = [] := by simp only [due, hc]
  have htail : tail.toNat = s.released := h.tail_toNat htakes.1
  have hpos : 0 < g.slotCount.toNat := slotCount_pos g
  have hkeep : ∀ i, s.released ≤ i → i < s.released + g.slotCount.toNat → i ≠ s.released →
      (s.setSlot g tail { s.slotAt g tail with state := .empty }).slots (slotOf g i)
        = s.slots (slotOf g i) := by
    intro i hle hlt hne
    apply setSlot_slots_of_ne
    rw [htail]
    exact fun heq => hne (slotOf_inj ⟨hle, hlt⟩ ⟨Nat.le_refl _, by omega⟩ heq)
  refine { h with
    consumed := fun i hi => ?_
    ready := fun i data' hle hi => ?_
    empty := fun i hle hlt hi => ?_
    producer := fun p => ?_
    consumer := htakes
    handed := (congrArg (s.handed ++ nonEmpty ·) hdue).symm.trans h.handed }
  · have hle : i ≤ s.released := Nat.lt_succ_iff.mp hi
    rcases Nat.lt_or_eq_of_le hle with hlt | rfl
    · exact h.consumed i (hemptied.symm ▸ hlt)
    · exact ⟨data, htakes.2⟩
  · have hlt : s.released < i := hle
    have hwindow := h.window_of_written (hemptied.trans_le hlt.le) hi
    have hslot := hkeep i hwindow.1 hwindow.2 hlt.ne'
    exact hslot.symm ▸ h.ready i data' (hemptied.trans_le hlt.le) hi
  · by_cases hne : i = s.released
    · have hslot := setSlot_slots g s tail { s.slotAt g tail with state := .empty }
      rw [htail] at hslot
      exact hne ▸ hslot.symm ▸ rfl
    · refine (hkeep i hle hlt hne).symm ▸ h.empty i hle hlt fun _ => hi ?_
      exact Nat.lt_of_le_of_ne hle (Ne.symm hne)
  · refine (h.producer p).frame (Nat.le_refl _) (Nat.le_refl _) fun r _ hown => ⟨hown, ?_⟩
    have hne : r.number ≠ s.released := (ne_number hown htakes.2).symm
    have hslot := hkeep r.number (h.window hown).1 (h.window hown).2 hne
    rw [← h.idx_toNat hown] at hslot
    exact hslot

/-- The consumer advances `tail`. -/
theorem storeTail (h : Inv g s) {tail : UInt32} {data : Bytes}
    (hc : s.consumer = .storeTail tail data) :
    Inv g { s with tail := tail + 1, released := s.released + 1, consumer := .callback data } := by
  have htakes : ConsumerOk s (.storeTail tail data) := hc ▸ h.consumer
  have hemptied : s.emptied = s.released + 1 := by simp only [emptied, hc]
  have hdue : s.due = [] := by simp only [due, hc]
  refine { h with
    tail := ?_, length_le := ?_
    consumed := hemptied ▸ h.consumed
    ready := hemptied ▸ h.ready
    empty := fun i hle hlt hi => ?_
    producer := fun p => ?_
    consumer := trivial
    handed := ?_ }
  · exact (congrArg (· + 1) htakes.1).trans (counter_succ s.released)
  · have hle := h.length_le
    exact hle.trans (Nat.add_le_add_right (Nat.le_succ _) _)
  · rcases Nat.lt_or_ge i (s.released + g.slotCount.toNat) with hin | hout
    · have hle' : s.released + 1 ≤ i := hle
      exact h.empty i (Nat.le_of_succ_le hle') hin fun _ => hi hle
    · -- the slot that enters the window is the one that was just set empty
      have hlt' : i < s.released + 1 + g.slotCount.toNat := hlt
      have heq : i = s.released + g.slotCount.toNat := by omega
      rw [heq, slotOf_add]
      apply h.empty s.released (Nat.le_refl _) (Nat.lt_add_of_pos_right (slotCount_pos g))
      intro hle
      omega
  · refine (h.producer p).frame (Nat.le_refl _) (Nat.le_succ _) fun r _ hown => ?_
    exact ⟨hown, rfl⟩
  · have hhanded := h.handed
    rw [hdue] at hhanded
    have htake : s.reservations.take (s.released + 1)
        = s.reservations.take s.released ++ [⟨data, true⟩] := by
      rw [List.take_add_one, htakes.2, Option.toList_some]
    calc s.handed ++ nonEmpty [data]
        = nonEmpty ((s.reservations.take s.released).map Reservation.message) ++ nonEmpty [data] :=
          congrArg (· ++ nonEmpty [data]) ((List.append_nil _).symm.trans hhanded)
      _ = nonEmpty ((s.reservations.take (s.released + 1)).map Reservation.message) := by
          rw [htake, List.map_append, nonEmpty_append]
          rfl

theorem consume (h : Inv g s) : Inv g (s.consume g) := by
  have hok : ConsumerOk s s.consumer := h.consumer
  cases hc : s.consumer with
  | loadTail =>
      have hquiet : s.emptied = s.released ∧ s.due = [] := by simp only [emptied, due, hc, and_self]
      simp only [ShmRing.consume, hc]
      refine h.setConsumer ?_ hquiet ⟨rfl, rfl⟩
      exact h.tail
  | loadHead tail =>
      have hquiet : s.emptied = s.released ∧ s.due = [] := by simp only [emptied, due, hc, and_self]
      rw [hc] at hok
      simp only [ShmRing.consume, hc]
      by_cases hnone : tail = s.head
      · rw [if_pos hnone]
        exact h.setConsumer (by trivial) hquiet ⟨rfl, rfl⟩
      · rw [if_neg hnone]
        refine h.setConsumer ?_ hquiet ⟨rfl, rfl⟩
        refine ⟨hok, Nat.lt_of_le_of_ne h.released_le fun heq => hnone ?_⟩
        rw [h.head, ← heq]
        exact hok
  | loadState tail =>
      have hquiet : s.emptied = s.released ∧ s.due = [] := by simp only [emptied, due, hc, and_self]
      rw [hc] at hok
      simp only [ShmRing.consume, hc]
      by_cases hready : (s.slotAt g tail).state = .ready
      · rw [if_pos hready]
        refine h.setConsumer ?_ hquiet ⟨rfl, rfl⟩
        rw [slotAt, h.tail_toNat hok.1] at hready
        obtain ⟨data, hdata⟩ := h.written_of_ready hready
        exact ⟨data, hok.1, hdata⟩
      · rw [if_neg hready]
        exact h.setConsumer (by trivial) hquiet ⟨rfl, rfl⟩
  | readLen tail =>
      have hquiet : s.emptied = s.released ∧ s.due = [] := by simp only [emptied, due, hc, and_self]
      rw [hc] at hok
      obtain ⟨data, htakes⟩ := hok
      have hholds := h.slotAt_holds htakes hquiet.1
      have hfits := h.fits ⟨data, true⟩ (List.mem_of_getElem? htakes.2)
      have hroom : ¬ g.slotSize.toNat - ShmTransport.slotHeader < (s.slotAt g tail).len.toNat := by
        rw [hholds.1]
        exact Nat.not_lt.mpr (Nat.le_sub_of_add_le hfits)
      simp only [ShmRing.consume, hc, if_neg hroom]
      refine h.setConsumer ?_ hquiet ⟨rfl, rfl⟩
      exact ⟨data, htakes, hholds.1⟩
  | copy tail len =>
      have hquiet : s.emptied = s.released ∧ s.due = [] := by simp only [emptied, due, hc, and_self]
      rw [hc] at hok
      obtain ⟨data, htakes, hlen⟩ := hok
      have hholds := h.slotAt_holds htakes hquiet.1
      simp only [ShmRing.consume, hc, hlen, hholds.2]
      refine h.setConsumer ?_ hquiet ⟨rfl, rfl⟩
      exact htakes
  | storeEmpty tail data =>
      simp only [ShmRing.consume, hc]
      exact h.storeEmpty hc
  | storeTail tail data =>
      simp only [ShmRing.consume, hc]
      exact h.storeTail hc
  | callback data =>
      simp only [ShmRing.consume, hc]
      have hemptied : s.emptied = s.released := by simp only [emptied, hc]
      have hdue : s.due = [data] := by simp only [due, hc]
      refine { h with
        consumed := hemptied ▸ h.consumed
        ready := hemptied ▸ h.ready
        empty := hemptied ▸ h.empty
        consumer := trivial
        handed := ?_ }
      have hinvoked : (if data = [] then s.handed else s.handed ++ [data])
          = s.handed ++ nonEmpty [data] := by
        by_cases hdata : data = []
        · rw [if_pos hdata, hdata]
          exact (List.append_nil _).symm
        · rw [if_neg hdata, nonEmpty_singleton hdata]
      refine (List.append_nil _).trans (hinvoked.trans ?_)
      exact (congrArg (s.handed ++ nonEmpty ·) hdue).symm.trans h.handed

theorem init (g : Geometry) : Inv g {} where
  bound := by decide
  head := rfl
  tail := rfl
  length_le := Nat.zero_le _
  fits := by rintro r ⟨⟩
  consumed := by rintro i ⟨⟩
  ready := by rintro i data - ⟨⟩
  empty := by
    intro i _ _ _
    rfl
  producer _ := trivial
  distinct := by rintro p q r r' ⟨⟩
  consumer := trivial
  handed := rfl

/-- The invariant holds of every state that is reached with less than 2³² reservations. -/
theorem next (h : Inv g s) {l : Label} (henabled : (system g).enabled s l)
    (hbound : ((system g).next s l).reservations.length < 2 ^ 32) :
    Inv g ((system g).next s l) := by
  cases l with
  | call p m =>
      obtain ⟨-, hfits⟩ : s.producers p = .idle ∧ Fits g m := henabled
      refine (h.setProducer ?_ ?_).ghosts _ _
      · exact hfits
      · rintro r ⟨⟩
  | produce p spurious => exact (h.produce p spurious hbound).ghosts _ _
  | consume => exact h.consume.ghosts _ _

end Inv

theorem length_le_produce (g : Geometry) (s : ShmRing) (p : Nat) (spurious : Bool) :
    s.reservations.length ≤ (s.produce g p spurious).reservations.length := by
  cases hp : s.producers p with
  | compare m head tail since passed =>
      simp only [ShmRing.produce, hp]
      split_ifs
      · exact Nat.le_refl _
      · exact (List.length_append ..).symm ▸ Nat.le_add_right _ _
      · exact Nat.le_refl _
  | awaiting r spin =>
      simp only [ShmRing.produce, hp]
      split_ifs <;> exact Nat.le_refl _
  | writing r left =>
      cases left with
      | nil => simp [ShmRing.produce, hp]
      | cons w left => simp [ShmRing.produce, hp, setProducer, ShmRing.setSlot]
  | placeholder r sized =>
      cases sized <;> simp [ShmRing.produce, hp, setProducer, ShmRing.setSlot]
  | _ => simp [ShmRing.produce, hp, setProducer]

theorem length_le_consume (g : Geometry) (s : ShmRing) :
    s.reservations.length ≤ (s.consume g).reservations.length := by
  cases hc : s.consumer <;> simp [ShmRing.consume, hc, ShmRing.setSlot]

/-- A producer only writes to the slot that it has reserved. -/
theorem produce_slots (g : Geometry) (s : ShmRing) (p : Nat) (spurious : Bool) {k : Nat}
    (h : (s.produce g p spurious).slots k ≠ s.slots k) :
    ∃ r, (s.producers p).reserved = some r ∧ k = slotOf g r.idx.toNat := by
  have hwrite : ∀ {index : UInt32} {slot : Slot},
      (s.setSlot g index slot).slots k ≠ s.slots k → k = slotOf g index.toNat :=
    fun hne => by_contra fun hk => hne (setSlot_slots_of_ne g s hk _)
  cases hp : s.producers p with
  | compare m head tail since passed =>
      simp only [ShmRing.produce, hp] at h
      split_ifs at h <;> exact absurd rfl h
  | awaiting r spin =>
      simp only [ShmRing.produce, hp] at h
      split_ifs at h <;> exact absurd rfl h
  | writing r left =>
      cases left with
      | nil =>
          simp only [ShmRing.produce, hp] at h
          exact ⟨r, rfl, hwrite h⟩
      | cons w left =>
          simp only [ShmRing.produce, hp] at h
          exact ⟨r, rfl, hwrite h⟩
  | placeholder r sized =>
      cases sized <;> simp only [ShmRing.produce, hp] at h <;> exact ⟨r, rfl, hwrite h⟩
  | _ =>
      simp only [ShmRing.produce, hp] at h
      exact absurd rfl h

/-- The consumer only writes to the slot of the message that it has just copied. -/
theorem consume_slots (g : Geometry) (s : ShmRing) {k : Nat}
    (h : (s.consume g).slots k ≠ s.slots k) :
    ∃ tail data, s.consumer = .storeEmpty tail data ∧ k = slotOf g tail.toNat := by
  cases hc : s.consumer with
  | storeEmpty tail data =>
      simp only [ShmRing.consume, hc] at h
      exact ⟨tail, data, rfl, by_contra fun hk => h (setSlot_slots_of_ne g s hk _)⟩
  | _ =>
      simp only [ShmRing.consume, hc] at h
      exact absurd rfl h

/-- No step takes a reservation back. -/
theorem length_le_next (s : ShmRing) (l : Label) :
    s.reservations.length ≤ ((system g).next s l).reservations.length := by
  cases l with
  | call p m => exact Nat.le_refl _
  | produce p spurious => exact length_le_produce g s p spurious
  | consume => exact length_le_consume g s

theorem inv_of_reachable (h : (system g).Reachable s) (hbound : s.reservations.length < 2 ^ 32) :
    Inv g s := by
  refine @TransitionSystem.Reachable.invariant_below _ _ (system g) (Inv g)
    (fun s => s.reservations.length < 2 ^ 32) ?_ ?_ ?_ s h hbound
  · exact fun s l hnext => (length_le_next s l).trans_lt hnext
  · rintro s rfl
    exact Inv.init g
  · exact fun s l _ hinv henabled hnext => hinv.next henabled hnext

namespace Inv

/-- The consumed messages are the first ones that are written. -/
theorem handed_prefix (h : Inv g s) : s.handed <+: s.written := by
  have hall : (s.reservations.take s.released).filter Reservation.written
      = s.reservations.take s.released := by
    apply List.filter_eq_self.mpr
    intro res hres
    obtain ⟨i, hi, rfl⟩ := List.mem_take_iff_getElem.mp hres
    obtain ⟨data, hdata⟩ := h.consumed i (by have := released_le_emptied s; omega)
    rw [List.getElem?_eq_getElem (by omega)] at hdata
    rw [Option.some.inj hdata]
  have htake : s.reservations.take s.released <+: s.reservations.filter Reservation.written := by
    rw [← hall]
    exact (List.take_prefix _ _).filter _
  have hdelivered : s.handed ++ nonEmpty s.due <+: s.written := by
    rw [h.handed]
    exact (htake.map _).filter _
  exact (List.prefix_append _ _).trans hdelivered

theorem head_toNat (h : Inv g s) : s.head.toNat = s.reservations.length := by
  rw [h.head]
  exact UInt32.toNat_ofNat_of_lt h.bound

/-- What a step does to the slot of a message that is not consumed. -/
theorem changed (h : Inv g s) {i : Nat} {l : Label} (hle : s.released ≤ i)
    (hlt : i < s.reservations.length)
    (hne : ((system g).next s l).slots (slotOf g i) ≠ s.slots (slotOf g i)) :
    (∃ p spurious r, l = .produce p spurious ∧ (s.producers p).reserved = some r ∧ r.number = i) ∨
    (l = .consume ∧ i = s.released ∧ ∃ data, s.reservations[i]? = some ⟨data, true⟩) := by
  have hwindow : s.released ≤ i ∧ i < s.released + g.slotCount.toNat :=
    ⟨hle, hlt.trans_le h.length_le⟩
  cases l with
  | call p m => exact absurd rfl hne
  | produce p spurious =>
      obtain ⟨r, hr, hslot⟩ := produce_slots g s p spurious hne
      refine .inl ⟨p, spurious, r, rfl, hr, ?_⟩
      by_contra hnumber
      exact h.slotOf_ne (h.owns hr) hwindow (Ne.symm hnumber) hslot
  | consume =>
      obtain ⟨tail, data, hc, hslot⟩ := consume_slots g s hne
      have htakes : ConsumerOk s (.storeEmpty tail data) := hc ▸ h.consumer
      rw [h.tail_toNat htakes.1] at hslot
      have hi : i = s.released :=
        slotOf_inj hwindow ⟨Nat.le_refl _, Nat.lt_add_of_pos_right (slotCount_pos g)⟩ hslot
      exact .inr ⟨rfl, hi, data, hi ▸ htakes.2⟩

theorem toSafe (h : Inv g s) : Safe g s := by
  have hhead : s.head.toNat = s.reservations.length := h.head_toNat
  have htail : s.tail.toNat = s.released := h.tail_toNat h.tail
  refine
    { tail_le := ?_, head_le := ?_, head_eq := hhead
      index := fun hr => h.idx_toNat (h.owns hr)
      firstCheck := fun hp => ?_, noPlaceholder := fun p r sized hp => ?_
      oneWriter := fun hr hr' hslot => ?_
      onlyWriter := fun {i p r} hle hlt hr hslot => ?_
      notConsumer := fun {tail data p r} hc hr => ?_
      changed := fun {i l} hle hlt hne => ?_
      handed := h.handed_prefix }
  · apply UInt32.le_iff_toNat_le.mpr
    rw [hhead, htail]
    exact h.released_le
  · rw [hhead, htail]
    exact h.length_le
  · have hok : ProducerOk g s (.awaiting _ _) := hp ▸ h.producer _
    exact ⟨hok.2, h.slot_empty hok.1⟩
  · have hok : ProducerOk g s (.placeholder r sized) := hp ▸ h.producer p
    exact hok
  · by_contra hne
    exact h.slotOf_ne_of_ne hr' hr hne hslot
  · rw [htail] at hle
    rw [hhead] at hlt
    by_contra hne
    exact h.slotOf_ne (h.owns hr) ⟨hle, hlt.trans_le h.length_le⟩ (Ne.symm hne) hslot.symm
  · have htakes : ConsumerOk s (.storeEmpty tail data) := hc ▸ h.consumer
    have hown : Owns s r := h.owns hr
    rw [h.tail_toNat htakes.1]
    apply h.slotOf_ne hown ⟨Nat.le_refl _, Nat.lt_add_of_pos_right (slotCount_pos g)⟩
    exact ne_number hown htakes.2
  · rw [htail] at hle ⊢
    rw [hhead] at hlt
    exact h.changed hle hlt hne

end Inv

/-- At every instant of every interleaving, below 2³² reservations. -/
theorem safe (h : (system g).Reachable s) (hbound : s.reservations.length < 2 ^ 32) : Safe g s :=
  (inv_of_reachable h hbound).toSafe

/-- Two producers and the consumer take turns. -/
def interleaved : List Label :=
  .call 0 (.buffer [1]) :: .call 1 (.buffer [2]) ::
    (List.replicate 24 [.produce 0 false, .produce 1 false, .consume]).flatten

theorem safe_interleaved :
    Safe smallest ((system smallest).exec {} interleaved) ∧
      ((system smallest).exec {} interleaved).handed = [[1], [2]] := by
  have hadmits : (system smallest).Admits {} interleaved := by decide
  exact ⟨safe (.exec (.init rfl) hadmits) (by decide), by decide⟩

end ShmRing

end EmbedMq

import EmbedMq.Transport.RingSafety

/-!
# Waking up the consumer of a ring

A producer that has made its slot ready runs `wakeConsumer`: it adds one to `notify` and
wakes a thread that waits there. The consumer takes at most 64 messages in a batch. After a
batch without a message it loads `notify`, looks once more whether the ring is empty, and then
waits until `notify` differs from the loaded value. The kernel compares and goes to sleep in
one step; the wait ends after 2 ms at the latest, and may end for no reason.

The ring itself is the one of `Transport.Ring`: what happens there is a run of it. The number
of each announced reservation is kept beside it.
-/

namespace EmbedMq

namespace ShmRing

/-- Where a producer is in `wakeConsumer`, and for which reservation. -/
inductive WakeConsumer where
  | returned
  | fetchAdd (number : Nat)
  | futexWake (number : Nat)

/-- Where the consumer is in a round of `recvLoop`. -/
inductive RecvLoop where
  /-- In the loop over a batch, with this many messages so far. -/
  | batch (taken : Nat)
  | loadNotify
  /-- `notify` had the value `v`. -/
  | loadTail (v : UInt32)
  | loadHead (v tail : UInt32)
  | futexWait (v : UInt32)
  | asleep
  deriving DecidableEq

/-- The places of a round that look at the ring without being in a batch. -/
def RecvLoop.inBatch : RecvLoop → Bool
  | batch _ => true
  | _ => false

instance : (w : WakeConsumer) → Decidable (w = .returned)
  | .returned => isTrue rfl
  | .fetchAdd _ => isFalse (by rintro ⟨⟩)
  | .futexWake _ => isFalse (by rintro ⟨⟩)

end ShmRing

open ShmRing

structure WakingRing where
  ring : ShmRing := {}
  notify : UInt32 := 0
  waking : Nat → WakeConsumer := fun _ => .returned
  receiver : RecvLoop := .batch 0
  /-- The reservations for which `notify` was incremented, in that order. -/
  announced : List Nat := []

namespace WakingRing

section Steps

variable (g : Geometry)

def setWaking (s : WakingRing) (p : Nat) (w : WakeConsumer) : WakingRing :=
  { s with waking := Function.update s.waking p w }

/-- The wait ends, if the consumer waits. -/
def rouse (s : WakingRing) : WakingRing :=
  { s with receiver := if s.receiver = .asleep then .batch 0 else s.receiver }

/-- `wakeConsumer` is called after the slot was made ready. -/
def called : Producer → WakeConsumer
  | .writing r [] => .fetchAdd r.number
  | .placeholder r true => .fetchAdd r.number
  | _ => .returned

/-- One step of a producer, in `writeToRegion` or in `wakeConsumer`. -/
def produce (s : WakingRing) (p : Nat) (spurious : Bool) : WakingRing :=
  match s.waking p with
  | .returned =>
      { s.setWaking p (called (s.ring.producers p)) with
        ring := ShmRing.next g s.ring (.produce p spurious) }
  | .fetchAdd number =>
      { s.setWaking p (.futexWake number) with
        notify := s.notify + 1
        announced := s.announced ++ [number] }
  | .futexWake _ => s.rouse.setWaking p .returned

/-- The end of a batch: `gotAny` tells whether it had a message. -/
def afterBatch (taken : Nat) : RecvLoop := if taken = 0 then .loadNotify else .batch 0

/-- Where a step in a batch leads to. -/
def afterStep (s : ShmRing) (taken : Nat) : RecvLoop :=
  match s.consumer with
  | .loadHead tail => if tail = s.head then afterBatch taken else .batch taken
  | .loadState tail => if (s.slotAt g tail).state = .ready then .batch taken else afterBatch taken
  | .callback _ => if taken + 1 < 64 then .batch (taken + 1) else afterBatch (taken + 1)
  | _ => .batch taken

/-- One step of `recvLoop`. -/
def receive (s : WakingRing) : WakingRing :=
  match s.receiver with
  | .batch taken =>
      { s with ring := ShmRing.next g s.ring .consume, receiver := afterStep g s.ring taken }
  | .loadNotify => { s with receiver := .loadTail s.notify }
  | .loadTail v => { s with receiver := .loadHead v s.ring.tail }
  | .loadHead v tail =>
      { s with receiver := if tail = s.ring.head then .futexWait v else .batch 0 }
  | .futexWait v => { s with receiver := if s.notify = v then .asleep else .batch 0 }
  | .asleep => s

inductive Label where
  /-- A producer is given a message; one that does not fit a slot is refused at once. -/
  | call (p : Nat) (m : Outgoing)
  | produce (p : Nat) (spurious : Bool)
  | receive
  /-- The wait ends without a wake-up. -/
  | rouse

def next (s : WakingRing) : Label → WakingRing
  | .call p m => { s with ring := ShmRing.next g s.ring (.call p m) }
  | .produce p spurious => s.produce g p spurious
  | .receive => s.receive g
  | .rouse => s.rouse

def Enabled (s : WakingRing) : Label → Prop
  | .call p m => ShmRing.Enabled g s.ring (.call p m) ∧ s.waking p = .returned
  | _ => True

instance (s : WakingRing) : (l : Label) → Decidable (Enabled g s l)
  | .call _ _ => inferInstanceAs (Decidable (_ ∧ _))
  | .produce _ _ => isTrue trivial
  | .receive => isTrue trivial
  | .rouse => isTrue trivial

/-- All interleavings on a ring that was just initialised. -/
def system : TransitionSystem WakingRing Label where
  init s := s = {}
  enabled := Enabled g
  next := next g

instance (s : WakingRing) (l : Label) : Decidable ((system g).enabled s l) :=
  inferInstanceAs (Decidable (Enabled g s l))

end Steps

variable {g : Geometry} {s : WakingRing} {p : Nat}

/-! ### The ring -/

/-- A step is one of the ring, or leaves the ring alone. -/
theorem ring_next (s : WakingRing) (l : Label) :
    (next g s l).ring = s.ring ∨
      ∃ l', (Enabled g s l → ShmRing.Enabled g s.ring l') ∧
        (next g s l).ring = ShmRing.next g s.ring l' := by
  cases l with
  | call p m => exact .inr ⟨.call p m, And.left, rfl⟩
  | produce p spurious =>
      simp only [next, produce]
      split
      · exact .inr ⟨.produce p spurious, fun _ => trivial, rfl⟩
      · exact .inl rfl
      · exact .inl rfl
  | receive =>
      simp only [next, receive]
      split
      · exact .inr ⟨.consume, fun _ => trivial, rfl⟩
      all_goals exact .inl rfl
  | rouse => exact .inl rfl

/-- What happens in the ring is a run of the ring alone. -/
theorem refines_ring : (system g).Refines (ShmRing.system g) WakingRing.ring where
  init hinit := by
    rw [hinit]
    exact rfl
  step {s l} _ _ henabled := by
    change (ShmRing.system g).Leads s.ring (next g s l).ring
    obtain hsame | ⟨l', henabled', hnext⟩ := ring_next (g := g) s l
    · rw [hsame]
      exact .refl _
    · rw [hnext]
      exact .head (henabled' henabled) (.refl _)

/-! ### What a step does to the reservations -/

/-- What a step of a producer means for the reservations: nothing, a new one, or a written one. -/
inductive Reserves (s s' : ShmRing) (p : Nat) : Prop where
  | same : called (s.producers p) = .returned → s'.reservations = s.reservations →
      (s'.producers p).reserved = (s.producers p).reserved → Reserves s s' p
  | reserve (m : Bytes) (r : Reserved) : called (s.producers p) = .returned →
      s'.reservations = s.reservations ++ [⟨m, false⟩] → (s.producers p).reserved = none →
      (s'.producers p).reserved = some r → r.number = s.reservations.length → Reserves s s' p
  | write (r : Reserved) : s.producers p = .writing r [] →
      s'.reservations = s.reservations.set r.number ⟨r.message.bytes, true⟩ →
      (s'.producers p).reserved = none → Reserves s s' p

theorem reserves_produce {s : ShmRing} (h : ShmRing.Inv g s) (p : Nat) (spurious : Bool) :
    Reserves s (s.produce g p spurious) p := by
  have hok : ProducerOk g s (s.producers p) := h.producer p
  cases hp : s.producers p with
  | idle => exact .same (by rw [hp]; rfl) (by simp only [ShmRing.produce, hp]) (by
      simp only [ShmRing.produce, hp])
  | loadHead m =>
      simp only [ShmRing.produce, hp]
      refine .same (by rw [hp]; rfl) rfl ?_
      rw [setProducer_producers, hp]
      rfl
  | loadTail m head since =>
      simp only [ShmRing.produce, hp]
      refine .same (by rw [hp]; rfl) rfl ?_
      rw [setProducer_producers, hp]
      rfl
  | compare m head tail since passed =>
      simp only [ShmRing.produce, hp]
      have hnone : (s.producers p).reserved = none := by rw [hp]; rfl
      split_ifs
      · refine .same (by rw [hp]; rfl) rfl ?_
        exact (congrArg Producer.reserved (setProducer_producers s p .idle)).trans hnone.symm
      · refine .reserve m.bytes ⟨m, head, s.reservations.length⟩ (by rw [hp]; rfl) rfl hnone ?_ rfl
        exact congrArg Producer.reserved (setProducer_producers s p _)
      · refine .same (by rw [hp]; rfl) rfl ?_
        exact (congrArg Producer.reserved (setProducer_producers s p _)).trans hnone.symm
  | awaiting r spin =>
      rw [hp] at hok
      have hslot := h.slot_empty hok.1
      simp only [ShmRing.produce, hp, hslot, if_true]
      refine .same (by rw [hp]; rfl) rfl ?_
      rw [setProducer_producers, hp]
      rfl
  | writing r left =>
      cases left with
      | nil =>
          simp only [ShmRing.produce, hp]
          refine .write r hp rfl ?_
          exact congrArg Producer.reserved (setProducer_producers (s.setSlot g r.idx _) p .idle)
      | cons w left =>
          simp only [ShmRing.produce, hp]
          refine .same (by rw [hp]; rfl) rfl ?_
          rw [setProducer_producers, hp]
          rfl
  | placeholder r sized =>
      rw [hp] at hok
      exact hok.elim

theorem produce_others (s : ShmRing) {p q : Nat} (spurious : Bool) (hne : q ≠ p) :
    (s.produce g p spurious).producers q = s.producers q := by
  cases hp : s.producers p with
  | compare m head tail since passed =>
      simp only [ShmRing.produce, hp]
      split_ifs <;> exact setProducer_producers_of_ne s hne _
  | awaiting r spin =>
      simp only [ShmRing.produce, hp]
      split_ifs <;> exact setProducer_producers_of_ne s hne _
  | writing r left =>
      cases left <;> simp only [ShmRing.produce, hp] <;>
        exact setProducer_producers_of_ne (s.setSlot g r.idx _) hne _
  | placeholder r sized =>
      cases sized <;> simp only [ShmRing.produce, hp] <;>
        exact setProducer_producers_of_ne (s.setSlot g r.idx _) hne _
  | idle => simp only [ShmRing.produce, hp]
  | _ =>
      simp only [ShmRing.produce, hp]
      exact setProducer_producers_of_ne s hne _

theorem produce_consumer (s : ShmRing) (p : Nat) (spurious : Bool) :
    (s.produce g p spurious).consumer = s.consumer ∧
      (s.produce g p spurious).released = s.released := by
  cases hp : s.producers p with
  | compare m head tail since passed =>
      simp only [ShmRing.produce, hp]
      split_ifs <;> exact ⟨rfl, rfl⟩
  | awaiting r spin =>
      simp only [ShmRing.produce, hp]
      split_ifs <;> exact ⟨rfl, rfl⟩
  | writing r left => cases left <;> simp only [ShmRing.produce, hp] <;> exact ⟨rfl, rfl⟩
  | placeholder r sized => cases sized <;> simp only [ShmRing.produce, hp] <;> exact ⟨rfl, rfl⟩
  | idle => simp only [ShmRing.produce, hp, and_self]
  | _ =>
      simp only [ShmRing.produce, hp]
      exact ⟨rfl, rfl⟩

theorem consume_kept (s : ShmRing) :
    (s.consume g).reservations = s.reservations ∧ (s.consume g).producers = s.producers := by
  cases hc : s.consumer <;> simp [ShmRing.consume, hc, ShmRing.setSlot]

theorem length_le_next (s : WakingRing) (l : Label) :
    s.ring.reservations.length ≤ ((system g).next s l).ring.reservations.length := by
  change _ ≤ (next g s l).ring.reservations.length
  obtain hsame | ⟨l', -, hnext⟩ := ring_next (g := g) s l
  · rw [hsame]
  · rw [hnext]
    exact ShmRing.length_le_next s.ring l'

/-! ### The invariant -/

/-- A producer is in the call that made this reservation, before the wake-up. -/
def Unannounced (s : WakingRing) (p i : Nat) : Prop :=
  (∃ r, (s.ring.producers p).reserved = some r ∧ r.number = i) ∨ s.waking p = .fetchAdd i

/-- `notify` had the value `v`, and what had been announced by then is consumed. -/
def Checked (s : WakingRing) (v : UInt32) : Prop :=
  ∃ k ≤ s.announced.length, v = UInt32.ofNat k ∧ ∀ i ∈ s.announced.take k, i < s.ring.released

def RecvLoopOk (s : WakingRing) : RecvLoop → Prop
  | .batch _ => True
  | .loadNotify => True
  | .loadTail v => ∃ k ≤ s.announced.length, v = UInt32.ofNat k
  | .loadHead v tail =>
      (∃ k ≤ s.announced.length, v = UInt32.ofNat k) ∧ tail = UInt32.ofNat s.ring.released
  | .futexWait v => s.Checked v
  | .asleep => ∀ i ∈ s.announced, s.ring.released ≤ i → ∃ p, s.waking p = .futexWake i

structure Inv (g : Geometry) (s : WakingRing) : Prop where
  ring : ShmRing.Inv g s.ring
  outside : s.receiver.inBatch = false → s.ring.consumer = .loadTail
  notify : s.notify = UInt32.ofNat s.announced.length
  nodup : s.announced.Nodup
  announced : ∀ i ∈ s.announced, ∃ data, s.ring.reservations[i]? = some ⟨data, true⟩
  fetchAdd : ∀ p i, s.waking p = .fetchAdd i →
    (∃ data, s.ring.reservations[i]? = some ⟨data, true⟩) ∧ i ∉ s.announced
  distinct : ∀ p q i, s.waking p = .fetchAdd i → s.waking q = .fetchAdd i → p = q
  accounted : ∀ i < s.ring.reservations.length, i ∈ s.announced ∨ ∃ p, s.Unannounced p i
  receiver : RecvLoopOk s s.receiver

namespace Inv

theorem lt_length (h : Inv g s) {i : Nat} (hi : i ∈ s.announced) :
    i < s.ring.reservations.length := by
  obtain ⟨data, hdata⟩ := h.announced i hi
  exact (List.getElem?_eq_some_iff.mp hdata).1

/-- Each reservation is announced once. -/
theorem announced_length_le (h : Inv g s) :
    s.announced.length ≤ s.ring.reservations.length := by
  have hsub : s.announced ⊆ List.range s.ring.reservations.length :=
    fun i hi => List.mem_range.mpr (h.lt_length hi)
  have hle := (List.subperm_of_subset h.nodup hsub).length_le
  rwa [List.length_range] at hle

/-- `notify` tells two moments apart. -/
theorem notify_eq_iff (h : Inv g s) {k : Nat} (hk : k ≤ s.announced.length) :
    s.notify = UInt32.ofNat k ↔ s.announced.length = k := by
  have hlt : s.announced.length < 2 ^ 32 := h.announced_length_le.trans_lt h.ring.bound
  rw [h.notify, ← UInt32.toNat_inj, UInt32.toNat_ofNat_of_lt' hlt,
    UInt32.toNat_ofNat_of_lt' (hk.trans_lt hlt)]

theorem init (g : Geometry) : Inv g {} where
  ring := ShmRing.Inv.init g
  outside := by rintro ⟨⟩
  notify := rfl
  nodup := List.nodup_nil
  announced := by rintro i ⟨⟩
  fetchAdd := by rintro p i ⟨⟩
  distinct := by rintro p q i ⟨⟩
  accounted := by rintro i ⟨⟩
  receiver := trivial

end Inv

/-- What the consumer relies on outside of a batch, for steps that announce nothing. -/
theorem RecvLoopOk.frame {s' : WakingRing} {place : RecvLoop} (h : RecvLoopOk s place)
    (hannounced : s'.announced = s.announced) (hreleased : s'.ring.released = s.ring.released)
    (hwake : ∀ q i, s.waking q = .futexWake i → s'.waking q = .futexWake i) :
    RecvLoopOk s' place := by
  cases place with
  | batch taken => trivial
  | loadNotify => trivial
  | loadTail v =>
      obtain ⟨k, hk, hv⟩ := h
      exact ⟨k, hannounced.symm ▸ hk, hv⟩
  | loadHead v tail =>
      obtain ⟨⟨k, hk, hv⟩, htail⟩ := h
      exact ⟨⟨k, hannounced.symm ▸ hk, hv⟩, hreleased.symm ▸ htail⟩
  | futexWait v =>
      obtain ⟨k, hk, hv, hbelow⟩ := h
      refine ⟨k, hannounced.symm ▸ hk, hv, ?_⟩
      rw [hannounced, hreleased]
      exact hbelow
  | asleep =>
      intro i hi hle
      rw [hannounced] at hi
      rw [hreleased] at hle
      obtain ⟨q, hq⟩ := h i hi hle
      exact ⟨q, hwake q i hq⟩

namespace Inv

/-! ### The steps of a producer -/

/-- A producer starts a call. -/
theorem call (h : Inv g s) {m : Outgoing} (henabled : Enabled g s (.call p m)) :
    Inv g (next g s (.call p m)) := by
  obtain ⟨hring, -⟩ := henabled
  have hidle : (s.ring.producers p).reserved = none := by
    rw [hring.1]
    rfl
  refine { h with
    ring := h.ring.next hring h.ring.bound
    accounted := fun i hi => (h.accounted i hi).imp_right ?_
    receiver := h.receiver.frame rfl rfl fun _ _ => id }
  rintro ⟨q, ⟨r, hr, hnumber⟩ | hq⟩
  · refine ⟨q, .inl ⟨r, ?_, hnumber⟩⟩
    have hne : q ≠ p := by
      rintro rfl
      rw [hidle] at hr
      cases hr
    exact (congrArg Producer.reserved (setProducer_producers_of_ne s.ring hne _)).trans hr
  · exact ⟨q, .inr hq⟩

/-- A reservation that is written stays so. -/
theorem written_kept (h : Inv g s) {s' : ShmRing} (hstep : Reserves s.ring s' p) {i : Nat}
    (hi : ∃ data, s.ring.reservations[i]? = some ⟨data, true⟩) :
    ∃ data, s'.reservations[i]? = some ⟨data, true⟩ := by
  obtain ⟨data, hdata⟩ := hi
  have hlt : i < s.ring.reservations.length := (List.getElem?_eq_some_iff.mp hdata).1
  cases hstep with
  | same _ hreservations _ => exact ⟨data, hreservations.symm ▸ hdata⟩
  | reserve m r _ hreservations _ _ _ =>
      refine ⟨data, ?_⟩
      rw [hreservations, List.getElem?_append_left hlt]
      exact hdata
  | write r hp hreservations _ =>
      have hown : Owns s.ring r := h.ring.owns (by rw [hp]; rfl)
      refine ⟨data, ?_⟩
      rw [hreservations, List.getElem?_set_ne (ShmRing.Inv.ne_number hown hdata).symm]
      exact hdata

/-- Every reservation is announced, or its producer still has to announce it. -/
theorem accounted_produce (h : Inv g s) (hreturned : s.waking p = .returned) {s' : ShmRing}
    (hstep : Reserves s.ring s' p)
    (hothers : ∀ q, q ≠ p → s'.producers q = s.ring.producers q) :
    ∀ i < s'.reservations.length, i ∈ s.announced ∨
      ∃ q, Unannounced { s.setWaking p (called (s.ring.producers p)) with ring := s' } q i := by
  have hkeep : ∀ q i, q ≠ p → s.Unannounced q i →
      Unannounced { s.setWaking p (called (s.ring.producers p)) with ring := s' } q i := by
    rintro q i hne (⟨r, hr, hnumber⟩ | hq)
    · exact .inl ⟨r, (congrArg Producer.reserved (hothers q hne)).trans hr, hnumber⟩
    · exact .inr ((Function.update_of_ne hne _ _).trans hq)
  intro i hi
  cases hstep with
  | same _ hreservations hreserved =>
      rw [hreservations] at hi
      refine (h.accounted i hi).imp_right ?_
      rintro ⟨q, hq⟩
      by_cases hne : q = p
      · obtain ⟨r, hr, hnumber⟩ | hq := hq
        · rw [hne] at hr
          exact ⟨p, .inl ⟨r, hreserved.trans hr, hnumber⟩⟩
        · rw [hne, hreturned] at hq
          cases hq
      · exact ⟨q, hkeep q i hne hq⟩
  | reserve m r _ hreservations hnone hreserved hnumber =>
      rw [hreservations, List.length_append, List.length_singleton] at hi
      rcases Nat.lt_or_ge i s.ring.reservations.length with hlt | hge
      · refine (h.accounted i hlt).imp_right ?_
        rintro ⟨q, hq⟩
        refine ⟨q, hkeep q i ?_ hq⟩
        rintro rfl
        obtain ⟨r', hr', -⟩ | hq := hq
        · rw [hnone] at hr'
          cases hr'
        · rw [hreturned] at hq
          cases hq
      · exact .inr ⟨p, .inl ⟨r, hreserved, by omega⟩⟩
  | write r hp hreservations _ =>
      rw [hreservations, List.length_set] at hi
      refine (h.accounted i hi).imp_right ?_
      rintro ⟨q, hq⟩
      by_cases hne : q = p
      · obtain ⟨r', hr', hnumber⟩ | hq := hq
        · rw [hne, hp] at hr'
          obtain rfl := Option.some.inj hr'
          refine ⟨p, .inr ?_⟩
          rw [← hnumber]
          exact (Function.update_self p _ _).trans (by rw [hp]; rfl)
        · rw [hne, hreturned] at hq
          cases hq
      · exact ⟨q, hkeep q i hne hq⟩

/-- What a producer that has just written its message is to announce. -/
theorem called_fetchAdd (h : Inv g s) {s' : ShmRing} (hstep : Reserves s.ring s' p) {i : Nat}
    (hcalled : called (s.ring.producers p) = .fetchAdd i) :
    (∃ data, s'.reservations[i]? = some ⟨data, true⟩) ∧
      ∀ data, s.ring.reservations[i]? ≠ some ⟨data, true⟩ := by
  cases hstep with
  | same hreturned _ _ => rw [hreturned] at hcalled; cases hcalled
  | reserve m r hreturned _ _ _ _ => rw [hreturned] at hcalled; cases hcalled
  | write r hp hreservations _ =>
      have hown : Owns s.ring r := h.ring.owns (by rw [hp]; rfl)
      rw [hp] at hcalled
      obtain rfl := WakeConsumer.fetchAdd.inj hcalled
      refine ⟨⟨r.message.bytes, ?_⟩, fun data hdata => ShmRing.Inv.ne_number hown hdata rfl⟩
      rw [hreservations]
      exact List.getElem?_set_self (ShmRing.Inv.lt_length hown)

/-- A step of `writeToRegion`. -/
theorem produce_ring (h : Inv g s) {spurious : Bool} (hreturned : s.waking p = .returned)
    (hbound : (s.ring.produce g p spurious).reservations.length < 2 ^ 32) :
    Inv g { s.setWaking p (called (s.ring.producers p)) with
      ring := ShmRing.next g s.ring (.produce p spurious) } := by
  have hstep : Reserves s.ring (ShmRing.next g s.ring (.produce p spurious)) p := by
    have hreserves := reserves_produce h.ring p spurious
    cases hreserves with
    | same hcalled hreservations hreserved => exact .same hcalled hreservations hreserved
    | reserve m r hcalled hreservations hnone hreserved hnumber =>
        exact .reserve m r hcalled hreservations hnone hreserved hnumber
    | write r hp hreservations hreserved => exact .write r hp hreservations hreserved
  obtain ⟨hconsumer, hreleased⟩ := produce_consumer (g := g) s.ring p spurious
  have hwaking : ∀ q i, Function.update s.waking p (called (s.ring.producers p)) q = .fetchAdd i →
      (q = p ∧ called (s.ring.producers p) = .fetchAdd i) ∨ (q ≠ p ∧ s.waking q = .fetchAdd i) := by
    intro q i hq
    by_cases hne : q = p
    · rw [hne, Function.update_self] at hq
      exact .inl ⟨hne, hq⟩
    · rw [Function.update_of_ne hne] at hq
      exact .inr ⟨hne, hq⟩
  refine
    { ring := h.ring.next (l := .produce p spurious) trivial hbound
      outside := fun houtside => hconsumer.trans (h.outside houtside)
      notify := h.notify
      nodup := h.nodup
      announced := fun i hi => h.written_kept hstep (h.announced i hi)
      fetchAdd := fun q i hq => ?_
      distinct := fun q q' i hq hq' => ?_
      accounted := h.accounted_produce hreturned hstep fun q hne =>
        produce_others s.ring spurious hne
      receiver := h.receiver.frame rfl hreleased fun q i hq => ?_ }
  · obtain ⟨-, hcalled⟩ | ⟨-, hq⟩ := hwaking q i hq
    · obtain ⟨hwritten, hnot⟩ := h.called_fetchAdd hstep hcalled
      refine ⟨hwritten, fun hi => ?_⟩
      obtain ⟨data, hdata⟩ := h.announced i hi
      exact hnot data hdata
    · exact ⟨h.written_kept hstep (h.fetchAdd q i hq).1, (h.fetchAdd q i hq).2⟩
  · -- a reservation that was only just written is not one that another producer announces
    have hnew : ∀ q, s.waking q = .fetchAdd i → called (s.ring.producers p) ≠ .fetchAdd i := by
      intro q hq hcalled
      obtain ⟨data, hdata⟩ := (h.fetchAdd q i hq).1
      exact (h.called_fetchAdd hstep hcalled).2 data hdata
    obtain ⟨rfl, hcalled⟩ | ⟨-, hold⟩ := hwaking q i hq <;>
      obtain ⟨rfl, hcalled'⟩ | ⟨-, hold'⟩ := hwaking q' i hq'
    · rfl
    · exact absurd hcalled (hnew q' hold')
    · exact absurd hcalled' (hnew q hold)
    · exact h.distinct q q' i hold hold'
  · have hne : q ≠ p := by
      rintro rfl
      rw [hreturned] at hq
      cases hq
    exact (Function.update_of_ne hne _ _).trans hq

/-- A producer increments `notify`. -/
theorem announce (h : Inv g s) {number : Nat} (hp : s.waking p = .fetchAdd number) :
    Inv g { s.setWaking p (.futexWake number) with
      notify := s.notify + 1
      announced := s.announced ++ [number] } := by
  obtain ⟨hwritten, hnew⟩ := h.fetchAdd p number hp
  have hwaking : ∀ q i, Function.update s.waking p (.futexWake number) q = .fetchAdd i →
      q ≠ p ∧ s.waking q = .fetchAdd i := by
    intro q i hq
    have hne : q ≠ p := by
      rintro rfl
      rw [Function.update_self] at hq
      cases hq
    rw [Function.update_of_ne hne] at hq
    exact ⟨hne, hq⟩
  refine { h with
    notify := ?_, nodup := ?_, announced := fun i hi => ?_, fetchAdd := fun q i hq => ?_
    distinct := fun q q' i hq hq' => h.distinct q q' i (hwaking q i hq).2 (hwaking q' i hq').2
    accounted := fun i hi => ?_, receiver := ?_ }
  · change s.notify + 1 = _
    rw [h.notify, List.length_append, List.length_singleton]
    exact counter_succ _
  · exact List.nodup_append.mpr ⟨h.nodup, List.nodup_singleton _, fun i hi j hj => by
      rw [List.mem_singleton.mp hj]
      rintro rfl
      exact hnew hi⟩
  · obtain hi | hi := List.mem_append.mp hi
    · exact h.announced i hi
    · exact (List.mem_singleton.mp hi) ▸ hwritten
  · obtain ⟨hne, hq⟩ := hwaking q i hq
    refine ⟨(h.fetchAdd q i hq).1, fun hi => ?_⟩
    obtain hi | hi := List.mem_append.mp hi
    · exact (h.fetchAdd q i hq).2 hi
    · rw [List.mem_singleton.mp hi] at hq
      exact hne (h.distinct q p number hq hp)
  · obtain hi | ⟨q, ⟨r, hr, hnumber⟩ | hq⟩ := h.accounted i hi
    · exact .inl (List.mem_append_left _ hi)
    · exact .inr ⟨q, .inl ⟨r, hr, hnumber⟩⟩
    · by_cases hne : q = p
      · rw [hne, hp] at hq
        obtain rfl := WakeConsumer.fetchAdd.inj hq
        exact .inl (List.mem_append_right _ (List.mem_singleton_self _))
      · exact .inr ⟨q, .inr ((Function.update_of_ne hne _ _).trans hq)⟩
  · have hloaded : ∀ {k : Nat}, k ≤ s.announced.length →
        k ≤ (s.announced ++ [number]).length := fun hk =>
      hk.trans (List.length_append ▸ Nat.le_add_right _ _)
    have hok := h.receiver
    change RecvLoopOk _ s.receiver
    cases hreceiver : s.receiver with
    | batch taken => trivial
    | loadNotify => trivial
    | loadTail v =>
        rw [hreceiver] at hok
        obtain ⟨k, hk, hv⟩ := hok
        exact ⟨k, hloaded hk, hv⟩
    | loadHead v tail =>
        rw [hreceiver] at hok
        obtain ⟨⟨k, hk, hv⟩, htail⟩ := hok
        exact ⟨⟨k, hloaded hk, hv⟩, htail⟩
    | futexWait v =>
        rw [hreceiver] at hok
        obtain ⟨k, hk, hv, hbelow⟩ := hok
        refine ⟨k, hloaded hk, hv, ?_⟩
        rw [List.take_append_of_le_length hk]
        exact hbelow
    | asleep =>
        rw [hreceiver] at hok
        intro i hi hle
        obtain hi | hi := List.mem_append.mp hi
        · obtain ⟨q, hq⟩ := hok i hi hle
          refine ⟨q, (Function.update_of_ne ?_ _ _).trans hq⟩
          rintro rfl
          rw [hp] at hq
          cases hq
        · rw [List.mem_singleton.mp hi]
          exact ⟨p, Function.update_self ..⟩

/-- The consumer no longer sleeps. -/
theorem rouse (h : Inv g s) : Inv g s.rouse := by
  by_cases hasleep : s.receiver = .asleep
  · simp only [WakingRing.rouse, hasleep, if_true]
    exact { h with
      outside := fun houtside => Bool.noConfusion houtside
      receiver := trivial }
  · simp only [WakingRing.rouse, hasleep, if_false]
    exact h

/-- A producer returns after the wake-up. -/
theorem returned (h : Inv g s) {number : Nat} (hp : s.waking p = .futexWake number)
    (hawake : s.receiver ≠ .asleep) : Inv g (s.setWaking p .returned) := by
  have hwaking : ∀ q i, Function.update s.waking p .returned q = .fetchAdd i →
      s.waking q = .fetchAdd i := by
    intro q i hq
    by_cases hne : q = p
    · rw [hne, Function.update_self] at hq
      cases hq
    · rwa [Function.update_of_ne hne] at hq
  refine { h with
    fetchAdd := fun q i hq => h.fetchAdd q i (hwaking q i hq)
    distinct := fun q q' i hq hq' => h.distinct q q' i (hwaking q i hq) (hwaking q' i hq')
    accounted := fun i hi => (h.accounted i hi).imp_right ?_
    receiver := ?_ }
  · rintro ⟨q, hreserved | hq⟩
    · exact ⟨q, .inl hreserved⟩
    · refine ⟨q, .inr ((Function.update_of_ne ?_ _ _).trans hq)⟩
      rintro rfl
      rw [hp] at hq
      cases hq
  · have hok := h.receiver
    change RecvLoopOk _ s.receiver
    -- only the sleeping consumer relies on the producers
    cases hreceiver : s.receiver with
    | asleep => exact absurd hreceiver hawake
    | _ => rw [hreceiver] at hok; exact hok

theorem rouse_ne (s : WakingRing) : s.rouse.receiver ≠ .asleep := by
  by_cases hasleep : s.receiver = .asleep
  · simp only [WakingRing.rouse, hasleep, if_true]
    exact RecvLoop.noConfusion
  · simp only [WakingRing.rouse, hasleep, if_false]
    exact hasleep

theorem produce (h : Inv g s) (p : Nat) (spurious : Bool)
    (hbound : (s.produce g p spurious).ring.reservations.length < 2 ^ 32) :
    Inv g (s.produce g p spurious) := by
  cases hp : s.waking p with
  | returned =>
      simp only [WakingRing.produce, hp] at hbound ⊢
      exact h.produce_ring hp hbound
  | fetchAdd number =>
      simp only [WakingRing.produce, hp]
      exact h.announce hp
  | futexWake number =>
      simp only [WakingRing.produce, hp]
      exact h.rouse.returned hp (rouse_ne s)

/-! ### The steps of the consumer -/

/-- After a batch that ends, the consumer looks at the ring from the start. -/
theorem consumer_afterStep {ring : ShmRing} {taken : Nat}
    (h : (afterStep g ring taken).inBatch = false) : (ring.consume g).consumer = .loadTail := by
  cases hc : ring.consumer with
  | loadHead tail =>
      simp only [afterStep, hc] at h
      simp only [ShmRing.consume, hc]
      split_ifs at h ⊢
      · rfl
      · cases h
  | loadState tail =>
      simp only [afterStep, hc] at h
      simp only [ShmRing.consume, hc]
      split_ifs at h ⊢
      · cases h
      · rfl
  | callback data =>
      simp only [ShmRing.consume, hc]
  | _ =>
      simp only [afterStep, hc] at h
      cases h

theorem receiver_afterStep (ring : ShmRing) (taken : Nat) :
    RecvLoopOk s (afterStep g ring taken) := by
  have hafter : ∀ n, RecvLoopOk s (afterBatch n) := by
    intro n
    rw [afterBatch]
    split_ifs <;> trivial
  rw [afterStep]
  split
  · split_ifs
    · exact hafter taken
    · trivial
  · split_ifs
    · trivial
    · exact hafter taken
  · split_ifs
    · trivial
    · exact hafter (taken + 1)
  · trivial

/-- The consumer moves on outside of a batch. -/
theorem setReceiver (h : Inv g s) {place : RecvLoop} (houtside : s.ring.consumer = .loadTail)
    (hok : RecvLoopOk s place) : Inv g { s with receiver := place } := by
  refine { h with outside := fun _ => houtside, receiver := ?_ }
  cases place <;> exact hok

theorem receive (h : Inv g s) : Inv g (s.receive g) := by
  have hok : RecvLoopOk s s.receiver := h.receiver
  have houtside := h.outside
  cases hreceiver : s.receiver with
  | batch taken =>
      simp only [WakingRing.receive, hreceiver]
      obtain ⟨hreservations, hproducers⟩ := consume_kept (g := g) s.ring
      have hlength : (s.ring.consume g).reservations.length < 2 ^ 32 := by
        rw [hreservations]
        exact h.ring.bound
      refine
        { ring := h.ring.next (l := .consume) trivial hlength
          outside := consumer_afterStep
          notify := h.notify
          nodup := h.nodup
          announced := fun i hi => ?_
          fetchAdd := fun p i hp => ?_
          distinct := h.distinct
          accounted := fun i hi => ?_
          receiver := receiver_afterStep _ _ }
      · exact hreservations.symm ▸ h.announced i hi
      · exact hreservations.symm ▸ h.fetchAdd p i hp
      · refine (h.accounted i (hreservations ▸ hi)).imp_right ?_
        rintro ⟨q, ⟨r, hr, hnumber⟩ | hq⟩
        · refine ⟨q, .inl ⟨r, ?_, hnumber⟩⟩
          exact (congrArg (fun f => (f q).reserved) hproducers).trans hr
        · exact ⟨q, .inr hq⟩
  | loadNotify =>
      rw [hreceiver] at houtside
      simp only [WakingRing.receive, hreceiver]
      exact h.setReceiver (houtside rfl) ⟨s.announced.length, Nat.le_refl _, h.notify⟩
  | loadTail v =>
      rw [hreceiver] at hok houtside
      simp only [WakingRing.receive, hreceiver]
      exact h.setReceiver (houtside rfl) ⟨hok, h.ring.tail⟩
  | loadHead v tail =>
      rw [hreceiver] at hok houtside
      obtain ⟨⟨k, hk, hv⟩, htail⟩ := hok
      simp only [WakingRing.receive, hreceiver]
      refine h.setReceiver (houtside rfl) ?_
      split_ifs with hempty
      · -- the ring is empty, so that everything that has been announced is consumed
        have hlength : s.ring.released = s.ring.reservations.length := by
          have hboth : s.ring.tail = s.ring.head := (h.ring.tail.trans htail.symm).trans hempty
          rw [← h.ring.tail_toNat h.ring.tail, hboth, h.ring.head_toNat]
        refine ⟨k, hk, hv, fun i hi => ?_⟩
        rw [hlength]
        exact h.lt_length (List.mem_of_mem_take hi)
      · trivial
  | futexWait v =>
      rw [hreceiver] at hok houtside
      obtain ⟨k, hk, hv, hbelow⟩ := hok
      simp only [WakingRing.receive, hreceiver]
      refine h.setReceiver (houtside rfl) ?_
      split_ifs with hsame
      · -- nothing was announced since `notify` was loaded
        rw [hv, h.notify_eq_iff hk] at hsame
        rw [← hsame, List.take_length] at hbelow
        intro i hi hle
        exact absurd (hbelow i hi) (Nat.not_lt.mpr hle)
      · trivial
  | asleep =>
      simp only [WakingRing.receive, hreceiver]
      exact h

/-- The invariant holds of every state that is reached with less than 2³² reservations. -/
theorem next (h : Inv g s) {l : Label} (henabled : Enabled g s l)
    (hbound : (WakingRing.next g s l).ring.reservations.length < 2 ^ 32) :
    Inv g (WakingRing.next g s l) := by
  cases l with
  | call p m => exact h.call henabled
  | produce p spurious => exact h.produce p spurious hbound
  | receive => exact h.receive
  | rouse => exact h.rouse

end Inv

theorem inv_of_reachable (h : (system g).Reachable s)
    (hbound : s.ring.reservations.length < 2 ^ 32) : Inv g s := by
  refine @TransitionSystem.Reachable.invariant_below _ _ (system g) (Inv g)
    (fun s => s.ring.reservations.length < 2 ^ 32) ?_ ?_ ?_ s h hbound
  · exact fun s l hnext => (length_le_next s l).trans_lt hnext
  · rintro s rfl
    exact Inv.init g
  · exact fun s l _ hinv henabled hnext => hinv.next henabled hnext

/-! ### No lost wake-up -/

/-- A producer is in the call that made this reservation, and its wake-up is still to come. -/
def InCall (s : WakingRing) (p i : Nat) : Prop :=
  s.Unannounced p i ∨ s.waking p = .futexWake i

namespace Inv

/-- The consumer does not sleep through a message: somebody is on the way to wake it up. -/
theorem inCall_of_asleep (h : Inv g s) (hasleep : s.receiver = .asleep) {i : Nat}
    (hle : s.ring.released ≤ i) (hlt : i < s.ring.reservations.length) : ∃ p, s.InCall p i := by
  have hok : RecvLoopOk s .asleep := hasleep ▸ h.receiver
  obtain hi | ⟨p, hp⟩ := h.accounted i hlt
  · obtain ⟨p, hp⟩ := hok i hi hle
    exact ⟨p, .inr hp⟩
  · exact ⟨p, .inl hp⟩

/-- All messages of a ring without a slot in use have been handed over. -/
theorem handed_eq (h : Inv g s) (hasleep : s.receiver = .asleep)
    (hall : s.ring.reservations.length ≤ s.ring.released) : s.ring.handed = s.ring.written := by
  have hconsumer : s.ring.consumer = .loadTail := h.outside (by rw [hasleep]; rfl)
  have hdue : s.ring.due = [] := by simp only [due, hconsumer]
  have hemptied : s.ring.emptied = s.ring.released := by simp only [emptied, hconsumer]
  have hwritten : s.ring.reservations.filter Reservation.written = s.ring.reservations := by
    apply List.filter_eq_self.mpr
    intro res hres
    obtain ⟨i, hi, rfl⟩ := List.mem_iff_getElem.mp hres
    obtain ⟨data, hdata⟩ := h.ring.consumed i (by omega)
    rw [List.getElem?_eq_getElem hi] at hdata
    rw [Option.some.inj hdata]
  have hhanded := h.ring.handed
  rw [hdue, List.take_of_length_le hall] at hhanded
  rw [written, hwritten, ← hhanded]
  exact (List.append_nil _).symm

end Inv

/-- Whenever the consumer sleeps, every message that it has not taken belongs to a producer that
is still to wake it up; and when no producer is, it has handed over all messages. -/
theorem no_lost_wakeup (h : (system g).Reachable s)
    (hbound : s.ring.reservations.length < 2 ^ 32) (hasleep : s.receiver = .asleep) :
    (∀ i, s.ring.released ≤ i → i < s.ring.reservations.length → ∃ p, s.InCall p i) ∧
      ((∀ p i, ¬s.InCall p i) → s.ring.handed = s.ring.written) := by
  have hinv : Inv g s := inv_of_reachable h hbound
  refine ⟨fun i => hinv.inCall_of_asleep hasleep, fun hnone => hinv.handed_eq hasleep ?_⟩
  by_contra hmore
  obtain ⟨p, hp⟩ := hinv.inCall_of_asleep hasleep (Nat.le_refl _) (Nat.lt_of_not_le hmore)
  exact hnone p _ hp

/-- The consumer goes to sleep, and a producer makes its slot ready without having woken it. -/
def dozing : List Label :=
  List.replicate 6 .receive ++ .call 0 (.buffer [1]) :: List.replicate 7 (.produce 0 false)

theorem no_lost_wakeup_dozing : ∃ p, ((system smallest).exec {} dozing).InCall p 0 :=
  (no_lost_wakeup (.exec (.init rfl) (by decide)) (by decide) (by decide)).1 0 (by decide)
    (by decide)

end WakingRing

end EmbedMq

import EmbedMq.Transport.RingWakeup

/-!
# The consumer drains the ring

When no producer is in a call, the consumer has only its own steps to take: it hands over
what is in the ring and goes to sleep. The measure of that is the number of slots in use and,
within a round of `recvLoop`, the place that the consumer has reached.
-/

namespace EmbedMq

open ShmRing

namespace WakingRing

variable {g : Geometry} {s : WakingRing} {p : Nat}

/-- No producer is in a call. -/
def Quiet (s : WakingRing) : Prop := ∀ p, s.ring.producers p = .idle ∧ s.waking p = .returned

/-- How far the consumer is from releasing the next slot. -/
def untilReleased : RecvLoop → Consumer → Nat
  | .loadNotify, _ => 14
  | .loadTail _, _ => 13
  | .loadHead _ _, _ => 12
  | .futexWait _, _ => 11
  | .batch _, .callback _ => 10
  | .batch _, .loadTail => 9
  | .batch _, .loadHead _ => 8
  | .batch _, .loadState _ => 7
  | .batch _, .readLen _ => 6
  | .batch _, .copy _ _ => 5
  | .batch _, .storeEmpty _ _ => 4
  | .batch _, .storeTail _ _ => 3
  | .asleep, _ => 0

/-- How far the consumer is from its sleep when the ring is empty. A value of `notify` that is
no longer current costs it one more round. -/
def untilAsleep (notify : UInt32) : RecvLoop → Consumer → Nat
  | .batch _, .callback _ => 10
  | .batch taken, .loadTail => if taken = 0 then 7 else 9
  | .batch taken, _ => if taken = 0 then 6 else 8
  | .loadNotify, _ => 5
  | .loadTail v, _ => if notify = v then 4 else 13
  | .loadHead v _, _ => if notify = v then 3 else 12
  | .futexWait v, _ => if notify = v then 2 else 11
  | .asleep, _ => 0

/-- The slots that are in use count for more than any place in a round. -/
def work (s : WakingRing) : Nat :=
  20 * (s.ring.reservations.length - s.ring.released) +
    if s.ring.released < s.ring.reservations.length then
      untilReleased s.receiver s.ring.consumer
    else untilAsleep s.notify s.receiver s.ring.consumer

theorem untilReleased_le (place : RecvLoop) (consumer : Consumer) :
    untilReleased place consumer ≤ 14 := by
  rw [untilReleased.eq_def]
  split <;> omega

theorem untilAsleep_le (notify : UInt32) (place : RecvLoop) (consumer : Consumer) :
    untilAsleep notify place consumer ≤ 13 := by
  rw [untilAsleep.eq_def]
  split <;> (try split_ifs) <;> omega

/-- The consumer starts no call and writes to no slot that a producer waits for. -/
theorem Quiet.receive (h : s.Quiet) : (s.receive g).Quiet := by
  intro p
  simp only [WakingRing.receive]
  split
  · exact ⟨(congrFun (consume_kept s.ring).2 p).trans (h p).1, (h p).2⟩
  all_goals exact h p

theorem reservations_receive (s : WakingRing) :
    (s.receive g).ring.reservations = s.ring.reservations := by
  simp only [WakingRing.receive]
  split
  · exact (consume_kept s.ring).1
  all_goals rfl

/-- A step that releases no slot while one is in use. -/
theorem work_lt_of_used (hused : s.ring.released < s.ring.reservations.length)
    (hreleased : (s.receive g).ring.released = s.ring.released)
    (hlt : untilReleased (s.receive g).receiver (s.receive g).ring.consumer <
      untilReleased s.receiver s.ring.consumer) : (s.receive g).work < s.work := by
  rw [work, work, reservations_receive, hreleased, if_pos hused, if_pos hused]
  exact Nat.add_lt_add_left hlt _

/-- A slot that is released is worth a whole round. -/
theorem work_lt_of_released (hused : s.ring.released < s.ring.reservations.length)
    (hreleased : (s.receive g).ring.released = s.ring.released + 1) :
    (s.receive g).work < s.work := by
  have hbusy := untilReleased_le (s.receive g).receiver (s.receive g).ring.consumer
  have hidle := untilAsleep_le (s.receive g).notify (s.receive g).receiver
    (s.receive g).ring.consumer
  rw [work, work, reservations_receive, hreleased, if_pos hused]
  split_ifs <;> omega

/-- A step while no slot is in use. -/
theorem work_lt_of_empty (hempty : ¬s.ring.released < s.ring.reservations.length)
    (hreleased : (s.receive g).ring.released = s.ring.released)
    (hlt : untilAsleep (s.receive g).notify (s.receive g).receiver (s.receive g).ring.consumer <
      untilAsleep s.notify s.receiver s.ring.consumer) : (s.receive g).work < s.work := by
  rw [work, work, reservations_receive, hreleased, if_neg hempty, if_neg hempty]
  exact Nat.add_lt_add_left hlt _

/-- A step in a batch is one of the consumer on the ring. -/
theorem receive_batch {taken : Nat} (hreceiver : s.receiver = .batch taken) :
    (s.receive g).ring.consumer = (s.ring.consume g).consumer ∧
      (s.receive g).ring.released = (s.ring.consume g).released ∧
        (s.receive g).receiver = afterStep g s.ring taken ∧ (s.receive g).notify = s.notify := by
  rw [receive, hreceiver]
  exact ⟨rfl, rfl, rfl, rfl⟩

namespace Inv

/-- When no producer is in a call, every reservation is written. -/
theorem written_of_quiet (h : Inv g s) (hquiet : s.Quiet) {i : Nat}
    (hi : i < s.ring.reservations.length) :
    ∃ data, s.ring.reservations[i]? = some ⟨data, true⟩ := by
  obtain hannounced | ⟨p, ⟨r, hr, -⟩ | hp⟩ := h.accounted i hi
  · exact h.announced i hannounced
  · rw [(hquiet p).1] at hr
    cases hr
  · rw [(hquiet p).2] at hp
    cases hp

/-- The loaded `tail` is `head` only if no slot is in use. -/
theorem tail_eq_head_iff (h : Inv g s) {tail : UInt32}
    (htail : tail = UInt32.ofNat s.ring.released) :
    tail = s.ring.head ↔ ¬s.ring.released < s.ring.reservations.length := by
  have hle := h.ring.released_le
  rw [← UInt32.toNat_inj, h.ring.tail_toNat htail, h.ring.head_toNat]
  omega

/-- A step in a batch while a slot is in use. -/
theorem work_batch_used (h : Inv g s) (hquiet : s.Quiet) {taken : Nat}
    (hreceiver : s.receiver = .batch taken)
    (hused : s.ring.released < s.ring.reservations.length) : (s.receive g).work < s.work := by
  have hok : ConsumerOk s.ring s.ring.consumer := h.ring.consumer
  obtain ⟨hconsumer, hreleased, hplace, -⟩ := receive_batch (g := g) hreceiver
  cases hc : s.ring.consumer with
  | storeTail tail data =>
      refine work_lt_of_released hused (hreleased.trans ?_)
      simp only [ShmRing.consume, hc]
  | loadHead tail =>
      rw [hc] at hok
      have hne : tail ≠ s.ring.head := fun heq => (h.tail_eq_head_iff hok).mp heq hused
      refine work_lt_of_used hused (hreleased.trans ?_) ?_
      · simp only [ShmRing.consume, hc]
      · simp [hconsumer, hplace, hreceiver, ShmRing.consume, afterStep, hc, hne, untilReleased]
  | loadState tail =>
      rw [hc] at hok
      obtain ⟨data, hdata⟩ := h.written_of_quiet hquiet hused
      have hemptied : s.ring.emptied = s.ring.released := by simp only [emptied, hc]
      have hready : (s.ring.slotAt g tail).state = .ready := by
        rw [slotAt, h.ring.tail_toNat hok.1]
        exact (h.ring.ready _ data hemptied.le hdata).1
      refine work_lt_of_used hused (hreleased.trans ?_) ?_
      · simp only [ShmRing.consume, hc]
      · simp [hconsumer, hplace, hreceiver, ShmRing.consume, afterStep, hc, hready, untilReleased]
  | callback data =>
      refine work_lt_of_used hused (hreleased.trans ?_) ?_
      · simp only [ShmRing.consume, hc]
      · rw [hconsumer, hplace, hreceiver, hc]
        simp only [ShmRing.consume, afterStep, hc]
        split_ifs <;> simp [afterBatch, untilReleased]
  | _ =>
      refine work_lt_of_used hused (hreleased.trans ?_) ?_
      · simp only [ShmRing.consume, hc, ShmRing.setSlot]
      · simp [hconsumer, hplace, hreceiver, ShmRing.consume, afterStep, hc, untilReleased]

/-- A step in a batch while no slot is in use. -/
theorem work_batch_empty (h : Inv g s) {taken : Nat} (hreceiver : s.receiver = .batch taken)
    (hempty : ¬s.ring.released < s.ring.reservations.length) : (s.receive g).work < s.work := by
  have hok : ConsumerOk s.ring s.ring.consumer := h.ring.consumer
  have htakes : ∀ {tail data}, ¬Takes s.ring tail data := fun htakes =>
    hempty (List.getElem?_eq_some_iff.mp htakes.2).1
  obtain ⟨hconsumer, hreleased, hplace, hnotify⟩ := receive_batch (g := g) hreceiver
  cases hc : s.ring.consumer with
  | loadTail =>
      refine work_lt_of_empty hempty (hreleased.trans ?_) ?_
      · simp only [ShmRing.consume, hc]
      · rw [hconsumer, hplace, hnotify, hreceiver, hc]
        simp only [ShmRing.consume, afterStep, hc, untilAsleep]
        split_ifs <;> omega
  | loadHead tail =>
      rw [hc] at hok
      have heq : tail = s.ring.head := (h.tail_eq_head_iff hok).mpr hempty
      refine work_lt_of_empty hempty (hreleased.trans ?_) ?_
      · simp only [ShmRing.consume, hc]
      · rw [hconsumer, hplace, hnotify, hreceiver, hc]
        simp only [ShmRing.consume, afterStep, afterBatch, hc, heq, if_true, untilAsleep]
        split_ifs <;> simp
  | callback data =>
      refine work_lt_of_empty hempty (hreleased.trans ?_) ?_
      · simp only [ShmRing.consume, hc]
      · rw [hconsumer, hplace, hnotify, hreceiver, hc]
        simp only [ShmRing.consume, afterStep, hc]
        split_ifs <;> simp [afterBatch, untilAsleep]
  | loadState tail =>
      rw [hc] at hok
      exact absurd hok.2 hempty
  | readLen tail =>
      rw [hc] at hok
      obtain ⟨data, hdata⟩ := hok
      exact absurd hdata htakes
  | copy tail len =>
      rw [hc] at hok
      obtain ⟨data, hdata, -⟩ := hok
      exact absurd hdata htakes
  | storeEmpty tail data =>
      rw [hc] at hok
      exact absurd hok htakes
  | storeTail tail data =>
      rw [hc] at hok
      exact absurd hok htakes

/-- Every step of the consumer brings it closer to its sleep. -/
theorem work_receive (h : Inv g s) (hquiet : s.Quiet) (hawake : s.receiver ≠ .asleep) :
    (s.receive g).work < s.work := by
  have hok : RecvLoopOk s s.receiver := h.receiver
  have houtside := h.outside
  by_cases hused : s.ring.released < s.ring.reservations.length
  · cases hreceiver : s.receiver with
    | batch taken => exact h.work_batch_used hquiet hreceiver hused
    | loadHead v tail =>
        rw [hreceiver] at hok houtside
        have hne : tail ≠ s.ring.head := fun heq => (h.tail_eq_head_iff hok.2).mp heq hused
        apply work_lt_of_used hused <;>
          simp [WakingRing.receive, hreceiver, hne, houtside rfl, untilReleased]
    | futexWait v =>
        rw [hreceiver] at houtside
        apply work_lt_of_used hused <;> simp only [WakingRing.receive, hreceiver]
        split_ifs <;> simp [houtside rfl, untilReleased]
    | asleep => exact absurd hreceiver hawake
    | _ => apply work_lt_of_used hused <;> simp [WakingRing.receive, hreceiver, untilReleased]
  · cases hreceiver : s.receiver with
    | batch taken => exact h.work_batch_empty hreceiver hused
    | loadNotify =>
        apply work_lt_of_empty hused <;> simp [WakingRing.receive, hreceiver, untilAsleep]
    | loadTail v =>
        apply work_lt_of_empty hused <;> simp only [WakingRing.receive, hreceiver, untilAsleep]
        split_ifs <;> omega
    | loadHead v tail =>
        rw [hreceiver] at hok
        have heq : tail = s.ring.head := (h.tail_eq_head_iff hok.2).mpr hused
        apply work_lt_of_empty hused <;>
          simp only [WakingRing.receive, hreceiver, heq, if_true, untilAsleep]
        split_ifs <;> omega
    | futexWait v =>
        rw [hreceiver] at houtside
        apply work_lt_of_empty hused <;> simp only [WakingRing.receive, hreceiver]
        split_ifs with hsame <;> simp [houtside rfl, hsame, untilAsleep]
    | asleep => exact absurd hreceiver hawake

end Inv

/-- When no producer is in a call, the consumer alone hands over every message that was written
and goes to sleep. -/
theorem drains (h : (system g).Reachable s) (hbound : s.ring.reservations.length < 2 ^ 32)
    (hquiet : s.Quiet) :
    ∃ n, ((receive g)^[n] s).receiver = .asleep ∧
      ((receive g)^[n] s).ring.handed = s.ring.written := by
  induction hwork : s.work using Nat.strong_induction_on generalizing s with
  | h work ih =>
      by_cases hasleep : s.receiver = .asleep
      · refine ⟨0, hasleep, (no_lost_wakeup h hbound hasleep).2 ?_⟩
        rintro p i ((⟨r, hr, -⟩ | hp) | hp)
        · rw [(hquiet p).1] at hr
          cases hr
        · rw [(hquiet p).2] at hp
          cases hp
        · rw [(hquiet p).2] at hp
          cases hp
      · have hinv : Inv g s := inv_of_reachable h hbound
        have hreservations := reservations_receive (g := g) s
        have hstep : (system g).Reachable (s.receive g) :=
          .step (l := Label.receive) h trivial
        obtain ⟨n, hn, hhanded⟩ := ih _ (hwork ▸ hinv.work_receive hquiet hasleep) hstep
          (hreservations.symm ▸ hbound) hquiet.receive rfl
        refine ⟨n + 1, hn, hhanded.trans ?_⟩
        rw [written, written, hreservations]

/-- A message of one producer in a ring whose consumer sleeps. -/
def delivery : List Label :=
  dozing ++ List.replicate 2 (.produce 0 false)

theorem drains_delivery :
    ∃ n, ((receive smallest)^[n] ((system smallest).exec {} delivery)).receiver = .asleep ∧
      ((receive smallest)^[n] ((system smallest).exec {} delivery)).ring.handed = [[1]] :=
  drains (.exec (.init rfl) (by decide)) (by decide) (fun p => by
    cases p <;> exact ⟨rfl, rfl⟩)

end WakingRing

end EmbedMq

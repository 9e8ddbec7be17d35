import EmbedMq.Transport.UdpReceiver

/-!
# The receive thread comes to an end

As long as the UDP transport is active, its receive thread takes all datagrams out of the sockets
and then waits; after `shutdown` has cleared `active_`, it exits and is joined. Neither rests on
the timeout of `epoll_wait`, but both on the multicast socket: an event without a datagram keeps
the thread in `recvFrom`, where the wake-up does not reach it.
-/

namespace EmbedMq

namespace UdpReceiver

variable {size : Nat} {s : UdpReceiver}

/-! ### What is ready -/

/-- All that is ready is reported, and something is. -/
def Wakes (s : UdpReceiver) (events : List PollHandle) : Prop :=
  events ≠ [] ∧ events.Nodup ∧ ∀ h, h ∈ events ↔ s.Ready h

theorem wakes_ready {h : PollHandle} (hready : s.Ready h) : s.Wakes s.ready := by
  refine ⟨List.ne_nil_of_mem (mem_ready.mpr hready), ?_, fun _ => mem_ready⟩
  exact List.Nodup.filter _ (by decide)

theorem Wakes.reports {events : List PollHandle} (h : s.Wakes events) : s.Reports events := by
  refine .inr ⟨h.2.1, fun h' hready => (h.2.2 h').mpr hready, fun h' hmem => ?_⟩
  have hready := (h.2.2 h').mp hmem
  cases h' with
  | wakeup => exact hready
  | socket k => exact hready.1

theorem Wakes.length_le {events : List PollHandle} (h : s.Wakes events) : events.length ≤ 3 := by
  have hsub : events ⊆ [.wakeup, .socket .unicast, .socket .multicast] := by
    intro h' _
    cases h' with
    | wakeup => simp
    | socket k => cases k <;> simp
  exact (List.subperm_of_subset h.2.1 hsub).length_le

/-! ### The work that is left -/

/-- The steps up to the next condition of the loop, or to `idle` for a thread that waits. -/
def loopWork (idle : Nat) : UdpLoop → Nat
  | .check => 1
  | .waiting => idle
  | .events rest => 5 * rest.length + 2
  | .processing _ rest => 5 * rest.length + 6
  | .received _ _ rest => 5 * rest.length + 5
  | .calling _ _ rest => 5 * rest.length + 4
  | .inCallback rest => 5 * rest.length + 3
  | .exited => 0

def backlog (s : UdpReceiver) : Nat :=
  (s.queue .unicast).length + (s.queue .multicast).length

/-- One of these events stands for a datagram. -/
def promises (s : UdpReceiver) (events : List PollHandle) : Bool :=
  events.any fun
    | .wakeup => false
    | .socket k => !(s.queue k).isEmpty

/-- The backlog, without a datagram that is certain to be taken in this round. -/
def outstanding (s : UdpReceiver) : Nat :=
  match s.thread with
  | .events rest => s.backlog - (s.promises rest).toNat
  | .processing k rest => s.backlog - (s.promises (.socket k :: rest)).toNat
  | _ => s.backlog

theorem backlog_take {k : UdpSocket} {d : UdpDatagram} {more : List UdpDatagram}
    (hqueue : s.queue k = d :: more) (thread : UdpLoop) :
    ({ s with queue := Function.update s.queue k more, thread } : UdpReceiver).backlog + 1 =
      s.backlog := by
  cases k with
  | unicast => simp [backlog, hqueue]; omega
  | multicast => simp [backlog, hqueue]; omega

theorem promises_cons_of_nil {k : UdpSocket} (hqueue : s.queue k = []) (rest : List PollHandle) :
    s.promises (.socket k :: rest) = s.promises rest := by
  simp [promises, hqueue]

section InRound

variable (hcheck : s.thread ≠ .check) (hwaiting : s.thread ≠ .waiting)
  (hexited : s.thread ≠ .exited) (events : List PollHandle)
include hcheck hwaiting hexited

theorem loopWork_receive (idle : Nat) :
    loopWork idle (s.receive size events).thread < loopWork idle s.thread := by
  cases hthread : s.thread with
  | check => exact absurd hthread hcheck
  | waiting => exact absurd hthread hwaiting
  | exited => exact absurd hthread hexited
  | events rest =>
      cases rest with
      | nil => simp [receive, hthread, loopWork]
      | cons handle rest =>
          cases handle with
          | wakeup => simp [receive, hthread, loopWork]
          | socket k =>
              simp only [receive, hthread]
              split
              · simp only [loopWork, List.length_cons]
                omega
              · simp only [loopWork, List.length_cons]
                omega
  | processing k rest =>
      cases hqueue : s.queue k with
      | nil => simp [receive, hthread, hqueue, loopWork]
      | cons d more => simp [receive, hthread, hqueue, loopWork]
  | received k d rest =>
      simp only [receive, hthread]
      split
      · split <;> simp [loopWork]
      · simp [loopWork]
  | calling k d rest => simp [receive, hthread, loopWork]
  | inCallback rest => simp [receive, hthread, loopWork]

theorem outstanding_receive (hqueue : ∀ k, s.queue k ≠ [] → k ∈ s.handlers) :
    (s.receive size events).outstanding ≤ s.outstanding := by
  cases hthread : s.thread with
  | check => exact absurd hthread hcheck
  | waiting => exact absurd hthread hwaiting
  | exited => exact absurd hthread hexited
  | events rest =>
      cases rest with
      | nil =>
          simp only [receive, hthread, outstanding, promises, List.any_nil, Bool.toNat_false]
          exact Nat.le_refl _
      | cons handle rest =>
          cases handle with
          | wakeup =>
              simp only [receive, hthread, outstanding]
              exact Nat.le_refl _
          | socket k =>
              simp only [receive, hthread]
              split
              · simp only [outstanding, hthread]
                exact Nat.le_refl _
              · rename_i hunwatched
                have hnone : s.queue k = [] := by_contra fun hne => hunwatched (hqueue k hne)
                simp only [outstanding, hthread, promises_cons_of_nil hnone]
                exact Nat.le_refl _
  | processing k rest =>
      cases hnone : s.queue k with
      | nil =>
          simp only [receive, hthread, hnone, outstanding, promises_cons_of_nil hnone]
          exact Nat.le_refl _
      | cons d more =>
          have hpromise : s.promises (.socket k :: rest) = true := by simp [promises, hnone]
          have htake := backlog_take hnone (.received k d rest)
          simp only [receive, hthread, hnone, outstanding, hpromise, Bool.toNat_true]
          omega
  | received k d rest =>
      simp only [receive, hthread]
      split
      · split
        · simp only [outstanding, hthread]
          exact Nat.le_refl _
        · simp only [outstanding, hthread]
          exact Nat.sub_le _ _
      · simp only [outstanding, hthread]
        exact Nat.sub_le _ _
  | calling k d rest =>
      simp only [receive, hthread, outstanding]
      exact Nat.le_refl _
  | inCallback rest =>
      simp only [receive, hthread, outstanding]
      exact Nat.sub_le _ _

end InRound

/-- Before the wake-up for `shutdown`, a socket with a datagram is among the events. -/
theorem promises_of_wakes (hcounter : s.counter = 0) {events : List PollHandle}
    (h : s.Wakes events) : s.promises events = true ∧ 0 < s.backlog := by
  obtain ⟨handle, hmem⟩ := List.exists_mem_of_ne_nil _ h.1
  have hready := (h.2.2 handle).mp hmem
  cases handle with
  | wakeup =>
      have hpositive : 0 < s.counter := hready
      omega
  | socket k =>
      refine ⟨List.any_eq_true.mpr ⟨.socket k, hmem, by simpa using hready.2⟩, ?_⟩
      have hlength := List.length_pos_of_ne_nil hready.2
      rw [backlog]
      cases k <;> omega

/-! ### Events without a datagram -/

/-- Every event of the multicast socket that is left stands for a datagram. -/
def Free (s : UdpReceiver) : Prop :=
  s.thread.remaining.count (.socket .multicast) ≤ (s.queue .multicast).length

instance (s : UdpReceiver) : Decidable s.Free := inferInstanceAs (Decidable (_ ≤ _))

theorem Free.not_blocked (h : s.Free) : s.blocked = false := by
  rw [blocked]
  split
  · rename_i rest hthread
    rw [Free, hthread, UdpLoop.remaining, List.count_cons_self] at h
    rw [List.isEmpty_eq_false_iff]
    exact List.ne_nil_of_length_pos (by omega)
  · rfl

theorem free_of_remaining (h : s.thread.remaining = []) : s.Free := by
  rw [Free, h]
  exact Nat.zero_le _

/-- A round starts with events that stand for something. -/
theorem Wakes.free {events : List PollHandle} (h : s.Wakes events)
    (hwaiting : s.thread = .waiting) : (s.receive size events).Free := by
  simp only [receive, hwaiting, Free, UdpLoop.remaining]
  by_cases hmem : .socket .multicast ∈ events
  · have hready := (h.2.2 _).mp hmem
    have hcount := List.nodup_iff_count_le_one.mp h.2.1 (.socket .multicast)
    exact Nat.le_trans hcount (List.length_pos_of_ne_nil hready.2)
  · rw [List.count_eq_zero.mpr hmem]
    exact Nat.zero_le _

/-- In a round, each datagram that is taken answers its event. -/
theorem free_receive_iff (hwaiting : s.thread ≠ .waiting) (hblocked : s.blocked = false)
    (hwatched : ∀ k, .socket k ∈ s.thread.remaining → k ∈ s.handlers) (events : List PollHandle) :
    (s.receive size events).Free ↔ s.Free := by
  cases hthread : s.thread with
  | check =>
      have hafter : (s.receive size events).thread.remaining = [] := by
        simp only [receive, hthread]
        split <;> rfl
      exact iff_of_true (free_of_remaining hafter) (free_of_remaining (by rw [hthread]; rfl))
  | waiting => exact absurd hthread hwaiting
  | events rest =>
      cases rest with
      | nil => simp only [receive, hthread, Free, UdpLoop.remaining]
      | cons handle rest =>
          cases handle with
          | wakeup => simp [receive, hthread, Free, UdpLoop.remaining]
          | socket k =>
              have hwatches : k ∈ s.handlers := by
                refine hwatched k ?_
                rw [hthread]
                exact List.mem_cons_self
              simp only [receive, hthread, if_pos hwatches, Free, UdpLoop.remaining]
  | processing k rest =>
      cases k with
      | unicast =>
          cases hqueue : s.queue .unicast with
          | nil => simp [receive, hthread, hqueue, Free, UdpLoop.remaining]
          | cons d more => simp [receive, hthread, hqueue, Free, UdpLoop.remaining]
      | multicast =>
          cases hqueue : s.queue .multicast with
          | nil => simp [blocked, hthread, hqueue] at hblocked
          | cons d more => simp [receive, hthread, hqueue, Free, UdpLoop.remaining]
  | received k d rest =>
      simp only [receive, hthread, Free]
      split
      · split <;> rfl
      · rfl
  | calling k d rest => simp only [receive, hthread, Free, UdpLoop.remaining]
  | inCallback rest => simp only [receive, hthread, Free, UdpLoop.remaining]
  | exited => simp only [receive, hthread, Free]

/-- The thread takes a step, and waits only as long as nothing is ready. -/
def Drives (s : UdpReceiver) (l : Label) : Prop :=
  ∃ events, l = .receive events ∧ (s.thread = .waiting → s.Wakes events)

/-- The runs of the receive thread alone. -/
def receiving (size : Nat) : TransitionSystem UdpReceiver Label :=
  (system size).restrict Drives

def drainWork (s : UdpReceiver) : Nat := 20 * s.outstanding + loopWork 0 s.thread

theorem drainWork_receive (h : Inv s) (hactive : s.active = true) {events : List PollHandle}
    (hwakes : s.thread = .waiting → s.Wakes events) :
    (s.receive size events).drainWork < s.drainWork := by
  have hnone := h.active.mp hactive
  have hwatched := h.queue (by rw [hnone]; rfl)
  by_cases hcheck : s.thread = .check
  · simp [receive, hcheck, hactive, drainWork, outstanding, loopWork, backlog]
  · by_cases hwaiting : s.thread = .waiting
    · have hlength := (hwakes hwaiting).length_le
      obtain ⟨hpromise, hpositive⟩ := promises_of_wakes (h.counter hnone) (hwakes hwaiting)
      have hround : (s.receive size events).outstanding = s.backlog - 1 := by
        have hsame : ({ s with thread := .events events } : UdpReceiver).promises events = true :=
          hpromise
        simp only [receive, hwaiting, outstanding, hsame, Bool.toNat_true]
        rfl
      have hloop : loopWork 0 (s.receive size events).thread = 5 * events.length + 2 := by
        simp only [receive, hwaiting, loopWork]
      have hbefore : s.drainWork = 20 * s.backlog := by
        simp [drainWork, outstanding, hwaiting, loopWork]
      rw [drainWork, hround, hloop, hbefore]
      omega
    · have hexited : s.thread ≠ .exited := fun hexited => by
        rw [h.exited hexited] at hactive
        cases hactive
      have hloop := @loopWork_receive size s hcheck hwaiting hexited events 0
      have hround := @outstanding_receive size s hcheck hwaiting hexited events hwatched
      rw [drainWork, drainWork]
      omega

theorem free_drives {l : Label} (h : Inv s) (hfree : s.Free) (hdrives : s.Drives l) :
    (s.next size l).Free := by
  obtain ⟨events, rfl, hwakes⟩ := hdrives
  by_cases hwaiting : s.thread = .waiting
  · exact (hwakes hwaiting).free hwaiting
  · by_cases hwatches : s.stop.watches = true
    · exact (free_receive_iff hwaiting hfree.not_blocked (h.watched hwatches) events).mpr hfree
    · -- The thread has exited.
      have hexited := h.joined (UdpShutdown.joined_of_not_watches hwatches)
      simpa [next, receive, hexited] using hfree

/-- What holds while the thread drains the sockets. -/
structure Draining (size : Nat) (s t : UdpReceiver) : Prop where
  reachable : (system size).Reachable t
  active : t.active = true
  callback : t.callback = true
  free : t.Free
  arrived : t.arrived = s.arrived
  missed : t.missed = s.missed

theorem Draining.next {t : UdpReceiver} (h : Draining size s t) {l : Label}
    (henabled : (receiving size).enabled t l) : Draining size s ((receiving size).next t l) := by
  obtain ⟨hsystem, hdrives⟩ := henabled
  have hfree : (t.next size l).Free := free_drives (inv_of_reachable h.reachable) h.free hdrives
  obtain ⟨events, rfl, -⟩ := hdrives
  have hstep := receives size t events
  exact ⟨h.reachable.step hsystem, hstep.active.trans h.active, hstep.callback.trans h.callback,
    hfree, hstep.arrived.trans h.arrived, (hstep.missed h.callback).trans h.missed⟩

/-- The thread only stops when it waits and no socket has a datagram. -/
theorem Draining.waiting {t : UdpReceiver} (h : Draining size s t)
    (hstuck : ∀ l, ¬ (receiving size).enabled t l) :
    t.thread = .waiting ∧ ∀ k, t.queue k = [] := by
  have hinv := inv_of_reachable h.reachable
  have hexited : t.thread ≠ .exited := fun hexited => by
    have hinactive := hinv.exited hexited
    rw [h.active] at hinactive
    cases hinactive
  have hwaiting : t.thread = .waiting := by
    by_contra hbusy
    exact hstuck (.receive [])
      ⟨⟨hexited, h.free.not_blocked, fun hwaiting => absurd hwaiting hbusy⟩, [], rfl,
        fun hwaiting => absurd hwaiting hbusy⟩
  refine ⟨hwaiting, fun k => by_contra fun hne => ?_⟩
  have hnone := hinv.active.mp h.active
  have hready : t.Ready (.socket k) := ⟨hinv.queue (by rw [hnone]; rfl) k hne, hne⟩
  have hwakes := wakes_ready hready
  exact hstuck (.receive t.ready)
    ⟨⟨hexited, h.free.not_blocked, fun _ => hwakes.reports⟩, t.ready, rfl, fun _ => hwakes⟩

/-- While the transport is active and has a callback, and no event without a datagram is in the way,
the receive thread alone hands over all that waits in the sockets, and needs no timeout for that:
each of its runs comes to an end, and then the callback has got everything that was not missed. -/
theorem drains_sockets (h : (system size).Reachable s) (hactive : s.active = true)
    (hcallback : s.callback = true) (hfree : s.Free) :
    (receiving size).Ends s fun t => ∀ k,
      s.arrived k = s.missed k ++ t.handed k ∧ t.calls k = (t.handed k).filterMap (view size) := by
  refine @TransitionSystem.ends_of_decreasing _ _ (receiving size) (Draining size s) drainWork
    (fun _ _ ht henabled => ht.next henabled) ?_ _ ?_ s
    ⟨h, hactive, hcallback, hfree, rfl, rfl⟩
  · rintro t _ ht ⟨hsystem, events, rfl, hwakes⟩
    exact drainWork_receive (inv_of_reachable ht.reachable) ht.active hwakes
  · intro t ht hstuck k
    obtain ⟨hwaiting, hempty⟩ := ht.waiting hstuck
    have hordered := ordered_of_reachable ht.reachable
    have harrived := hordered.arrived k
    rw [inHand, hwaiting, hempty k, List.append_nil, List.append_nil, ht.arrived, ht.missed]
      at harrived
    exact ⟨harrived, hordered.calls k⟩

theorem drains_sockets_lateCallback :
    (receiving 64).Ends ((system 64).exec { sockets := [.unicast] } lateCallback) fun t =>
      t.calls .unicast = [({ address := [], transportType := MessageBus.udp }, [2])] := by
  have hreach : (system 64).Reachable ((system 64).exec { sockets := [.unicast] } lateCallback) :=
    .exec (.init (.inl rfl)) (by decide)
  refine (drains_sockets hreach rfl rfl (by decide)).mono fun t ht => ?_
  obtain ⟨harrived, hcalls⟩ := ht .unicast
  have hhanded : t.handed .unicast = [datagram 2] := (List.cons.inj harrived).2.symm
  rw [hcalls, hhanded]
  decide

/-! ### Shutting down -/

/-- The runs of the receive thread and of the call of `shutdown` that goes on. -/
def shuttingDown (size : Nat) : TransitionSystem UdpReceiver Label :=
  (system size).restrict fun s l => l = .stop ∨ s.Drives l

def stopWork : UdpShutdown → Nat
  | .none => 5
  | .waking => 4
  | .joining => 3
  | .removing => 2
  | .closing => 1
  | .returned => 0

/-- A round has at most three events. -/
def shutdownWork (s : UdpReceiver) : Nat := loopWork 18 s.thread + stopWork s.stop

section ShuttingDown

variable {l : Label} (h : (system size).Reachable s) (hbusy : s.stop ≠ .none)
include h hbusy

theorem inactive_of_busy : s.active = false :=
  Bool.eq_false_iff.mpr fun hactive => hbusy ((inv_of_reachable h).active.mp hactive)

variable (henabled : (shuttingDown size).enabled s l)
include henabled

end ShuttingDown

/-- Without such an event, the call goes on until it returns. -/
theorem returned_of_stuck (h : (system size).Reachable s) (hbusy : s.stop ≠ .none) (hfree : s.Free)
    (hstuck : ∀ l, ¬ (shuttingDown size).enabled s l) :
    s.stop = .returned ∧ s.thread = .exited ∧ s.sockets = [] := by
  have hinv := inv_of_reachable h
  have hstop : ¬ s.Enabled .stop := fun henabled => hstuck .stop ⟨henabled, .inl rfl⟩
  have hreceive : ∀ events, s.thread ≠ .exited → ¬ (s.thread = .waiting → s.Wakes events) :=
    fun events hexited hwakes => hstuck (.receive events)
      ⟨⟨hexited, hfree.not_blocked, fun hwaiting => (hwakes hwaiting).reports⟩,
        .inr ⟨events, rfl, hwakes⟩⟩
  have hexited : s.thread = .exited := by
    by_contra hexited
    by_cases hjoining : s.stop = .joining
    · -- The thread does not wait without the wake-up.
      by_cases hwaiting : s.thread = .waiting
      · have hready : s.Ready .wakeup := hinv.awake hjoining hwaiting
        exact hreceive s.ready hexited fun _ => wakes_ready hready
      · exact hreceive [] hexited fun h => absurd h hwaiting
    · exact hstop ⟨hbusy, fun hover => hexited (hinv.joined (by rw [hover]; rfl)),
        fun h => absurd h hjoining⟩
  have hreturned : s.stop = .returned :=
    by_contra fun hover => hstop ⟨hbusy, hover, fun _ => hexited⟩
  exact ⟨hreturned, hexited, hinv.closed hreturned⟩

/-- An event of the multicast socket that stands for nothing. -/
def spurious : List Label := [.receive [], .receive [.socket .multicast], .shutdown]

end UdpReceiver

end EmbedMq

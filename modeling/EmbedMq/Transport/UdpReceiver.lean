import EmbedMq.Bus.Basic
import EmbedMq.Foundation.Transition
import EmbedMq.Transport.Basic
import Mathlib.Data.List.Basic
import Mathlib.Logic.Function.Basic

/-!
# The receive thread of the UDP transport

`recvLoop` runs the epoll loop as long as `active_` is set. Each round waits for events of the two
sockets and of the eventfd, and `processFd` takes one datagram for each event of a socket. The
datagram goes to the callback that is set at this moment, and is dropped if there is none.

`epoll_wait` may end early, for a timeout or a signal, or report a socket without a datagram, for
an error. Otherwise it reports everything that is ready: there are fewer handles than it can report.
`init` makes the unicast socket non-blocking, but not the multicast socket: after an event without
a datagram, the thread stays in `recvFrom` until a datagram comes.

Of the calls of `shutdown`, the one that finds `active_` set goes on, and the others return at
once. A callback is assumed to return.
-/

namespace EmbedMq

/-- `unicastFd_` and `multicastFd_`. -/
inductive UdpSocket where
  | unicast
  | multicast
  deriving DecidableEq

/-- What the epoll instance watches. -/
inductive PollHandle where
  /-- `wakeupFd_`. -/
  | wakeup
  | socket (k : UdpSocket)
  deriving DecidableEq

structure UdpDatagram where
  address : Bytes
  port : UInt16
  data : Bytes
  deriving DecidableEq

/-- Where the receive thread is. -/
inductive UdpLoop where
  /-- At the condition of `recvLoop`. -/
  | check
  /-- In `epoll_wait`. -/
  | waiting
  /-- Before the first of these events. -/
  | events (rest : List PollHandle)
  /-- In `processFd`, before `recvFrom`. -/
  | processing (k : UdpSocket) (rest : List PollHandle)
  /-- `recvFrom` has returned, and `recvCb_` is not copied yet. -/
  | received (k : UdpSocket) (d : UdpDatagram) (rest : List PollHandle)
  /-- The callback is called next. -/
  | calling (k : UdpSocket) (d : UdpDatagram) (rest : List PollHandle)
  | inCallback (rest : List PollHandle)
  | exited
  deriving DecidableEq

/-- The events that the thread has still to deal with. -/
def UdpLoop.remaining : UdpLoop → List PollHandle
  | .events rest => rest
  | .processing k rest => .socket k :: rest
  | .received _ _ rest => rest
  | .calling _ _ rest => rest
  | .inCallback rest => rest
  | _ => []

/-- How far the call of `shutdown` has got that found `active_` set. -/
inductive UdpShutdown where
  /-- There was none yet. -/
  | none
  /-- Before the wake-up of the loop. -/
  | waking
  | joining
  /-- Before the handles are removed and the loop is destroyed. -/
  | removing
  /-- Before the sockets are closed. -/
  | closing
  | returned
  deriving DecidableEq

/-- The loop watches the sockets. -/
def UdpShutdown.watches : UdpShutdown → Bool
  | .closing => false
  | .returned => false
  | _ => true

/-- The receive thread was joined. -/
def UdpShutdown.joined : UdpShutdown → Bool
  | .removing => true
  | .closing => true
  | .returned => true
  | _ => false

theorem UdpShutdown.joined_of_not_watches {stop : UdpShutdown} (h : ¬ stop.watches = true) :
    stop.joined = true := by
  cases stop <;> first | rfl | exact absurd rfl h

structure UdpReceiver where
  active : Bool := true
  /-- `recvCb_` is set. -/
  callback : Bool := false
  /-- The sockets that are open. -/
  sockets : List UdpSocket
  /-- The sockets in `handlers_` of the loop. -/
  handlers : List UdpSocket := sockets
  /-- The counter of `wakeupFd_`. -/
  counter : Nat := 0
  /-- The datagrams that wait in a socket. -/
  queue : UdpSocket → List UdpDatagram := fun _ => []
  thread : UdpLoop := .check
  stop : UdpShutdown := .none
  /-- The datagrams that have come to a socket. -/
  arrived : UdpSocket → List UdpDatagram := fun _ => []
  /-- The datagrams that were taken while no callback was set. -/
  missed : UdpSocket → List UdpDatagram := fun _ => []
  /-- The datagrams that were taken since. -/
  handed : UdpSocket → List UdpDatagram := fun _ => []
  /-- What the callback was called with for a socket. -/
  calls : UdpSocket → List (Endpoint × Bytes) := fun _ => []

namespace UdpReceiver

/-- What `processFd` makes of a datagram, with a buffer of this size. -/
def view (size : Nat) (d : UdpDatagram) : Option (Endpoint × Bytes) :=
  (UdpTransport.received size d.data).map fun data =>
    ({ address := d.address, port := d.port, transportType := MessageBus.udp }, data)

/-- A handle has something to report. -/
def Ready (s : UdpReceiver) : PollHandle → Prop
  | .wakeup => 0 < s.counter
  | .socket k => k ∈ s.handlers ∧ s.queue k ≠ []

instance (s : UdpReceiver) : (h : PollHandle) → Decidable (s.Ready h)
  | .wakeup => inferInstanceAs (Decidable (_ < _))
  | .socket _ => inferInstanceAs (Decidable (_ ∧ _))

def Watched (s : UdpReceiver) : PollHandle → Prop
  | .wakeup => 0 < s.counter
  | .socket k => k ∈ s.handlers

instance (s : UdpReceiver) : (h : PollHandle) → Decidable (s.Watched h)
  | .wakeup => inferInstanceAs (Decidable (_ < _))
  | .socket k => inferInstanceAs (Decidable (k ∈ s.handlers))

/-- What `epoll_wait` may return. -/
def Reports (s : UdpReceiver) (events : List PollHandle) : Prop :=
  events = [] ∨ events.Nodup ∧ (∀ h, s.Ready h → h ∈ events) ∧ ∀ h ∈ events, s.Watched h

def ready (s : UdpReceiver) : List PollHandle :=
  [.wakeup, .socket .unicast, .socket .multicast].filter fun h => s.Ready h

theorem mem_ready {s : UdpReceiver} {h : PollHandle} : h ∈ s.ready ↔ s.Ready h := by
  rw [ready, List.mem_filter, decide_eq_true_iff]
  refine ⟨And.right, fun hready => ⟨?_, hready⟩⟩
  cases h with
  | wakeup => simp
  | socket k => cases k <;> simp

instance (s : UdpReceiver) (events : List PollHandle) : Decidable (s.Reports events) :=
  decidable_of_iff
    (events = [] ∨ events.Nodup ∧ (∀ h ∈ s.ready, h ∈ events) ∧ ∀ h ∈ events, s.Watched h)
    (by simp only [Reports, mem_ready])

/-- The thread is in `recvFrom` of the multicast socket, and there is no datagram. -/
def blocked (s : UdpReceiver) : Bool :=
  match s.thread with
  | .processing .multicast _ => (s.queue .multicast).isEmpty
  | _ => false

inductive Label where
  /-- A datagram comes to a socket. -/
  | arrive (k : UdpSocket) (d : UdpDatagram)
  | setRecvCallback
  /-- A step of the receive thread; in `epoll_wait`, these are the events. -/
  | receive (events : List PollHandle)
  /-- A call of `shutdown` exchanges `active_`. -/
  | shutdown
  /-- A step of the call that goes on. -/
  | stop

variable (size : Nat)

/-- One step of the receive thread. -/
def receive (events : List PollHandle) (s : UdpReceiver) : UdpReceiver :=
  match s.thread with
  | .check => { s with thread := if s.active then .waiting else .exited }
  | .waiting => { s with thread := .events events }
  | .events [] => { s with thread := .check }
  | .events (.wakeup :: rest) => { s with counter := 0, thread := .events rest }
  | .events (.socket k :: rest) =>
      { s with thread := if k ∈ s.handlers then .processing k rest else .events rest }
  | .processing k rest =>
      match s.queue k with
      | [] => { s with thread := .events rest }
      | d :: more =>
          { s with queue := Function.update s.queue k more, thread := .received k d rest }
  | .received k d rest =>
      if s.callback then
        match view size d with
        | some _ => { s with thread := .calling k d rest }
        | none =>
            { s with
              handed := Function.update s.handed k (s.handed k ++ [d])
              thread := .events rest }
      else
        { s with
          missed := Function.update s.missed k (s.missed k ++ [d])
          thread := .events rest }
  | .calling k d rest =>
      { s with
        handed := Function.update s.handed k (s.handed k ++ [d])
        calls := Function.update s.calls k (s.calls k ++ (view size d).toList)
        thread := .inCallback rest }
  | .inCallback rest => { s with thread := .events rest }
  | .exited => s

def shutdown (s : UdpReceiver) : UdpReceiver :=
  if s.active then { s with active := false, stop := .waking } else s

/-- One step of the call of `shutdown` that goes on. -/
def stopping (s : UdpReceiver) : UdpReceiver :=
  match s.stop with
  | .none => s
  | .waking => { s with counter := s.counter + 1, stop := .joining }
  | .joining => { s with stop := .removing }
  | .removing => { s with handlers := [], stop := .closing }
  | .closing => { s with sockets := [], stop := .returned }
  | .returned => s

def next (s : UdpReceiver) : Label → UdpReceiver
  | .arrive k d =>
      { s with
        queue := Function.update s.queue k (s.queue k ++ [d])
        arrived := Function.update s.arrived k (s.arrived k ++ [d]) }
  | .setRecvCallback => { s with callback := true }
  | .receive events => s.receive size events
  | .shutdown => s.shutdown
  | .stop => s.stopping

def Enabled (s : UdpReceiver) : Label → Prop
  | .arrive k _ => k ∈ s.sockets
  | .receive events =>
      s.thread ≠ .exited ∧ s.blocked = false ∧ (s.thread = .waiting → s.Reports events)
  | .stop => s.stop ≠ .none ∧ s.stop ≠ .returned ∧ (s.stop = .joining → s.thread = .exited)
  | _ => True

instance (s : UdpReceiver) : (l : Label) → Decidable (s.Enabled l)
  | .arrive k _ => inferInstanceAs (Decidable (k ∈ s.sockets))
  | .setRecvCallback | .shutdown => instDecidableTrue
  | .receive _ | .stop => inferInstanceAs (Decidable (_ ∧ _))

/-- All runs after `init`, which may have opened the multicast socket or not. -/
def system : TransitionSystem UdpReceiver Label where
  init s := s = { sockets := [.unicast] } ∨ s = { sockets := [.unicast, .multicast] }
  enabled := Enabled
  next := next size

instance (size : Nat) (s : UdpReceiver) (l : Label) : Decidable ((system size).enabled s l) :=
  inferInstanceAs (Decidable (s.Enabled l))

variable {size : Nat} {s : UdpReceiver}

/-! ### The order of the datagrams -/

/-- The datagram of a socket that the thread has taken and not handed over. -/
def inHand (s : UdpReceiver) (k : UdpSocket) : List UdpDatagram :=
  match s.thread with
  | .received k' d _ => if k' = k then [d] else []
  | .calling k' d _ => if k' = k then [d] else []
  | _ => []

/-- Every datagram is accounted for, in the order of arrival. -/
structure Ordered (size : Nat) (s : UdpReceiver) : Prop where
  arrived : ∀ k, s.arrived k = s.missed k ++ s.handed k ++ s.inHand k ++ s.queue k
  calls : ∀ k, s.calls k = (s.handed k).filterMap (view size)
  unset : s.callback = false → ∀ k, s.handed k = []
  calling : ∀ k d rest, s.thread = .calling k d rest → s.callback = true

/-- The thread goes on without a datagram in its hand. -/
theorem Ordered.goOn (h : Ordered size s) (hhand : ∀ k, s.inHand k = []) {counter : Nat}
    {thread : UdpLoop} (hthread : ∀ k, ({ s with thread } : UdpReceiver).inHand k = []) :
    Ordered size { s with counter, thread } where
  arrived k := by
    change s.arrived k = s.missed k ++ s.handed k ++ ({ s with thread } : UdpReceiver).inHand k ++ _
    rw [hthread, ← hhand k]
    exact h.arrived k
  calls := h.calls
  unset := h.unset
  calling k d rest hcalling := by
    have hnone := hthread k
    change thread = _ at hcalling
    rw [hcalling] at hnone
    simp [inHand] at hnone

/-- The datagram in the hand of the thread is handed over. -/
theorem Ordered.handOver (h : Ordered size s) {k : UdpSocket} {d : UdpDatagram}
    (hhand : ∀ k', s.inHand k' = if k = k' then [d] else []) (hcallback : s.callback = true)
    {thread : UdpLoop} (hthread : ∀ k', ({ s with thread } : UdpReceiver).inHand k' = []) :
    Ordered size { s with
      handed := Function.update s.handed k (s.handed k ++ [d])
      calls := Function.update s.calls k (s.calls k ++ (view size d).toList)
      thread } where
  arrived k' := by
    have harrived := h.arrived k'
    change s.arrived k' = s.missed k' ++ Function.update s.handed k (s.handed k ++ [d]) k' ++
      ({ s with thread } : UdpReceiver).inHand k' ++ s.queue k'
    rw [hthread, harrived, hhand]
    by_cases hk : k = k'
    · subst hk
      simp
    · simp [hk, Ne.symm hk]
  calls k' := by
    change Function.update s.calls k _ k' = (Function.update s.handed k _ k').filterMap (view size)
    by_cases hk : k = k'
    · subst hk
      rw [Function.update_self, Function.update_self, List.filterMap_append, h.calls k]
      cases hview : view size d <;> simp [hview]
    · rw [Function.update_of_ne (Ne.symm hk), Function.update_of_ne (Ne.symm hk), h.calls k']
  unset hunset := by
    change s.callback = false at hunset
    rw [hcallback] at hunset
    cases hunset
  calling k' d' rest hcalling := hcallback

theorem Ordered.receive (h : Ordered size s) (events : List PollHandle) :
    Ordered size (s.receive size events) := by
  cases hthread : s.thread with
  | check =>
      simp only [UdpReceiver.receive, hthread]
      exact h.goOn (by simp [inHand, hthread]) (by intro k; split <;> rfl)
  | waiting =>
      simp only [UdpReceiver.receive, hthread]
      exact h.goOn (by simp [inHand, hthread]) (by intro k; rfl)
  | events rest =>
      have hhand : ∀ k, s.inHand k = [] := by simp [inHand, hthread]
      cases rest with
      | nil =>
          simp only [UdpReceiver.receive, hthread]
          exact h.goOn hhand fun _ => rfl
      | cons handle rest =>
          cases handle with
          | wakeup =>
              simp only [UdpReceiver.receive, hthread]
              exact h.goOn hhand fun _ => rfl
          | socket k =>
              simp only [UdpReceiver.receive, hthread]
              exact h.goOn hhand fun _ => by split <;> rfl
  | processing k rest =>
      have hhand : ∀ k, s.inHand k = [] := by simp [inHand, hthread]
      cases hqueue : s.queue k with
      | nil =>
          simp only [UdpReceiver.receive, hthread, hqueue]
          exact h.goOn hhand fun _ => rfl
      | cons d more =>
          simp only [UdpReceiver.receive, hthread, hqueue]
          refine ⟨fun k' => ?_, h.calls, h.unset, by rintro _ _ _ ⟨⟩⟩
          have harrived := h.arrived k'
          rw [hhand] at harrived
          by_cases hk : k = k'
          · subst hk
            simp [inHand, harrived, hqueue]
          · simp [inHand, harrived, hk, Ne.symm hk]
  | received k d rest =>
      have hhand : ∀ k', s.inHand k' = if k = k' then [d] else [] := by simp [inHand, hthread]
      simp only [UdpReceiver.receive, hthread]
      split
      · rename_i hcallback
        cases hview : view size d with
        | some call =>
            refine ⟨fun k' => ?_, h.calls, h.unset, fun _ _ _ _ => hcallback⟩
            have harrived := h.arrived k'
            rw [hhand] at harrived
            exact harrived
        | none =>
            have hcalls :
                Function.update s.calls k (s.calls k ++ (view size d).toList) = s.calls := by
              rw [hview, Option.toList_none, List.append_nil, Function.update_eq_self]
            have hafter := @Ordered.handOver _ _ h k d hhand hcallback (.events rest) fun _ => rfl
            rw [hcalls] at hafter
            exact hafter
      · rename_i hcallback
        have hnone := h.unset (by simpa using hcallback)
        refine ⟨fun k' => ?_, h.calls, h.unset, by rintro _ _ _ ⟨⟩⟩
        have harrived := h.arrived k'
        rw [hhand, hnone] at harrived
        by_cases hk : k = k'
        · subst hk
          simpa [inHand, hnone] using harrived
        · simpa [inHand, hnone, hk, Ne.symm hk] using harrived
  | calling k d rest =>
      simp only [UdpReceiver.receive, hthread]
      exact h.handOver (by simp [inHand, hthread]) (h.calling k d rest hthread) fun _ => rfl
  | inCallback rest =>
      simp only [UdpReceiver.receive, hthread]
      exact h.goOn (by simp [inHand, hthread]) fun _ => rfl
  | exited =>
      simp only [UdpReceiver.receive, hthread]
      exact h

theorem Ordered.next (h : Ordered size s) (l : Label) : Ordered size (s.next size l) := by
  cases l with
  | arrive k d =>
      refine ⟨fun k' => ?_, h.calls, h.unset, h.calling⟩
      have harrived := h.arrived k'
      change Function.update s.arrived k (s.arrived k ++ [d]) k' =
        s.missed k' ++ s.handed k' ++ s.inHand k' ++ Function.update s.queue k (s.queue k ++ [d]) k'
      by_cases hk : k = k'
      · subst hk
        simp [harrived]
      · simp [Ne.symm hk, harrived]
  | setRecvCallback => exact ⟨h.arrived, h.calls, by rintro ⟨⟩, fun _ _ _ _ => rfl⟩
  | receive events => exact h.receive events
  | shutdown =>
      simp only [UdpReceiver.next, shutdown]
      split
      · exact ⟨h.arrived, h.calls, h.unset, h.calling⟩
      · exact h
  | stop =>
      simp only [UdpReceiver.next, stopping]
      split
      · exact h
      · exact ⟨h.arrived, h.calls, h.unset, h.calling⟩
      · exact ⟨h.arrived, h.calls, h.unset, h.calling⟩
      · exact ⟨h.arrived, h.calls, h.unset, h.calling⟩
      · exact ⟨h.arrived, h.calls, h.unset, h.calling⟩
      · exact h

theorem ordered_of_reachable (h : (system size).Reachable s) : Ordered size s := by
  refine h.invariant (fun s hinit => ?_) fun s l _ hs _ => hs.next l
  obtain rfl | rfl := hinit
  · exact ⟨fun _ => rfl, fun _ => rfl, fun _ _ => rfl, by rintro _ _ _ ⟨⟩⟩
  · exact ⟨fun _ => rfl, fun _ => rfl, fun _ _ => rfl, by rintro _ _ _ ⟨⟩⟩

/-! ### Where the threads are -/

structure Inv (s : UdpReceiver) : Prop where
  active : s.active = true ↔ s.stop = .none
  exited : s.thread = .exited → s.active = false
  /-- The wake-up is not lost: the thread does not wait without it. -/
  awake : s.stop = .joining → s.thread = .waiting → 0 < s.counter
  counter : s.stop = .none → s.counter = 0
  joined : s.stop.joined = true → s.thread = .exited
  handlers : s.stop.watches = true → s.handlers = s.sockets
  queue : s.stop.watches = true → ∀ k, s.queue k ≠ [] → k ∈ s.handlers
  closed : s.stop = .returned → s.sockets = []
  watched : s.stop.watches = true → ∀ k, .socket k ∈ s.thread.remaining → k ∈ s.handlers

/-- What is the same for all steps of the receive thread. -/
structure Receives (s s' : UdpReceiver) : Prop where
  active : s'.active = s.active
  callback : s'.callback = s.callback
  sockets : s'.sockets = s.sockets
  handlers : s'.handlers = s.handlers
  stop : s'.stop = s.stop
  arrived : s'.arrived = s.arrived
  missed : s.callback = true → s'.missed = s.missed
  counter : s'.counter = s.counter ∨ s'.counter = 0
  queue : ∀ k, s'.queue k ≠ [] → s.queue k ≠ []
  waiting : s'.thread = .waiting → s.active = true
  exited : s'.thread = .exited → s.thread = .exited ∨ s.active = false

/-- A step that only moves the thread on. -/
theorem receives_thread (s : UdpReceiver) {thread : UdpLoop}
    (hwaiting : thread = .waiting → s.active = true)
    (hexited : thread = .exited → s.thread = .exited ∨ s.active = false) :
    Receives s { s with thread } :=
  ⟨rfl, rfl, rfl, rfl, rfl, rfl, fun _ => rfl, .inl rfl, fun _ => id, hwaiting, hexited⟩

theorem receives (size : Nat) (s : UdpReceiver) (events : List PollHandle) :
    Receives s (s.receive size events) := by
  cases hthread : s.thread with
  | check =>
      simp only [receive, hthread]
      refine receives_thread s (fun hwaiting => ?_) fun hexited => ?_
      · split at hwaiting
        · rename_i hactive
          exact hactive
        · cases hwaiting
      · split at hexited
        · cases hexited
        · rename_i hactive
          exact .inr (Bool.eq_false_iff.mpr hactive)
  | waiting =>
      simp only [receive, hthread]
      exact receives_thread s (by rintro ⟨⟩) (by rintro ⟨⟩)
  | events rest =>
      cases rest with
      | nil =>
          simp only [receive, hthread]
          exact receives_thread s (by rintro ⟨⟩) (by rintro ⟨⟩)
      | cons handle rest =>
          cases handle with
          | wakeup =>
              simp only [receive, hthread]
              exact ⟨rfl, rfl, rfl, rfl, rfl, rfl, fun _ => rfl, .inr rfl, fun _ => id,
                by rintro ⟨⟩, by rintro ⟨⟩⟩
          | socket k =>
              simp only [receive, hthread]
              split
              · exact receives_thread s (by rintro ⟨⟩) (by rintro ⟨⟩)
              · exact receives_thread s (by rintro ⟨⟩) (by rintro ⟨⟩)
  | processing k rest =>
      cases hqueue : s.queue k with
      | nil =>
          simp only [receive, hthread, hqueue]
          exact receives_thread s (by rintro ⟨⟩) (by rintro ⟨⟩)
      | cons d more =>
          simp only [receive, hthread, hqueue]
          refine ⟨rfl, rfl, rfl, rfl, rfl, rfl, fun _ => rfl, .inl rfl, fun k' hne => ?_,
            by rintro ⟨⟩, by rintro ⟨⟩⟩
          by_cases hk : k = k'
          · subst hk
            rw [hqueue]
            exact List.cons_ne_nil _ _
          · simpa [Ne.symm hk] using hne
  | received k d rest =>
      simp only [receive, hthread]
      split
      · split
        · exact receives_thread s (by rintro ⟨⟩) (by rintro ⟨⟩)
        · exact ⟨rfl, rfl, rfl, rfl, rfl, rfl, fun _ => rfl, .inl rfl, fun _ => id, by rintro ⟨⟩,
            by rintro ⟨⟩⟩
      · rename_i hcallback
        exact ⟨rfl, rfl, rfl, rfl, rfl, rfl, fun hset => absurd hset hcallback, .inl rfl,
          fun _ => id, by rintro ⟨⟩, by rintro ⟨⟩⟩
  | calling k d rest =>
      simp only [receive, hthread]
      exact ⟨rfl, rfl, rfl, rfl, rfl, rfl, fun _ => rfl, .inl rfl, fun _ => id, by rintro ⟨⟩,
        by rintro ⟨⟩⟩
  | inCallback rest =>
      simp only [receive, hthread]
      exact receives_thread s (by rintro ⟨⟩) (by rintro ⟨⟩)
  | exited =>
      simp only [receive, hthread]
      refine receives_thread s (fun hwaiting => ?_) fun _ => .inl hthread
      rw [hthread] at hwaiting
      cases hwaiting

/-- The events that are left are those of before, or the ones that were waited for. -/
theorem remaining_receive (size : Nat) {events : List PollHandle} {handle : PollHandle}
    (hmem : handle ∈ (s.receive size events).thread.remaining) :
    handle ∈ s.thread.remaining ∨ s.thread = .waiting ∧ handle ∈ events := by
  cases hthread : s.thread with
  | check =>
      simp only [receive, hthread] at hmem
      split at hmem <;> cases hmem
  | waiting =>
      simp only [receive, hthread] at hmem
      exact .inr ⟨rfl, hmem⟩
  | events rest =>
      cases rest with
      | nil =>
          simp only [receive, hthread] at hmem
          cases hmem
      | cons handle rest =>
          cases handle with
          | wakeup =>
              simp only [receive, hthread] at hmem
              exact .inl (List.mem_cons_of_mem _ hmem)
          | socket k =>
              simp only [receive, hthread] at hmem
              split at hmem
              · exact .inl hmem
              · exact .inl (List.mem_cons_of_mem _ hmem)
  | processing k rest =>
      cases hqueue : s.queue k with
      | nil =>
          simp only [receive, hthread, hqueue] at hmem
          exact .inl (List.mem_cons_of_mem _ hmem)
      | cons d more =>
          simp only [receive, hthread, hqueue] at hmem
          exact .inl (List.mem_cons_of_mem _ hmem)
  | received k d rest =>
      simp only [receive, hthread] at hmem
      split at hmem
      · split at hmem <;> exact .inl hmem
      · exact .inl hmem
  | calling k d rest =>
      simp only [receive, hthread] at hmem
      exact .inl hmem
  | inCallback rest =>
      simp only [receive, hthread] at hmem
      exact .inl hmem
  | exited =>
      simp only [receive, hthread] at hmem
      cases hmem

namespace Inv

theorem receive (h : Inv s) {events : List PollHandle}
    (hreports : s.thread = .waiting → s.Reports events) : Inv (s.receive size events) := by
  have hstep := receives size s events
  have hremaining := fun handle => @remaining_receive s size events handle
  have hjoined : s.thread = .exited → (s.receive size events).thread = .exited := by
    intro hexited
    simp only [UdpReceiver.receive, hexited]
  generalize s.receive size events = s' at hstep hjoined hremaining
  constructor
  · rw [hstep.active, hstep.stop]
    exact h.active
  · intro hexited
    rw [hstep.active]
    exact (hstep.exited hexited).elim h.exited id
  · -- The thread only waits while `active_` is set.
    intro hstop hwaiting
    rw [hstep.stop] at hstop
    have hnone := h.active.mp (hstep.waiting hwaiting)
    rw [hstop] at hnone
    cases hnone
  · intro hnone
    rw [hstep.stop] at hnone
    obtain hsame | hzero := hstep.counter
    · rw [hsame]
      exact h.counter hnone
    · exact hzero
  · rw [hstep.stop]
    exact fun hstop => hjoined (h.joined hstop)
  · rw [hstep.stop, hstep.handlers, hstep.sockets]
    exact h.handlers
  · rw [hstep.stop, hstep.handlers]
    exact fun hwatches k hne => h.queue hwatches k (hstep.queue k hne)
  · rw [hstep.stop, hstep.sockets]
    exact h.closed
  · rw [hstep.stop, hstep.handlers]
    intro hwatches k hmem
    obtain hold | ⟨hwaiting, hevent⟩ := hremaining _ hmem
    · exact h.watched hwatches k hold
    · obtain rfl | ⟨-, -, hwatched⟩ := hreports hwaiting
      · cases hevent
      · exact hwatched _ hevent

theorem arrive (h : Inv s) {k : UdpSocket} (hopen : k ∈ s.sockets) (d : UdpDatagram) :
    Inv (s.next size (.arrive k d)) := by
  refine ⟨h.active, h.exited, h.awake, h.counter, h.joined, h.handlers, ?_, h.closed, h.watched⟩
  intro hwatches k' hne
  by_cases hk : k = k'
  · subst hk
    change k ∈ s.handlers
    rw [h.handlers hwatches]
    exact hopen
  · refine h.queue hwatches k' ?_
    simpa [UdpReceiver.next, Ne.symm hk] using hne

theorem shutdown (h : Inv s) : Inv s.shutdown := by
  rw [UdpReceiver.shutdown]
  split
  · rename_i hactive
    have hnone := h.active.mp hactive
    exact ⟨⟨by rintro ⟨⟩, by rintro ⟨⟩⟩, fun _ => rfl, by rintro ⟨⟩, by rintro ⟨⟩, by rintro ⟨⟩,
      fun _ => h.handlers (by rw [hnone]; rfl), fun _ => h.queue (by rw [hnone]; rfl),
      by rintro ⟨⟩, fun _ => h.watched (by rw [hnone]; rfl)⟩
  · exact h

theorem stopping (h : Inv s) (hjoin : s.stop = .joining → s.thread = .exited) :
    Inv s.stopping := by
  -- As soon as there is a call that goes on, `active_` is clear.
  have hactive : ∀ {stop : UdpShutdown}, s.stop ≠ .none → stop ≠ .none →
      (s.active = true ↔ stop = .none) := fun hbusy hstop =>
    ⟨fun hactive => absurd (h.active.mp hactive) hbusy, fun hnone => absurd hnone hstop⟩
  cases hstop : s.stop with
  | none =>
      simp only [UdpReceiver.stopping, hstop]
      exact h
  | waking =>
      simp only [UdpReceiver.stopping, hstop]
      exact ⟨hactive (by rw [hstop]; decide) (by rintro ⟨⟩), h.exited, fun _ _ => Nat.succ_pos _,
        by rintro ⟨⟩, by rintro ⟨⟩, fun _ => h.handlers (by rw [hstop]; rfl),
        fun _ => h.queue (by rw [hstop]; rfl), by rintro ⟨⟩,
        fun _ => h.watched (by rw [hstop]; rfl)⟩
  | joining =>
      simp only [UdpReceiver.stopping, hstop]
      exact ⟨hactive (by rw [hstop]; decide) (by rintro ⟨⟩), h.exited, by rintro ⟨⟩, by rintro ⟨⟩,
        fun _ => hjoin hstop, fun _ => h.handlers (by rw [hstop]; rfl),
        fun _ => h.queue (by rw [hstop]; rfl), by rintro ⟨⟩,
        fun _ => h.watched (by rw [hstop]; rfl)⟩
  | removing =>
      simp only [UdpReceiver.stopping, hstop]
      exact ⟨hactive (by rw [hstop]; decide) (by rintro ⟨⟩), h.exited, by rintro ⟨⟩, by rintro ⟨⟩,
        fun _ => h.joined (by rw [hstop]; rfl), by rintro ⟨⟩, by rintro ⟨⟩, by rintro ⟨⟩,
        by rintro ⟨⟩⟩
  | closing =>
      simp only [UdpReceiver.stopping, hstop]
      exact ⟨hactive (by rw [hstop]; decide) (by rintro ⟨⟩), h.exited, by rintro ⟨⟩, by rintro ⟨⟩,
        fun _ => h.joined (by rw [hstop]; rfl), by rintro ⟨⟩, by rintro ⟨⟩, fun _ => rfl,
        by rintro ⟨⟩⟩
  | returned =>
      simp only [UdpReceiver.stopping, hstop]
      exact h

theorem next (h : Inv s) {l : Label} (henabled : s.Enabled l) : Inv (s.next size l) := by
  cases l with
  | arrive k d => exact h.arrive henabled d
  | setRecvCallback =>
      exact ⟨h.active, h.exited, h.awake, h.counter, h.joined, h.handlers, h.queue,
        h.closed, h.watched⟩
  | receive events => exact h.receive henabled.2.2
  | shutdown => exact h.shutdown
  | stop => exact h.stopping henabled.2.2

end Inv

theorem inv_of_reachable (h : (system size).Reachable s) : Inv s := by
  refine h.invariant (fun s hinit => ?_) fun s l _ hs henabled => hs.next henabled
  obtain rfl | rfl := hinit
  all_goals
    exact ⟨⟨fun _ => rfl, fun _ => rfl⟩, by rintro ⟨⟩, by rintro ⟨⟩, fun _ => rfl, by rintro ⟨⟩,
      fun _ => rfl, fun _ k hne => absurd rfl hne, by rintro ⟨⟩, by rintro _ _ ⟨⟩⟩

/-! ### What the callback gets -/

/-- A callback stays set, and nothing is missed from then on. -/
theorem missed_next (hset : s.callback = true) (l : Label) :
    (s.next size l).callback = true ∧ (s.next size l).missed = s.missed := by
  cases l with
  | receive events =>
      have hstep := receives size s events
      exact ⟨hstep.callback.trans hset, hstep.missed hset⟩
  | setRecvCallback => exact ⟨rfl, rfl⟩
  | arrive k d => exact ⟨hset, rfl⟩
  | shutdown =>
      simp only [next, shutdown]
      split <;> exact ⟨hset, rfl⟩
  | stop =>
      simp only [next, stopping]
      split <;> exact ⟨hset, rfl⟩

/-- In every reachable state, the callback has got the datagrams of a socket in the order of
arrival, each once and as much of it as the buffer holds: all that have come, apart from those
that were missed, the one that the thread has just taken, and those that still wait. Nothing is
missed once a callback is set. -/
theorem delivers_in_order (h : (system size).Reachable s) (k : UdpSocket) :
    s.calls k = (s.handed k).filterMap (view size) ∧
      s.arrived k = s.missed k ++ s.handed k ++ s.inHand k ++ s.queue k ∧
      (s.callback = true → ∀ t, (system size).Leads s t → t.missed = s.missed) := by
  refine ⟨(ordered_of_reachable h).calls k, (ordered_of_reachable h).arrived k, ?_⟩
  intro hset t hleads
  refine (@TransitionSystem.Leads.invariant _ _ (system size)
    (fun t => t.callback = true ∧ t.missed = s.missed) ?_ s t hleads ⟨hset, rfl⟩).2
  rintro u l ⟨hcallback, hmissed⟩ -
  obtain ⟨hcallback', hsame⟩ := @missed_next size u hcallback l
  exact ⟨hcallback', hsame.trans hmissed⟩

/-- A datagram of one byte. -/
def datagram (byte : UInt8) : UdpDatagram := { address := [], port := 0, data := [byte] }

/-- A datagram is taken before the callback is set, and another one comes later. -/
def lateCallback : List Label :=
  [.receive [], .arrive .unicast (datagram 1), .receive [.socket .unicast], .receive [],
    .receive [], .receive [], .setRecvCallback, .arrive .unicast (datagram 2)]

/-- The thread hands over the second datagram. -/
def secondRound : List Label :=
  [.receive [], .receive [], .receive [.socket .unicast], .receive [], .receive [], .receive [],
    .receive []]

theorem delivers_in_order_secondRound :
    ((system 64).exec { sockets := [.unicast] } (lateCallback ++ secondRound)).calls .unicast =
      [({ address := [], transportType := MessageBus.udp }, [2])] :=
  (delivers_in_order (.exec (.init (.inl rfl)) (by decide)) .unicast).1.trans (by decide)

/-- After `shutdown` has returned to the caller that it did not turn away, nothing is handed
over. -/
theorem silent_after_shutdown (h : (system size).Reachable s) (hreturned : s.stop = .returned)
    {t : UdpReceiver} (hleads : (system size).Leads s t) :
    t.thread = .exited ∧ t.calls = s.calls := by
  have hexited : s.thread = .exited := (inv_of_reachable h).joined (by rw [hreturned]; rfl)
  refine @TransitionSystem.Leads.invariant _ _ (system size)
    (fun t => t.thread = .exited ∧ t.calls = s.calls) ?_ s t hleads ⟨hexited, rfl⟩
  rintro u l ⟨hthread, hcalls⟩ henabled
  cases l with
  | receive events => exact absurd hthread henabled.1
  | arrive k d => exact ⟨hthread, hcalls⟩
  | setRecvCallback => exact ⟨hthread, hcalls⟩
  | shutdown =>
      change u.shutdown.thread = .exited ∧ u.shutdown.calls = s.calls
      rw [shutdown]
      split <;> exact ⟨hthread, hcalls⟩
  | stop =>
      change u.stopping.thread = .exited ∧ u.stopping.calls = s.calls
      rw [stopping]
      split <;> exact ⟨hthread, hcalls⟩

/-- A call of `shutdown` from its begin to its end. -/
def ended : List Label :=
  [.shutdown, .stop, .receive [], .receive [], .stop, .stop, .stop]

theorem silent_after_shutdown_ended :
    ((system 64).exec ((system 64).exec { sockets := [.unicast] } (lateCallback ++ ended))
      [.shutdown, .setRecvCallback]).calls .unicast = [] := by
  have hsilent := (silent_after_shutdown (.exec (.init (.inl rfl)) (by decide)) rfl
    ⟨[.shutdown, .setRecvCallback], by decide, rfl⟩ :
      _ ∧ _ = ((system 64).exec { sockets := [.unicast] } (lateCallback ++ ended)).calls).2
  rw [hsilent]
  decide

end UdpReceiver

end EmbedMq

import EmbedMq.Foundation.LockOrder
import EmbedMq.Foundation.Transition

/-!
# Shutting down the transports

`TransportManager::shutdownAll` takes `mutex_` and, transport by transport, waits until the
receive threads have exited. A receive thread hands frames to a callback, and the callback
answers with `TransportManager::send`, which takes `mutex_` too. It also takes `pendingMutex_` and
others, under which the timer thread and the users' threads send.

A receive thread that waits for `mutex_` while `shutdownAll` holds it, or for a mutex whose holder
does, never exits, and `shutdownAll` never stops waiting for it.
-/

namespace EmbedMq

open LockOrder (Op Thread guarded Blocked Reaches Clear)

inductive Mutex where
  /-- `mutex_` of the `TransportManager`. -/
  | manager
  /-- `pendingMutex_` of the `QoSEngine`. -/
  | pending
  /-- `replyCacheMutex_` and `peerMutex_` of the `MessageBus`. -/
  | replyCache
  | peer
  /-- Any other one. -/
  | other (k : Nat)
  deriving DecidableEq

/-! ### What the threads do with them -/

namespace Mutex

/-- `send`, `sendv` and `isActive` of the `TransportManager`. -/
def send : List (Op Mutex) := guarded manager []

/-- `onAck`, `onPubrec`, `onPubcomp`, `addPending` and `addPendingRel` of the `QoSEngine`. -/
def onAck : List (Op Mutex) := guarded pending []

/-- `onNack` and `processTimeouts`, which send so many messages again. -/
def resend (count : Nat) : List (Op Mutex) := guarded pending (List.replicate count send).flatten

end Mutex

/-- A receive thread, or another one. -/
structure Worker where
  /-- The transport of a receive thread. -/
  transport : Option Nat
  /-- What the thread holds, and what it has left to do of its callback, tick or call. -/
  locks : Thread Mutex := {}
  exited : Bool := false

namespace Worker

def begin (ops : List (Op Mutex)) (w : Worker) : Worker :=
  { w with locks := { w.locks with left := ops } }

def go (w : Worker) : Worker := { w with locks := w.locks.step }

def exit (w : Worker) : Worker := { w with exited := true }

end Worker

/-- How far `shutdownAll` has got. -/
inductive ShutdownPhase where
  | idle
  /-- Wait for `mutex_`. -/
  | wants
  /-- Hold `mutex_`, and wait for the receive threads of the first of these transports. -/
  | joining (left : List Nat)
  | done
  deriving DecidableEq

structure ShutdownState where
  transports : List Nat
  workers : List Worker
  phase : ShutdownPhase := .idle

namespace ShutdownState

def threads (s : ShutdownState) : List (Thread Mutex) := s.workers.map Worker.locks

/-- `shutdownAll` holds `mutex_`. -/
def holdsManager (s : ShutdownState) : Bool :=
  match s.phase with
  | .joining _ => true
  | _ => false

/-- Nobody holds the mutex. -/
def free (s : ShutdownState) (m : Mutex) : Bool :=
  !(s.holdsManager && decide (m = .manager)) && s.threads.all fun t => !decide (m ∈ t.held)

/-- The thread may do its next step. -/
def ready (s : ShutdownState) (t : Thread Mutex) : Bool :=
  match t.left with
  | [] => false
  | .lock m :: _ => s.free m
  | .unlock _ :: _ => true

/-- The transport that is being shut down. -/
def current (s : ShutdownState) : Option Nat :=
  match s.phase with
  | .joining left => left.head?
  | _ => none

/-- The transports whose receive threads may still begin. -/
def active (s : ShutdownState) : List Nat :=
  match s.phase with
  | .joining left => left.tail
  | _ => s.transports

inductive Label where
  /-- `shutdownAll` is called. -/
  | shutdownAll
  /-- It takes `mutex_`. -/
  | lock
  /-- The receive threads of the current transport have exited. -/
  | joined
  /-- It returns. -/
  | unlock
  /-- A receive thread gets a frame, or another thread begins a tick or a call; this is what it will
  do with the mutexes. -/
  | arrive (i : Nat) (ops : List (Op Mutex))
  /-- A thread does its next step. -/
  | go (i : Nat)
  /-- A receive thread sees that its transport is not active any more. -/
  | exit (i : Nat)
  /-- A transport gets one more receive thread. -/
  | spawn (transport : Nat)

/-- A thread changes. -/
def update (s : ShutdownState) (i : Nat) (f : Worker → Worker) : ShutdownState :=
  { s with workers := s.workers.modify i f }

def next (s : ShutdownState) : Label → ShutdownState
  | .shutdownAll => { s with phase := .wants }
  | .lock => { s with phase := .joining s.transports }
  | .joined =>
      match s.phase with
      | .joining left => { s with phase := .joining left.tail }
      | _ => s
  | .unlock => { s with transports := [], phase := .done }
  | .arrive i ops => s.update i (Worker.begin ops)
  | .go i => s.update i Worker.go
  | .exit i => s.update i Worker.exit
  | .spawn transport => { s with workers := s.workers ++ [{ transport := some transport }] }

def Enabled (s : ShutdownState) : Label → Prop
  | .shutdownAll => s.phase = .idle
  | .lock => s.phase = .wants ∧ s.free .manager = true
  | .joined => ∃ transport left, s.phase = .joining (transport :: left) ∧
      ∀ w ∈ s.workers, w.transport = some transport → w.exited = true
  | .unlock => s.phase = .joining []
  | .arrive i _ => ∃ w, s.workers[i]? = some w ∧ w.exited = false ∧ w.locks.left = []
  | .go i => ∃ w, s.workers[i]? = some w ∧ s.ready w.locks = true
  | .exit i => ∃ w, s.workers[i]? = some w ∧ w.exited = false ∧ w.locks.left = [] ∧
      w.transport.isSome = true ∧ w.transport = s.current
  | .spawn transport => transport ∈ s.active

/-- Nothing has been shut down, and no thread does anything. -/
def Initial (s : ShutdownState) : Prop :=
  s.phase = .idle ∧ ∀ w ∈ s.workers, w.locks = {} ∧ w.exited = false ∧
    ∀ t ∈ w.transport, t ∈ s.transports

def system : TransitionSystem ShutdownState Label where
  init := Initial
  enabled := Enabled
  next := next

/-- `shutdownAll` waits for a receive thread that waits for `mutex_`, or for a mutex whose holder
waits for `mutex_`, or for one whose holder waits in turn, and so on. -/
def Deadlocked (s : ShutdownState) : Prop :=
  ∃ transport, s.current = some transport ∧ ∃ w ∈ s.workers, w.transport = some transport ∧
    w.exited = false ∧ ∃ m rest, w.locks.left = .lock m :: rest ∧ Blocked s.threads .manager m

/-- No receive thread has `mutex_` left to take, or a mutex that comes before it: one that some
thread has still to hold while it takes `mutex_`, or takes a mutex that comes before it. -/
def Calm (s : ShutdownState) : Prop :=
  ∀ w ∈ s.workers, w.transport ≠ none → Clear s.threads .manager w.locks

/-- The threads are calm when `shutdownAll` takes `mutex_`, and with what they begin while it holds
it. -/
def Orderly (s : ShutdownState) : Label → Prop
  | .lock => s.Calm
  | .arrive i ops => s.holdsManager = true → (s.update i (Worker.begin ops)).Calm
  | _ => True

/-! ### What a step changes -/

variable {s : ShutdownState}

theorem holdsManager_iff : s.holdsManager = true ↔ ∃ left, s.phase = .joining left := by
  rw [holdsManager]
  split
  · next left hphase => exact iff_of_true rfl ⟨left, hphase⟩
  · next hphase =>
      refine iff_of_false Bool.false_ne_true ?_
      rintro ⟨left, h⟩
      exact hphase left h

theorem holdsManager_of_current {transport : Nat} (h : s.current = some transport) :
    s.holdsManager = true := by
  rw [current] at h
  split at h
  · next left hphase => exact holdsManager_iff.mpr ⟨left, hphase⟩
  · cases h

/-- A thread after an update is one from before it, or what became of one. -/
theorem mem_update {i : Nat} {f : Worker → Worker} {w : Worker}
    (h : w ∈ (s.update i f).workers) :
    w ∈ s.workers ∨ ∃ old, s.workers[i]? = some old ∧ w = f old := by
  obtain ⟨j, hj⟩ := List.mem_iff_getElem?.mp h
  rw [update, List.getElem?_modify] at hj
  obtain ⟨old, hold, hw⟩ := Option.map_eq_some_iff.mp hj
  split at hw
  · next heq =>
      subst heq
      exact .inr ⟨old, hold, hw.symm⟩
  · exact .inl (hw ▸ List.mem_of_getElem? hold)

/-- A thread that is not the one which changes is still there. -/
theorem mem_update_of_ne {i : Nat} {f : Worker → Worker} {w old : Worker} (h : w ∈ s.workers)
    (hold : s.workers[i]? = some old) (hne : w ≠ old) : w ∈ (s.update i f).workers := by
  obtain ⟨j, hj⟩ := List.mem_iff_getElem?.mp h
  refine List.mem_iff_getElem?.mpr ⟨j, ?_⟩
  have hij : i ≠ j := by
    rintro rfl
    exact hne (Option.some.inj (hj.symm.trans hold))
  rw [update, List.getElem?_modify, hj]
  exact congrArg some (if_neg hij)

/-! ### No deadlock -/

/-- A step of a thread leaves the others calm, and takes nothing away from the order but pairs. -/
theorem Calm.update (h : s.Calm) {i : Nat} {f : Worker → Worker}
    (htransport : ∀ w, (f w).transport = w.transport)
    (hlocks : ∀ w, (f w).locks = w.locks ∨ (f w).locks = w.locks.step) :
    (s.update i f).Calm := by
  have hsub : ∀ t ∈ (s.update i f).threads, ∀ m m', t.Nests m m' →
      ∃ t' ∈ s.threads, t'.Nests m m' := by
    intro t ht m m' hnests
    obtain ⟨w, hw, rfl⟩ := List.mem_map.mp ht
    obtain hold | ⟨old, hold, rfl⟩ := mem_update hw
    · exact ⟨w.locks, List.mem_map_of_mem hold, hnests⟩
    · refine ⟨old.locks, List.mem_map_of_mem (List.mem_of_getElem? hold), ?_⟩
      obtain hsame | hstep := hlocks old
      · exact hsame ▸ hnests
      · exact .later (hstep ▸ hnests)
  intro w hw hreceives
  obtain hold | ⟨old, hold, rfl⟩ := mem_update hw
  · exact (h w hold hreceives).mono (fun _ hop => hop) hsub
  · rw [htransport] at hreceives
    refine (h old (List.mem_of_getElem? hold) hreceives).mono (fun op hop => ?_) hsub
    obtain hsame | hstep := hlocks old
    · exact hsame ▸ hop
    · exact Thread.mem_left_of_step (hstep ▸ hop)

theorem Calm.spawn (h : s.Calm) (transport : Nat) : (s.next (.spawn transport)).Calm := by
  have hthreads : (s.next (.spawn transport)).threads = s.threads ++ [⟨[], []⟩] :=
    List.map_append
  have hsub : ∀ t ∈ (s.next (.spawn transport)).threads, ∀ m m', t.Nests m m' →
      ∃ t' ∈ s.threads, t'.Nests m m' := by
    intro t ht m m' hnests
    rw [hthreads] at ht
    obtain hold | hnew := List.mem_append.mp ht
    · exact ⟨t, hold, hnests⟩
    · obtain rfl := List.mem_singleton.mp hnew
      exact absurd hnests (Thread.not_nests rfl m m')
  intro w hw hreceives
  obtain hold | hnew := List.mem_append.mp hw
  · exact (h w hold hreceives).mono (fun _ hop => hop) hsub
  · obtain rfl := List.mem_singleton.mp hnew
    exact LockOrder.clear_of_left_nil rfl

/-- In an orderly run the threads stay calm as long as `shutdownAll` holds `mutex_`. -/
theorem calm_step {l : Label} (h : s.holdsManager = true → s.Calm) (henabled : s.Enabled l)
    (horderly : s.Orderly l) (hholds : (s.next l).holdsManager = true) : (s.next l).Calm := by
  cases l with
  | shutdownAll =>
      obtain ⟨left, hphase⟩ := holdsManager_iff.mp hholds
      cases hphase
  | lock => exact horderly
  | joined =>
      obtain ⟨transport, left, hphase, -⟩ := henabled
      have hcalm := h (holdsManager_iff.mpr ⟨_, hphase⟩)
      simp only [next, hphase]
      exact hcalm
  | unlock =>
      obtain ⟨left, hphase⟩ := holdsManager_iff.mp hholds
      cases hphase
  | arrive i ops => exact horderly hholds
  | go i => exact (h hholds).update (fun _ => rfl) fun _ => .inr rfl
  | exit i => exact (h hholds).update (fun _ => rfl) fun _ => .inl rfl
  | spawn transport => exact (h hholds).spawn transport

theorem calm_of_reachable (h : (system.restrict Orderly).Reachable s) :
    s.holdsManager = true → s.Calm := by
  induction h with
  | init hinit =>
      intro hholds
      obtain ⟨left, hjoining⟩ := holdsManager_iff.mp hholds
      rw [hinit.1] at hjoining
      cases hjoining
  | step _ henabled ih => exact calm_step ih henabled.1 henabled.2

/-- In every orderly run, `shutdownAll` never waits for a thread that waits for `mutex_`, itself or
through others. -/
theorem not_deadlocked (h : (system.restrict Orderly).Reachable s) : ¬ s.Deadlocked := by
  rintro ⟨transport, hcurrent, w, hmem, htransport, -, m, rest, hleft, hblocked⟩
  have hreceives : w.transport ≠ none := by
    rw [htransport]
    exact Option.some_ne_none transport
  have hcalm := calm_of_reachable h (holdsManager_of_current hcurrent)
  exact (hcalm w hmem hreceives).not_blocked hleft hblocked

/-! ### A deadlock is for good -/

theorem not_free_of_blocked {m : Mutex} (hholds : s.holdsManager = true)
    (h : Blocked s.threads .manager m) : s.free m = false := by
  rw [free]
  obtain rfl | ⟨t, ht, hheld⟩ := h.taken
  · rw [hholds]
    rfl
  · refine Bool.and_eq_false_iff.mpr (.inr (List.all_eq_false.mpr ⟨t, ht, ?_⟩))
    rw [decide_eq_true hheld]
    exact Bool.false_ne_true

/-- The threads that wait are neither ready nor free for something else. -/
theorem waits_untouched {l : Label} (hholds : s.holdsManager = true) (henabled : s.Enabled l)
    (hjoined : l ≠ .joined) {w : Worker} (hw : w ∈ s.workers) {m : Mutex} {rest : List (Op Mutex)}
    (hleft : w.locks.left = .lock m :: rest) (hblocked : Blocked s.threads .manager m) :
    w ∈ (s.next l).workers := by
  cases l with
  | shutdownAll | lock | unlock => exact hw
  | joined => exact absurd rfl hjoined
  | arrive i ops =>
      obtain ⟨old, hold, -, hidle⟩ := henabled
      refine mem_update_of_ne hw hold ?_
      rintro rfl
      rw [hidle] at hleft
      cases hleft
  | go i =>
      obtain ⟨old, hold, hready⟩ := henabled
      refine mem_update_of_ne hw hold ?_
      rintro rfl
      simp only [ready, hleft, not_free_of_blocked hholds hblocked] at hready
      cases hready
  | exit i =>
      obtain ⟨old, hold, -, hidle, -⟩ := henabled
      refine mem_update_of_ne hw hold ?_
      rintro rfl
      rw [hidle] at hleft
      cases hleft
  | spawn transport => exact List.mem_append_left _ hw

theorem Deadlocked.next (h : s.Deadlocked) {l : Label} (henabled : s.Enabled l) :
    (s.next l).Deadlocked := by
  obtain ⟨transport, hcurrent, w, hmem, htransport, hrunning, m, rest, hleft, hblocked⟩ := h
  have hholds := holdsManager_of_current hcurrent
  obtain ⟨left, hphase⟩ := holdsManager_iff.mp hholds
  have hhead : left.head? = some transport := by
    rw [current, hphase] at hcurrent
    exact hcurrent
  have hjoined : l ≠ .joined := by
    rintro rfl
    obtain ⟨t, others, hjoining, hexited⟩ := henabled
    obtain rfl := ShutdownPhase.joining.inj (hphase.symm.trans hjoining)
    obtain rfl := Option.some.inj hhead
    rw [hexited w hmem htransport] at hrunning
    cases hrunning
  have hcurrent' : (s.next l).current = some transport := by
    cases l with
    | shutdownAll =>
        rw [henabled] at hphase
        cases hphase
    | lock =>
        rw [henabled.1] at hphase
        cases hphase
    | joined => exact absurd rfl hjoined
    | unlock =>
        obtain rfl := ShutdownPhase.joining.inj (hphase.symm.trans henabled)
        cases hhead
    | _ => exact hcurrent
  refine ⟨transport, hcurrent', w, waits_untouched hholds henabled hjoined hmem hleft hblocked,
    htransport, hrunning, m, rest, hleft, hblocked.mono fun t ht m' rest' hleft' hblocked' => ?_⟩
  obtain ⟨v, hv, rfl⟩ := List.mem_map.mp ht
  exact List.mem_map_of_mem (waits_untouched hholds henabled hjoined hv hleft' hblocked')

/-! ### One receive thread and the timer thread -/

def listening : ShutdownState where
  transports := [0]
  workers := [{ transport := some 0 }, { transport := none }]

theorem initial_listening : Initial listening := by
  refine ⟨rfl, ?_⟩
  decide

/-- The receive thread has answered its frame before the shutdown; the timer thread sends a message
again and waits for `mutex_` with `pendingMutex_` held until `shutdownAll` returns. -/
def orderly : List Label :=
  [.arrive 0 Mutex.send, .go 0, .go 0, .arrive 1 (Mutex.resend 1), .go 1,
    .shutdownAll, .lock, .exit 0, .joined, .unlock, .go 1]

/-- The receive thread handles a frame when `shutdownAll` takes `mutex_`, and answers it. -/
def crossed : List Label := [.arrive 0 Mutex.send, .shutdownAll, .lock]

/-- It handles an ACK, while the timer thread sends messages again. -/
def nested : List Label :=
  [.arrive 1 (Mutex.resend 1), .go 1, .arrive 0 Mutex.onAck, .shutdownAll, .lock]

theorem not_deadlocked_orderly : ¬ (system.exec listening orderly).Deadlocked := by
  refine not_deadlocked (TransitionSystem.Reachable.exec (.init initial_listening) ?_)
  have hfree : (listening.holdsManager = true) → False := Bool.false_ne_true
  have hcalm : (system.exec listening (orderly.take 6)).Calm := by
    intro w hw hreceives
    obtain rfl | hw := List.mem_cons.mp hw
    · exact LockOrder.clear_of_left_nil rfl
    · obtain rfl := List.mem_singleton.mp hw
      exact absurd rfl hreceives
  exact ⟨⟨⟨_, rfl, rfl, rfl⟩, fun hholds => (hfree hholds).elim⟩, ⟨⟨_, rfl, rfl⟩, trivial⟩,
    ⟨⟨_, rfl, rfl⟩, trivial⟩, ⟨⟨_, rfl, rfl, rfl⟩, fun hholds => (hfree hholds).elim⟩,
    ⟨⟨_, rfl, rfl⟩, trivial⟩, ⟨rfl, trivial⟩, ⟨⟨rfl, rfl⟩, hcalm⟩,
    ⟨⟨_, rfl, rfl, rfl, rfl, rfl⟩, trivial⟩, ⟨⟨0, [], rfl, by decide⟩, trivial⟩, ⟨rfl, trivial⟩,
    ⟨⟨_, rfl, rfl⟩, trivial⟩, trivial⟩

theorem deadlocked_crossed : ¬ ∀ s, system.Reachable s → ¬ s.Deadlocked := by
  intro hclaim
  have hreach : system.Reachable (system.exec listening crossed) := by
    refine TransitionSystem.Reachable.exec (.init initial_listening) ?_
    exact ⟨⟨_, rfl, rfl, rfl⟩, rfl, ⟨rfl, rfl⟩, trivial⟩
  exact hclaim _ hreach ⟨0, rfl, _, List.mem_cons_self, rfl, rfl, .manager, _, rfl, .root⟩

/-- The wait may lead through `pendingMutex_`. -/
theorem deadlocked_nested :
    system.Reachable (system.exec listening nested) ∧
      (system.exec listening nested).Deadlocked := by
  refine ⟨TransitionSystem.Reachable.exec (.init initial_listening) ?_, 0, rfl, _,
    List.mem_cons_self, rfl, rfl, .pending, _, rfl, ?_⟩
  · exact ⟨⟨_, rfl, rfl, rfl⟩, ⟨_, rfl, rfl⟩, ⟨_, rfl, rfl, rfl⟩, rfl, ⟨rfl, rfl⟩, trivial⟩
  · exact .held (List.mem_cons_of_mem _ List.mem_cons_self) List.mem_cons_self rfl .root

end ShutdownState

end EmbedMq

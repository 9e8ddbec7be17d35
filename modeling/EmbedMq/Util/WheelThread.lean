import EmbedMq.Util.Timers

/-!
# The thread of a timer wheel

`start` lets a thread run `loop`, which checks `running_` before each tick, before each callback
and before a timer is put back. `stop` clears `running_`, takes `stopMutex_` and joins the thread
if it can be joined. Any number of threads may be in `stop` at the same time. `start` does not
synchronise with `stop`, so it is only called when no call of `stop` is in progress, and only
when there is no thread. A callback does not call `stop` itself.
-/

namespace EmbedMq

variable {κ : Type*}

/-- Where the thread is in `loop`. -/
inductive WheelLoop (κ : Type*) where
  /-- `thread_` cannot be joined: it was not started, or it was joined. -/
  | absent
  /-- At the condition of the loop. -/
  | check
  | sleeping
  /-- In `tick`, at the check of `running_` before the next callback. -/
  | due
  /-- The check has passed, and the callback is called next. -/
  | calling (t : Timer κ) (rest : List (Timer κ))
  | inCallback (t : Timer κ)
  /-- At `t.intervalMs > 0 && running_`. -/
  | testing (t : Timer κ)
  | reinserting (t : Timer κ)
  /-- The thread has left `loop`. -/
  | exited

/-- Where a thread is in `stop`. -/
inductive Stopping where
  | idle
  /-- About to clear `running_`. -/
  | clearing
  /-- Wait for `stopMutex_`. -/
  | locking
  /-- Hold `stopMutex_`, before the check whether the thread can be joined. -/
  | holding
  | joining
  | unlocking
  deriving DecidableEq

/-- A call of `stop` that has cleared `running_`. -/
def Stopping.cleared : Stopping → Bool
  | .idle => false
  | .clearing => false
  | _ => true

/-- A call of `stop` that holds `stopMutex_`. -/
def Stopping.holds : Stopping → Bool
  | .holding => true
  | .joining => true
  | .unlocking => true
  | _ => false

/-- The thread has passed a check of `running_` and calls back next. -/
def WheelLoop.isCalling : WheelLoop κ → Bool
  | .calling _ _ => true
  | _ => false

/-- The thread has left `loop`. -/
def WheelLoop.hasExited : WheelLoop κ → Bool
  | .exited => true
  | _ => false

/-- `thread_.joinable()`. -/
def WheelLoop.joinable : WheelLoop κ → Bool
  | .absent => false
  | _ => true

structure WheelThread (κ : Type*) where
  timers : Timers κ := {}
  running : Bool := false
  thread : WheelLoop κ := .absent
  stopMutex : Option Nat := none
  stops : Nat → Stopping := fun _ => .idle
  /-- A call of `stop` has returned since the last start. -/
  stopped : Bool := false
  /-- The callbacks that were called since `running_` was cleared. -/
  late : Nat := 0

namespace WheelThread

inductive Label (κ : Type*) where
  /-- A caller adds or cancels a timer. -/
  | allocate
  | insert (id : Nat) (delayMs : UInt32) (periodic : Bool) (cb : κ)
  | cancel (id : Nat)
  | start
  /-- A step of the thread. -/
  | loop
  /-- Thread `i` calls `stop`. -/
  | call (i : Nat)
  /-- A step of the call of thread `i`. -/
  | stop (i : Nat)

def start (s : WheelThread κ) : WheelThread κ :=
  { s with running := true, thread := .check, stopped := false, late := 0 }

/-- One step of `loop`. -/
def loop (s : WheelThread κ) : WheelThread κ :=
  match s.thread with
  | .absent => s
  | .check => { s with thread := if s.running then .sleeping else .exited }
  | .sleeping => { s with timers := s.timers.tick, thread := .due }
  | .due =>
      match s.timers.left with
      | [] => { s with thread := .check }
      | t :: rest =>
          if s.running then { s with thread := .calling t rest }
          else { s with timers := { s.timers with left := [] }, thread := .check }
  | .calling t rest =>
      { s with
        timers := s.timers.fire t rest
        thread := .inCallback t
        late := if s.running then s.late else s.late + 1 }
  | .inCallback t => { s with thread := .testing t }
  | .testing t =>
      if 0 < t.intervalMs ∧ s.running then { s with thread := .reinserting t }
      else { s with timers := { s.timers with ran := none }, thread := .due }
  | .reinserting t => { s with timers := s.timers.settle t, thread := .due }
  | .exited => s

def setStop (s : WheelThread κ) (i : Nat) (place : Stopping) : WheelThread κ :=
  { s with stops := Function.update s.stops i place }

/-- One step of a call of `stop`. -/
def stop (s : WheelThread κ) (i : Nat) : WheelThread κ :=
  match s.stops i with
  | .idle => s
  | .clearing => { s.setStop i .locking with running := false }
  | .locking => { s.setStop i .holding with stopMutex := some i }
  | .holding => s.setStop i (if s.thread.joinable then .joining else .unlocking)
  | .joining => { s.setStop i .unlocking with thread := .absent }
  | .unlocking => { s.setStop i .idle with stopMutex := none, stopped := true }

def next (s : WheelThread κ) : Label κ → WheelThread κ
  | .allocate => { s with timers := s.timers.allocate }
  | .insert id delayMs periodic cb => { s with timers := s.timers.add id delayMs periodic cb }
  | .cancel id => { s with timers := s.timers.cancel id }
  | .start => s.start
  | .loop => s.loop
  | .call i => s.setStop i .clearing
  | .stop i => s.stop i

def Enabled (s : WheelThread κ) : Label κ → Prop
  | .insert id _ _ _ => id ∈ s.timers.allocated
  | .start => s.thread.joinable = false ∧ ∀ i, s.stops i = .idle
  | .call i => s.stops i = .idle
  | .stop i =>
      s.stops i ≠ .idle ∧ (s.stops i = .locking → s.stopMutex = none) ∧
        (s.stops i = .joining → s.thread.hasExited = true)
  | _ => True

/-- All orders of the steps of callers, of the thread and of the calls of `stop`. -/
def system (κ : Type*) : TransitionSystem (WheelThread κ) (Label κ) where
  init s := s = {}
  enabled := Enabled
  next := next

variable {s : WheelThread κ} {i j : Nat}

@[simp] theorem setStop_stops (s : WheelThread κ) (i : Nat) (place : Stopping) :
    (s.setStop i place).stops i = place := Function.update_self ..

/-! ### The invariant -/

structure Inv (s : WheelThread κ) : Prop where
  cleared : ∀ i, (s.stops i).cleared = true → s.running = false
  holder : ∀ i, (s.stops i).holds = true ↔ s.stopMutex = some i
  joining : ∀ i, s.stops i = .joining → s.thread.joinable = true
  unlocking : ∀ i, s.stops i = .unlocking → s.thread.joinable = false
  stopped : s.stopped = true → s.thread.joinable = false ∧ s.running = false
  running : s.running = true → s.late = 0
  calling : s.thread.isCalling = true → s.late = 0
  late_le : s.late ≤ 1

namespace Inv

theorem init : Inv ({} : WheelThread κ) where
  cleared := by rintro i ⟨⟩
  holder i := by
    constructor
    · rintro ⟨⟩
    · rintro ⟨⟩
  joining := by rintro i ⟨⟩
  unlocking := by rintro i ⟨⟩
  stopped := by rintro ⟨⟩
  running := by rintro ⟨⟩
  calling := by rintro ⟨⟩
  late_le := Nat.zero_le 1

theorem start (h : Inv s) (hidle : ∀ i, s.stops i = .idle) : Inv s.start where
  cleared i hi := by
    have hstop : s.start.stops i = .idle := hidle i
    rw [hstop] at hi
    cases hi
  holder := h.holder
  joining i hi := by
    have hstop : s.start.stops i = .idle := hidle i
    rw [hstop] at hi
    cases hi
  unlocking i hi := by
    have hstop : s.start.stops i = .idle := hidle i
    rw [hstop] at hi
    cases hi
  stopped := by rintro ⟨⟩
  running _ := rfl
  calling := by rintro ⟨⟩
  late_le := Nat.zero_le 1

/-- The thread moves on. It goes to a callback only while `running_` holds, or before that
callback is late. -/
theorem setThread (h : Inv s) {s' : WheelThread κ} (hrunning : s'.running = s.running)
    (hmutex : s'.stopMutex = s.stopMutex) (hstops : s'.stops = s.stops)
    (hstopped : s'.stopped = s.stopped) (hjoinable : s'.thread.joinable = s.thread.joinable)
    (hcalling : s'.thread.isCalling = true → s.running = true ∧ s'.late = s.late)
    (hlate : s'.late = s.late ∨
      s.thread.isCalling = true ∧ s'.late = if s.running then s.late else s.late + 1) :
    Inv s' where
  cleared i hi := by
    rw [hstops] at hi
    exact hrunning.trans (h.cleared i hi)
  holder i := by
    rw [hstops, hmutex]
    exact h.holder i
  joining i hi := by
    rw [hstops] at hi
    exact hjoinable.trans (h.joining i hi)
  unlocking i hi := by
    rw [hstops] at hi
    exact hjoinable.trans (h.unlocking i hi)
  stopped hs := by
    rw [hstopped] at hs
    rw [hjoinable, hrunning]
    exact h.stopped hs
  running hr := by
    rw [hrunning] at hr
    obtain hsame | ⟨-, hcount⟩ := hlate
    · exact hsame.trans (h.running hr)
    · rw [hcount, if_pos hr]
      exact h.running hr
  calling hc := by
    obtain ⟨hr, hsame⟩ := hcalling hc
    exact hsame.trans (h.running hr)
  late_le := by
    obtain hsame | ⟨hc, hcount⟩ := hlate
    · exact hsame.trans_le h.late_le
    · rw [hcount, h.calling hc]
      split <;> omega

theorem loop (h : Inv s) : Inv s.loop := by
  cases hthread : s.thread with
  | absent =>
      simp only [WheelThread.loop, hthread]
      exact h
  | exited =>
      simp only [WheelThread.loop, hthread]
      exact h
  | check =>
      simp only [WheelThread.loop, hthread]
      split <;> exact h.setThread rfl rfl rfl rfl (by rw [hthread]; rfl) (by rintro ⟨⟩) (.inl rfl)
  | due =>
      simp only [WheelThread.loop, hthread]
      split
      · exact h.setThread rfl rfl rfl rfl (by rw [hthread]; rfl) (by rintro ⟨⟩) (.inl rfl)
      · split
        · rename_i hrunning
          exact h.setThread rfl rfl rfl rfl (by rw [hthread]; rfl) (fun _ => ⟨hrunning, rfl⟩)
            (.inl rfl)
        · exact h.setThread rfl rfl rfl rfl (by rw [hthread]; rfl) (by rintro ⟨⟩) (.inl rfl)
  | calling t rest =>
      simp only [WheelThread.loop, hthread]
      exact h.setThread rfl rfl rfl rfl (by rw [hthread]; rfl) (by rintro ⟨⟩)
        (.inr ⟨by rw [hthread]; rfl, rfl⟩)
  | testing t =>
      simp only [WheelThread.loop, hthread]
      split <;> exact h.setThread rfl rfl rfl rfl (by rw [hthread]; rfl) (by rintro ⟨⟩) (.inl rfl)
  | _ =>
      simp only [WheelThread.loop, hthread]
      exact h.setThread rfl rfl rfl rfl (by rw [hthread]; rfl) (by rintro ⟨⟩) (.inl rfl)

/-- The places of the other calls are as before. -/
theorem stops_cases {s' : WheelThread κ} {place : Stopping}
    (hstops : s'.stops = Function.update s.stops i place) (j : Nat) :
    (j = i ∧ s'.stops j = place) ∨ (j ≠ i ∧ s'.stops j = s.stops j) := by
  by_cases hj : j = i
  · exact .inl ⟨hj, by rw [hstops, hj, Function.update_self]⟩
  · exact .inr ⟨hj, by rw [hstops, Function.update_of_ne hj]⟩

/-- A call moves on without taking or releasing `stopMutex_`. -/
theorem setStop (h : Inv s) {place : Stopping} (hholds : place.holds = (s.stops i).holds)
    (hcleared : place.cleared = true → s.running = false)
    (hjoining : place = .joining → s.thread.joinable = true)
    (hunlocking : place = .unlocking → s.thread.joinable = false) : Inv (s.setStop i place) := by
  have hcases := stops_cases (show (s.setStop i place).stops = _ from rfl)
  refine { h with
    cleared := fun j hj => ?_, holder := fun j => ?_, joining := fun j hj => ?_
    unlocking := fun j hj => ?_ }
  · obtain ⟨-, hplace⟩ | ⟨-, hplace⟩ := hcases j <;> rw [hplace] at hj
    · exact hcleared hj
    · exact h.cleared j hj
  · obtain ⟨rfl, hplace⟩ | ⟨-, hplace⟩ := hcases j <;> rw [hplace]
    · rw [hholds]
      exact h.holder j
    · exact h.holder j
  · obtain ⟨-, hplace⟩ | ⟨-, hplace⟩ := hcases j <;> rw [hplace] at hj
    · exact hjoining hj
    · exact h.joining j hj
  · obtain ⟨-, hplace⟩ | ⟨-, hplace⟩ := hcases j <;> rw [hplace] at hj
    · exact hunlocking hj
    · exact h.unlocking j hj

/-- `running_` is cleared. A callback that is under way to its call was in time so far. -/
theorem clear (h : Inv s) : Inv { s with running := false } :=
  { h with
    cleared := fun _ _ => rfl
    stopped := fun hs => ⟨(h.stopped hs).1, rfl⟩
    running := by rintro ⟨⟩ }

/-- `stopMutex_` has one holder. -/
theorem eq_of_holds (h : Inv s) (hi : (s.stops i).holds = true) (hj : (s.stops j).holds = true) :
    i = j :=
  Option.some.inj (((h.holder i).mp hi).symm.trans ((h.holder j).mp hj))

theorem lock (h : Inv s) (hlocking : s.stops i = .locking) (hfree : s.stopMutex = none) :
    Inv { s.setStop i .holding with stopMutex := some i } := by
  have hcases := stops_cases (show (s.setStop i .holding).stops = _ from rfl)
  have hnobody : ∀ j, (s.stops j).holds = true → False := by
    intro j hj
    have hmutex := (h.holder j).mp hj
    rw [hfree] at hmutex
    cases hmutex
  refine { h with
    cleared := fun j hj => ?_, holder := fun j => ?_, joining := fun j hj => ?_
    unlocking := fun j hj => ?_ }
  · exact h.cleared i (by rw [hlocking]; rfl)
  · change ((s.setStop i .holding).stops j).holds = true ↔ some i = some j
    obtain ⟨rfl, hplace⟩ | ⟨hne, hplace⟩ := hcases j <;> rw [hplace]
    · exact iff_of_true rfl rfl
    · exact iff_of_false (hnobody j) fun heq => hne (Option.some.inj heq).symm
  · change (s.setStop i .holding).stops j = _ at hj
    obtain ⟨-, hplace⟩ | ⟨-, hplace⟩ := hcases j <;> rw [hplace] at hj
    · cases hj
    · exact h.joining j hj
  · change (s.setStop i .holding).stops j = _ at hj
    obtain ⟨-, hplace⟩ | ⟨-, hplace⟩ := hcases j <;> rw [hplace] at hj
    · cases hj
    · exact h.unlocking j hj

/-- The thread is joined. -/
theorem join (h : Inv s) (hjoining : s.stops i = .joining) :
    Inv { s.setStop i .unlocking with thread := .absent } := by
  have hcases := stops_cases (show (s.setStop i .unlocking).stops = _ from rfl)
  have hcleared : s.running = false := h.cleared i (by rw [hjoining]; rfl)
  have hholds : (s.stops i).holds = true := by rw [hjoining]; rfl
  refine { h with
    cleared := fun j hj => hcleared, holder := fun j => ?_, joining := fun j hj => ?_
    unlocking := fun j hj => rfl, stopped := fun hs => ⟨rfl, hcleared⟩
    calling := by rintro ⟨⟩ }
  · change ((s.setStop i .unlocking).stops j).holds = true ↔ _
    obtain ⟨rfl, hplace⟩ | ⟨-, hplace⟩ := hcases j <;> rw [hplace]
    · exact iff_of_true rfl ((h.holder j).mp hholds)
    · exact h.holder j
  · change (s.setStop i .unlocking).stops j = _ at hj
    obtain ⟨-, hplace⟩ | ⟨hne, hplace⟩ := hcases j <;> rw [hplace] at hj
    · cases hj
    · exact absurd (h.eq_of_holds (by rw [hj]; rfl) hholds) hne

theorem unlock (h : Inv s) (hunlocking : s.stops i = .unlocking) :
    Inv { s.setStop i .idle with stopMutex := none, stopped := true } := by
  have hcases := stops_cases (show (s.setStop i .idle).stops = _ from rfl)
  have hcleared : s.running = false := h.cleared i (by rw [hunlocking]; rfl)
  have hholds : (s.stops i).holds = true := by rw [hunlocking]; rfl
  refine { h with
    cleared := fun j hj => hcleared, holder := fun j => ?_, joining := fun j hj => ?_
    unlocking := fun j hj => h.unlocking i hunlocking
    stopped := fun hs => ⟨h.unlocking i hunlocking, hcleared⟩ }
  · change ((s.setStop i .idle).stops j).holds = true ↔ none = some j
    obtain ⟨rfl, hplace⟩ | ⟨hne, hplace⟩ := hcases j <;> rw [hplace]
    · exact iff_of_false Bool.false_ne_true (by rintro ⟨⟩)
    · exact iff_of_false (fun hj => hne (h.eq_of_holds hj hholds)) (by rintro ⟨⟩)
  · change (s.setStop i .idle).stops j = _ at hj
    obtain ⟨-, hplace⟩ | ⟨-, hplace⟩ := hcases j <;> rw [hplace] at hj
    · cases hj
    · exact h.joining j hj

theorem stop (h : Inv s) (henabled : s.Enabled (.stop i)) : Inv (s.stop i) := by
  obtain ⟨hbusy, hfree, -⟩ := henabled
  cases hstop : s.stops i with
  | idle => exact absurd hstop hbusy
  | clearing =>
      simp only [WheelThread.stop, hstop]
      have hholds : Stopping.locking.holds = (s.stops i).holds := by
        rw [hstop]
        rfl
      exact h.clear.setStop hholds (fun _ => rfl) (by rintro ⟨⟩) (by rintro ⟨⟩)
  | locking =>
      simp only [WheelThread.stop, hstop]
      exact h.lock hstop (hfree hstop)
  | holding =>
      have hcleared : s.running = false := h.cleared i (by rw [hstop]; rfl)
      simp only [WheelThread.stop, hstop]
      split
      · rename_i hjoinable
        exact h.setStop (by rw [hstop]; rfl) (fun _ => hcleared) (fun _ => hjoinable)
          (by rintro ⟨⟩)
      · rename_i hjoinable
        exact h.setStop (by rw [hstop]; rfl) (fun _ => hcleared) (by rintro ⟨⟩)
          (fun _ => eq_false_of_ne_true hjoinable)
  | joining =>
      simp only [WheelThread.stop, hstop]
      exact h.join hstop
  | unlocking =>
      simp only [WheelThread.stop, hstop]
      exact h.unlock hstop

theorem next (h : Inv s) {l : Label κ} (henabled : s.Enabled l) : Inv (s.next l) := by
  cases l with
  | start => exact h.start henabled.2
  | loop => exact h.loop
  | call i =>
      have hidle : s.stops i = .idle := henabled
      exact h.setStop (by rw [hidle]; rfl) (by rintro ⟨⟩) (by rintro ⟨⟩) (by rintro ⟨⟩)
  | stop i => exact h.stop henabled
  | _ => exact { h with }

end Inv

theorem inv_of_reachable (h : (system κ).Reachable s) : Inv s := by
  refine h.invariant ?_ fun s l _ hinv henabled => hinv.next henabled
  rintro s rfl
  exact Inv.init

/-! ### After `stop` -/

/-- A callback is under way when two threads call `stop`, and the first one gets the mutex. -/
def stopping : List (Label Unit) :=
  [.start, .allocate, .insert 1 10 true (), .loop, .loop, .loop, .call 0, .call 1, .stop 0, .stop 1,
    .stop 0, .loop]

/-- The thread leaves, and the first call joins it and returns. -/
def joined : List (Label Unit) := [.loop, .loop, .loop, .loop, .stop 0, .stop 0, .stop 0]

theorem stopping_reachable : (system Unit).Reachable ((system Unit).exec {} stopping) := by
  refine TransitionSystem.Reachable.exec (.init rfl) ⟨⟨rfl, fun _ => rfl⟩, trivial, ?_⟩
  exact ⟨List.mem_singleton_self 1, trivial, trivial, trivial, rfl, rfl, ⟨by decide, by decide,
    by decide⟩, ⟨by decide, by decide, by decide⟩, ⟨by decide, by decide, by decide⟩, trivial,
    trivial⟩

theorem joined_reachable :
    (system Unit).Reachable ((system Unit).exec ((system Unit).exec {} stopping) joined) := by
  refine stopping_reachable.exec ⟨trivial, trivial, trivial, trivial, ?_⟩
  exact ⟨⟨by decide, by decide, by decide⟩, ⟨by decide, by decide, by decide⟩,
    ⟨by decide, by decide, by decide⟩, trivial⟩

/-- What `stop` guarantees at every instant. -/
structure StopSafe (s : WheelThread κ) : Prop where
  /-- When a call has returned, the thread is gone, -/
  gone : s.stopped = true → s.thread.joinable = false
  /-- and at most one callback was called since `running_` was cleared. -/
  late_le : s.late ≤ 1
  /-- The thread is joined by one call at a time, and only while it can be joined. -/
  oneJoin {i j : Nat} : s.stops i = .joining → s.stops j = .joining → i = j
  joinable {i : Nat} : s.stops i = .joining → s.thread.joinable = true

theorem stopSafe_of_reachable (h : (system κ).Reachable s) : s.StopSafe := by
  have hinv := inv_of_reachable h
  exact
    { gone := fun hs => (hinv.stopped hs).1
      late_le := hinv.late_le
      oneJoin := fun hi hj => hinv.eq_of_holds (by rw [hi]; rfl) (by rw [hj]; rfl)
      joinable := fun hi => hinv.joining _ hi }

/-- The callback that was under way is the late one, and it is not yet over. -/
theorem stopSafe_stopping :
    ((system Unit).exec {} stopping).late = 1 ∧ ((system Unit).exec {} stopping).StopSafe :=
  ⟨rfl, stopSafe_of_reachable stopping_reachable⟩

/-- Without a thread, only `start` can bring a callback about. -/
theorem gone_next {l : Label κ} (hgone : s.thread.joinable = false) (hl : ∀ i, l ≠ .stop i)
    (hstart : l ≠ .start) :
    (s.next l).thread.joinable = false ∧ (s.next l).timers.fired = s.timers.fired := by
  cases l with
  | start => exact absurd rfl hstart
  | stop i => exact absurd rfl (hl i)
  | loop =>
      cases hthread : s.thread with
      | absent =>
          simp only [next, loop, hthread]
          exact ⟨rfl, trivial⟩
      | _ =>
          rw [hthread] at hgone
          cases hgone
  | _ => exact ⟨hgone, rfl⟩

theorem gone_stop (i : Nat) (hgone : s.thread.joinable = false) :
    (s.stop i).thread.joinable = false ∧ (s.stop i).timers.fired = s.timers.fired := by
  rw [stop]
  split <;> first | exact ⟨rfl, rfl⟩ | exact ⟨hgone, rfl⟩

/-- After `stop` has returned, no callback is in progress and none is called until the next
start, whatever else is called. -/
theorem stop_barrier (h : (system κ).Reachable s) (hstopped : s.stopped = true)
    {labels : List (Label κ)} (hstart : Label.start ∉ labels) :
    ((system κ).exec s labels).thread.joinable = false ∧
      ((system κ).exec s labels).timers.fired = s.timers.fired := by
  have hgone : s.thread.joinable = false := ((inv_of_reachable h).stopped hstopped).1
  clear h hstopped
  induction labels generalizing s with
  | nil => exact ⟨hgone, rfl⟩
  | cons l rest ih =>
      obtain ⟨hl, hrest⟩ := List.ne_and_not_mem_of_not_mem_cons hstart
      have hstep : (s.next l).thread.joinable = false ∧
          (s.next l).timers.fired = s.timers.fired := by
        by_cases hstop : ∃ i, l = .stop i
        · obtain ⟨i, rfl⟩ := hstop
          exact gone_stop i hgone
        · exact gone_next hgone (fun i hi => hstop ⟨i, hi⟩) hl.symm
      obtain ⟨hthread, hfired⟩ := ih hrest hstep.1
      exact ⟨hthread, hfired.trans hstep.2⟩

/-- The second call goes on, and timers are added, after the first call has returned. -/
theorem stop_barrier_joined :
    let s := (system Unit).exec ((system Unit).exec {} stopping) joined
    let labels : List (Label Unit) :=
      [.stop 1, .stop 1, .stop 1, .allocate, .insert 2 10 true (), .loop]
    ((system Unit).exec s labels).thread.joinable = false ∧
      ((system Unit).exec s labels).timers.fired = s.timers.fired :=
  stop_barrier joined_reachable rfl (by simp)

/-! ### Every call of `stop` can return -/

/-- The steps of the thread and of the calls of `stop` that are in progress. -/
def Own : Label κ → Prop
  | .loop => True
  | .stop _ => True
  | _ => False

/-- The runs in which nobody makes a call. -/
def own (κ : Type*) : TransitionSystem (WheelThread κ) (Label κ) :=
  (system κ).restrict fun _ l => Own l

/-- The thread no longer runs. -/
def Over (s : WheelThread κ) : Prop := s.thread.joinable = false ∨ s.thread.hasExited = true

/-- How many steps the thread may take after `running_` was cleared. -/
def stepsLeft : WheelLoop κ → Nat
  | .absent => 0
  | .exited => 0
  | .check => 1
  | .due => 2
  | .sleeping => 3
  | .reinserting _ => 3
  | .testing _ => 4
  | .inCallback _ => 5
  | .calling _ _ => 6

theorem loop_stepsLeft (hrunning : s.running = false) (hover : ¬s.Over) :
    stepsLeft s.loop.thread < stepsLeft s.thread := by
  cases hthread : s.thread with
  | absent => exact absurd (.inl (by rw [hthread]; rfl)) hover
  | exited => exact absurd (.inr (by rw [hthread]; rfl)) hover
  | due =>
      simp only [loop, hthread]
      split
      · exact Nat.lt_succ_self 1
      · simp [hrunning, stepsLeft]
  | _ => simp [loop, hthread, hrunning, stepsLeft]

theorem loop_kept (s : WheelThread κ) : s.loop.running = s.running ∧ s.loop.stops = s.stops ∧
    s.loop.stopMutex = s.stopMutex := by
  rw [loop]
  split
  case h_4 => split
              · exact ⟨rfl, rfl, rfl⟩
              · split <;> exact ⟨rfl, rfl, rfl⟩
  case h_7 => split <;> exact ⟨rfl, rfl, rfl⟩
  all_goals exact ⟨rfl, rfl, rfl⟩

/-- The thread leaves `loop` once `running_` is cleared. -/
theorem leads_over (hrunning : s.running = false) : ∃ t, (own κ).Leads s t ∧ t.Over ∧
    t.running = false ∧ t.stops = s.stops ∧ t.stopMutex = s.stopMutex := by
  induction hleft : stepsLeft s.thread using Nat.strong_induction_on generalizing s with
  | h n ih =>
      by_cases hover : s.Over
      · exact ⟨s, .refl s, hover, hrunning, rfl, rfl⟩
      · obtain ⟨hkept, hstops, hmutex⟩ := loop_kept s
        obtain ⟨t, hleads, hover', hrunning', hstops', hmutex'⟩ :=
          ih _ (hleft ▸ loop_stepsLeft hrunning hover) (hkept.trans hrunning) rfl
        exact ⟨t, .head (l := .loop) ⟨trivial, trivial⟩ hleads, hover', hrunning',
          hstops'.trans hstops, hmutex'.trans hmutex⟩

/-- A call of `stop` takes its next step. -/
theorem leads_stop (henabled : s.Enabled (.stop i)) : (own κ).Leads s (s.stop i) :=
  .head (l := .stop i) ⟨henabled, trivial⟩ (.refl _)

/-- The call that holds `stopMutex_` returns when the thread no longer runs. -/
theorem leads_released (h : Inv s) (hholds : (s.stops i).holds = true) (hover : s.Over) :
    ∃ t, (own κ).Leads s t ∧ t.stops = Function.update s.stops i .idle ∧ t.stopMutex = none ∧
      t.Over := by
  have hunlock : ∀ u : WheelThread κ, u.stops i = .unlocking → u.Over →
      ∃ t, (own κ).Leads u t ∧ t.stops = Function.update u.stops i .idle ∧ t.stopMutex = none ∧
        t.Over := by
    intro u hu huover
    have hstep : u.stop i = { u.setStop i .idle with stopMutex := none, stopped := true } := by
      simp only [stop, hu]
    refine ⟨_, leads_stop ⟨by rw [hu]; rintro ⟨⟩, by rw [hu]; rintro ⟨⟩, by rw [hu]; rintro ⟨⟩⟩, ?_⟩
    rw [hstep]
    exact ⟨rfl, rfl, huover⟩
  have hjoin : ∀ u : WheelThread κ, u.stops i = .joining → u.thread.hasExited = true →
      ∃ t, (own κ).Leads u t ∧ t.stops = Function.update u.stops i .idle ∧ t.stopMutex = none ∧
        t.Over := by
    intro u hu hexited
    have hstep : u.stop i = { u.setStop i .unlocking with thread := .absent } := by
      simp only [stop, hu]
    obtain ⟨t, hleads, hstops, hdone⟩ := hunlock (u.stop i)
      (by rw [hstep]; exact setStop_stops u i _) (.inl (by rw [hstep]; rfl))
    refine ⟨t, (leads_stop ⟨by rw [hu]; rintro ⟨⟩, by rw [hu]; rintro ⟨⟩,
      fun _ => hexited⟩).trans hleads, hstops.trans ?_, hdone⟩
    rw [hstep]
    exact Function.update_idem ..
  cases hstop : s.stops i with
  | idle => rw [hstop] at hholds; cases hholds
  | clearing => rw [hstop] at hholds; cases hholds
  | locking => rw [hstop] at hholds; cases hholds
  | unlocking => exact hunlock s hstop hover
  | joining =>
      have hjoinable := h.joining i hstop
      exact hjoin s hstop (hover.resolve_left (by rw [hjoinable]; exact Bool.noConfusion))
  | holding =>
      have hstep : s.stop i =
          s.setStop i (if s.thread.joinable then .joining else .unlocking) := by
        simp only [stop, hstop]
      have hleads : (own κ).Leads s (s.stop i) := leads_stop
        ⟨by rw [hstop]; rintro ⟨⟩, by rw [hstop]; rintro ⟨⟩, by rw [hstop]; rintro ⟨⟩⟩
      have hidem : Function.update (s.stop i).stops i .idle =
          Function.update s.stops i .idle := by
        rw [hstep]
        exact Function.update_idem ..
      by_cases hjoinable : s.thread.joinable = true
      · rw [if_pos hjoinable] at hstep
        obtain ⟨t, hrest, hstops, hdone⟩ := hjoin (s.stop i)
          (by rw [hstep]; exact setStop_stops s i _)
          (by rw [hstep]; exact hover.resolve_left (by rw [hjoinable]; exact Bool.noConfusion))
        exact ⟨t, hleads.trans hrest, hstops.trans hidem, hdone⟩
      · rw [if_neg hjoinable] at hstep
        obtain ⟨t, hrest, hstops, hdone⟩ := hunlock (s.stop i)
          (by rw [hstep]; exact setStop_stops s i _) (by rw [hstep]; exact hover)
        exact ⟨t, hleads.trans hrest, hstops.trans hidem, hdone⟩

/-- The thread leaves `loop`, the call that holds `stopMutex_` returns, and so does this one. -/
theorem leads_returned (h : (system κ).Reachable s) (hcleared : (s.stops i).cleared = true) :
    ∃ t, (own κ).Leads s t ∧ t.stops i = .idle := by
  have hinv := inv_of_reachable h
  obtain ⟨t, hleads, hover, -, hstops, hmutex⟩ := leads_over (hinv.cleared i hcleared)
  have ht : Inv t := inv_of_reachable (h.leads hleads.of_restrict)
  by_cases hholds : (s.stops i).holds = true
  · obtain ⟨u, hrest, hdone, -⟩ := leads_released ht (hstops ▸ hholds) hover
    exact ⟨u, hleads.trans hrest, by rw [hdone, Function.update_self]⟩
  · have hlocking : s.stops i = .locking := by
      cases hstop : s.stops i with
      | locking => rfl
      | idle => rw [hstop] at hcleared; cases hcleared
      | clearing => rw [hstop] at hcleared; cases hcleared
      | _ => exact absurd (by rw [hstop]; rfl) hholds
    -- whoever holds the mutex returns first
    have hfree : ∃ u, (own κ).Leads t u ∧ u.stops i = .locking ∧ u.stopMutex = none ∧ u.Over := by
      cases hholder : t.stopMutex with
      | none => exact ⟨t, .refl t, hstops ▸ hlocking, hholder, hover⟩
      | some j =>
          have hj := (ht.holder j).mpr hholder
          have hne : i ≠ j := by
            rintro rfl
            rw [hstops] at hj
            exact hholds hj
          obtain ⟨u, hrest, hdone, hnone, hover'⟩ := leads_released ht hj hover
          refine ⟨u, hrest, ?_, hnone, hover'⟩
          rw [hdone, Function.update_of_ne hne, hstops]
          exact hlocking
    obtain ⟨u, hrest, hu, hnone, hover'⟩ := hfree
    have hstep : u.stop i = { u.setStop i .holding with stopMutex := some i } := by
      simp only [stop, hu]
    have hlock : (own κ).Leads u (u.stop i) := leads_stop
      ⟨by rw [hu]; rintro ⟨⟩, fun _ => hnone, by rw [hu]; rintro ⟨⟩⟩
    have hreach : (system κ).Reachable (u.stop i) :=
      h.leads ((hleads.trans hrest).trans hlock).of_restrict
    have hplace : (u.stop i).stops i = .holding := by
      rw [hstep]
      exact setStop_stops u i _
    obtain ⟨v, hend, hdone, -⟩ := leads_released (i := i) (inv_of_reachable hreach)
      (by rw [hplace]; rfl) (by rw [hstep]; exact hover')
    exact ⟨v, ((hleads.trans hrest).trans hlock).trans hend, by rw [hdone, Function.update_self]⟩

/-- No deadlock: from every state in which a call of `stop` is in progress, the steps of the
thread and of the calls in progress can take it to its end. -/
theorem stop_returns (h : (system κ).Reachable s) (hbusy : s.stops i ≠ .idle) :
    ∃ t, (own κ).Leads s t ∧ t.stops i = .idle := by
  by_cases hclearing : s.stops i = .clearing
  · have hleads : (own κ).Leads s (s.stop i) := leads_stop
      ⟨hbusy, by rw [hclearing]; rintro ⟨⟩, by rw [hclearing]; rintro ⟨⟩⟩
    have hplace : (s.stop i).stops i = .locking := by
      simp only [stop, hclearing]
      exact setStop_stops s i _
    obtain ⟨t, hrest, hidle⟩ := leads_returned (i := i) (h.leads hleads.of_restrict)
      (by rw [hplace]; rfl)
    exact ⟨t, hleads.trans hrest, hidle⟩
  · refine leads_returned h ?_
    cases hstop : s.stops i with
    | idle => exact absurd hstop hbusy
    | clearing => exact absurd hstop hclearing
    | _ => rfl

/-- Both calls return, also the one that waits for the mutex. -/
theorem stop_returns_stopping :
    ∃ t, (own Unit).Leads ((system Unit).exec {} stopping) t ∧ t.stops 1 = .idle :=
  stop_returns stopping_reachable (by decide)

end WheelThread

end EmbedMq

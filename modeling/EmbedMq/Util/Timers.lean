import EmbedMq.Foundation.Transition
import EmbedMq.Util.TimerWheel
import Mathlib.Data.List.Basic

/-!
# Timers under concurrent calls

Callers add and cancel timers at any time, also from inside a callback. Handing out an id and
putting the timer into its slot are two steps, and a tick is one critical section that takes the due
timers out, followed for each of them by the callback and a critical section that may put it back.

What happened is recorded beside the wheel: how a timer was added, which callbacks ran and which
ids were cancelled. The invariant says of every id where its timer is. Whatever the threads do, a
timer runs at the ticks of its own schedule.
-/

namespace EmbedMq

variable {κ : Type*}

/-- How a timer was added. -/
structure Birth (κ : Type*) where
  tick : Nat
  delayMs : UInt32
  periodic : Bool
  cb : κ

namespace Birth

def intervalMs (b : Birth κ) : UInt32 := if b.periodic then b.delayMs else 0

def Repeats (b : Birth κ) : Prop := 0 < b.intervalMs

instance (b : Birth κ) : Decidable b.Repeats := inferInstanceAs (Decidable (0 < b.intervalMs))

/-- The tick of the firing with number `k`, counted from zero. -/
def due (b : Birth κ) (k : Nat) : Nat := b.tick + (k + 1) * TimerWheel.ticks b.delayMs

/-- The ticks of the first `k` firings. -/
def times (b : Birth κ) (k : Nat) : List Nat := (List.range k).map b.due

/-- How many firings there are up to a tick. -/
def count (b : Birth κ) (now : Nat) : Nat :=
  let passed := (now - b.tick) / TimerWheel.ticks b.delayMs
  if b.Repeats then passed else min 1 passed

/-- The ticks up to `now` at which the timer has to run. -/
def schedule (b : Birth κ) (now : Nat) : List Nat := b.times (b.count now)

/-- The timer with its firing number `k` ahead. -/
def timer (b : Birth κ) (id k : Nat) : Timer κ := ⟨id, b.intervalMs, b.due k, b.cb⟩

theorem intervalMs_eq {b : Birth κ} (h : b.Repeats) : b.intervalMs = b.delayMs := by
  rw [Repeats, intervalMs] at h
  rw [intervalMs]
  split at h
  · rename_i hperiodic
    rw [if_pos hperiodic]
  · exact absurd h (by decide)

theorem due_succ (b : Birth κ) (k : Nat) :
    b.due (k + 1) = b.due k + TimerWheel.ticks b.delayMs := by
  rw [due, due, Nat.succ_mul (k + 1), Nat.add_assoc]

theorem times_succ (b : Birth κ) (k : Nat) : b.times (k + 1) = b.times k ++ [b.due k] := by
  rw [times, List.range_succ, List.map_append]
  rfl

theorem due_mono (b : Birth κ) {j k : Nat} (h : j ≤ k) : b.due j ≤ b.due k :=
  Nat.add_le_add_left (Nat.mul_le_mul_right _ (Nat.succ_le_succ h)) _

/-- A firing is in the schedule if it is one of the timer's and its tick has come. -/
theorem lt_count_iff (b : Birth κ) {k now : Nat} :
    k < b.count now ↔ b.due k ≤ now ∧ (b.Repeats ∨ k = 0) := by
  have hpassed : b.due k ≤ now ↔ k < (now - b.tick) / TimerWheel.ticks b.delayMs := by
    rw [due, ← Nat.add_one_le_iff, Nat.le_div_iff_mul_le (TimerWheel.ticks_pos b.delayMs)]
    have hpos : 0 < (k + 1) * TimerWheel.ticks b.delayMs :=
      Nat.mul_pos (Nat.succ_pos k) (TimerWheel.ticks_pos b.delayMs)
    omega
  rw [count, hpassed]
  split
  · rename_i hrepeats
    exact ⟨fun h => ⟨h, .inl hrepeats⟩, fun h => h.1⟩
  · rename_i hrepeats
    rw [or_iff_right hrepeats]
    omega

theorem times_isPrefix (b : Birth κ) {j k : Nat} (h : j ≤ k) : b.times j <+: b.times k := by
  obtain ⟨n, rfl⟩ := Nat.exists_eq_add_of_le h
  rw [times, times, List.range_add, List.map_append]
  exact List.prefix_append _ _

/-- The first firings are the start of the schedule if their ticks have come. -/
theorem times_isPrefix_schedule (b : Birth κ) {k now : Nat}
    (hdue : ∀ j < k, b.due j ≤ now ∧ (b.Repeats ∨ j = 0)) : b.times k <+: b.schedule now := by
  refine b.times_isPrefix (Nat.le_of_not_lt fun hlt => ?_)
  exact absurd (b.lt_count_iff.mpr (hdue _ hlt)) (Nat.lt_irrefl _)

/-- They are all of it if the next one does not follow or is still ahead. -/
theorem times_eq_schedule (b : Birth κ) {k now : Nat}
    (hdue : ∀ j < k, b.due j ≤ now ∧ (b.Repeats ∨ j = 0))
    (hnext : now < b.due k ∨ ¬b.Repeats ∧ k ≠ 0) : b.times k = b.schedule now := by
  have hle : b.count now ≤ k := by
    refine Nat.le_of_not_lt fun hlt => ?_
    obtain ⟨hnow, hrepeats⟩ := b.lt_count_iff.mp hlt
    obtain hahead | ⟨hnot, hne⟩ := hnext
    · omega
    · exact hrepeats.elim hnot hne
  exact (b.times_isPrefix_schedule hdue).eq_of_length_le (by
    rw [schedule, times, times, List.length_map, List.length_map, List.length_range,
      List.length_range]
    exact hle)

end Birth

structure Firing (κ : Type*) where
  id : Nat
  cb : κ
  tick : Nat

structure Timers (κ : Type*) where
  wheel : TimerWheel κ := {}
  /-- Ids that were handed out to timers not yet in a slot. -/
  allocated : Finset Nat := ∅
  /-- What is left of the local `due` of the tick in progress. -/
  left : List (Timer κ) := []
  /-- The timer whose callback was started last and that may have to go back. -/
  ran : Option (Timer κ) := none
  births : Nat → Option (Birth κ) := fun _ => none
  fired : List (Firing κ) := []
  cancelled : Finset Nat := ∅

namespace Timers

inductive Label (κ : Type*) where
  | allocate
  | insert (id : Nat) (delayMs : UInt32) (periodic : Bool) (cb : κ)
  | cancel (id : Nat)
  | tick
  | run
  | reinsert

def allocate (s : Timers κ) : Timers κ :=
  { s with
    wheel := { s.wheel with nextId := s.wheel.nextId + 1 }
    allocated := insert s.wheel.nextId s.allocated }

/-- The locked part of `addOnce` or `addPeriodic`. -/
def add (s : Timers κ) (id : Nat) (delayMs : UInt32) (periodic : Bool) (cb : κ) : Timers κ :=
  let b : Birth κ := ⟨s.wheel.curTick, delayMs, periodic, cb⟩
  { s with
    wheel := s.wheel.addTimerLocked id delayMs b.intervalMs cb
    allocated := s.allocated.erase id
    births := Function.update s.births id (some b) }

def cancel (s : Timers κ) (id : Nat) : Timers κ :=
  { s with wheel := s.wheel.cancel id, cancelled := insert id s.cancelled }

def tick (s : Timers κ) : Timers κ :=
  { s with wheel := s.wheel.advance, left := s.wheel.extraction.due }

/-- The callback of `t`, with `rest` to follow. -/
def fire (s : Timers κ) (t : Timer κ) (rest : List (Timer κ)) : Timers κ :=
  { s with left := rest, ran := some t, fired := s.fired ++ [⟨t.id, t.cb, s.wheel.curTick⟩] }

def settle (s : Timers κ) (t : Timer κ) : Timers κ :=
  { s with wheel := s.wheel.reinsert t, ran := none }

/-- No tick is in progress. -/
def Idle (s : Timers κ) : Prop := s.left = [] ∧ s.ran = none

instance (s : Timers κ) : Decidable s.Idle :=
  inferInstanceAs (Decidable (s.left = [] ∧ s.ran = none))

def next (s : Timers κ) : Label κ → Timers κ
  | .allocate => s.allocate
  | .insert id delayMs periodic cb => s.add id delayMs periodic cb
  | .cancel id => s.cancel id
  | .tick => s.tick
  | .run =>
      match s.left with
      | t :: rest => s.fire t rest
      | [] => s
  | .reinsert =>
      match s.ran with
      | some t => s.settle t
      | none => s

def enabled (s : Timers κ) : Label κ → Prop
  | .allocate => True
  | .insert id _ _ _ => id ∈ s.allocated
  | .cancel _ => True
  | .tick => s.Idle
  | .run => s.left ≠ [] ∧ s.ran = none
  | .reinsert => s.ran ≠ none

instance (s : Timers κ) : DecidablePred s.enabled
  | .allocate => isTrue trivial
  | .insert id _ _ _ => inferInstanceAs (Decidable (id ∈ s.allocated))
  | .cancel _ => isTrue trivial
  | .tick => inferInstanceAs (Decidable s.Idle)
  | .run => inferInstanceAs (Decidable (s.left ≠ [] ∧ s.ran = none))
  | .reinsert => inferInstanceAs (Decidable (s.ran ≠ none))

def system (κ : Type*) : TransitionSystem (Timers κ) (Label κ) where
  init s := s = {}
  enabled := enabled
  next := next

instance (s : Timers κ) (l : Label κ) : Decidable ((system κ).enabled s l) :=
  inferInstanceAs (Decidable (s.enabled l))

/-- What a step that may be taken does. -/
inductive Step (s : Timers κ) : Label κ → Timers κ → Prop where
  | allocate : Step s .allocate s.allocate
  | insert {id : Nat} (h : id ∈ s.allocated) (delayMs : UInt32) (periodic : Bool) (cb : κ) :
      Step s (.insert id delayMs periodic cb) (s.add id delayMs periodic cb)
  | cancel (id : Nat) : Step s (.cancel id) (s.cancel id)
  | tick (h : s.Idle) : Step s .tick s.tick
  | run {t : Timer κ} {rest : List (Timer κ)} (hleft : s.left = t :: rest) (hran : s.ran = none) :
      Step s .run (s.fire t rest)
  | reinsert {t : Timer κ} (hran : s.ran = some t) : Step s .reinsert (s.settle t)

theorem step_next {s : Timers κ} {l : Label κ} (h : s.enabled l) : s.Step l (s.next l) := by
  cases l with
  | allocate => exact .allocate
  | insert id delayMs periodic cb => exact .insert h delayMs periodic cb
  | cancel id => exact .cancel id
  | tick => exact .tick h
  | run =>
      obtain ⟨t, rest, hleft⟩ := List.exists_cons_of_ne_nil h.1
      simp only [next, hleft]
      exact .run hleft h.2
  | reinsert =>
      obtain ⟨t, hran⟩ := Option.ne_none_iff_exists'.mp h
      simp only [next, hran]
      exact .reinsert hran

/-- The ticks at which the callback of `id` has run. -/
def runs (s : Timers κ) (id : Nat) : List Nat :=
  (s.fired.filter fun f => f.id = id).map Firing.tick

theorem runs_fire (s : Timers κ) (t : Timer κ) (rest : List (Timer κ)) (id : Nat) :
    (s.fire t rest).runs id = if t.id = id then s.runs id ++ [s.wheel.curTick] else s.runs id := by
  rw [runs, fire, List.filter_append, List.map_append]
  split
  · rename_i heq
    rw [List.filter_cons_of_pos (by simpa using heq)]
    rfl
  · rename_i hne
    rw [List.filter_cons_of_neg (by simpa using hne)]
    exact List.append_nil _

end Timers

end EmbedMq

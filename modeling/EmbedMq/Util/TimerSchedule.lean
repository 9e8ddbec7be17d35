import EmbedMq.Util.TimerPlaces

/-!
# Timers run on schedule

Between two ticks a timer that was not cancelled has run at the ticks of its schedule and at no
others, however many turns of the wheel they are apart. A cancelled timer does not run again, unless
the tick in progress had taken it out before. The delay itself is kept as long as rounding it up
does not wrap.
-/

namespace EmbedMq

variable {κ : Type*}

namespace Timers

open TimerWheel (slot exactTicks)

variable {s : Timers κ} {place : Nat → Place κ} {id : Nat} {b : Birth κ}

/-! ### The callbacks that ran -/

/-- A timer has had its first firings. The next one is ahead, or the tick in progress has the timer,
or it was cancelled, or it fires once. -/
theorem Placed.record (h : Placed s place) (hbirth : s.births id = some b) :
    ∃ k, s.HasRun id b k ∧
      (s.wheel.curTick < b.due k ∨ (∃ t, place t.id = .due t ∨ place t.id = .ran t) ∨
        id ∈ s.cancelled ∨ ¬b.Repeats ∧ k ≠ 0) := by
  have hstatus := h.status id
  cases hplace : place id with
  | unborn =>
      rw [hplace] at hstatus
      exact absurd (hbirth.symm.trans hstatus.1) (Option.some_ne_none b)
  | allocated =>
      rw [hplace] at hstatus
      exact absurd (hbirth.symm.trans hstatus.1) (Option.some_ne_none b)
  | stored t =>
      rw [hplace] at hstatus
      obtain ⟨b', k, hexpects, hrun, hahead⟩ := hstatus
      obtain rfl := Option.some.inj (hexpects.birth.symm.trans hbirth)
      exact ⟨k, hrun, .inl (hexpects.fireTick_eq ▸ hahead)⟩
  | due t =>
      rw [hplace] at hstatus
      obtain ⟨b', k, hexpects, hrun, -⟩ := hstatus
      obtain rfl := Option.some.inj (hexpects.birth.symm.trans hbirth)
      exact ⟨k, hrun, .inr (.inl ⟨t, .inl (hexpects.id_eq ▸ hplace)⟩)⟩
  | ran t =>
      rw [hplace] at hstatus
      obtain ⟨b', k, hexpects, hrun, -⟩ := hstatus
      obtain rfl := Option.some.inj (hexpects.birth.symm.trans hbirth)
      exact ⟨k + 1, hrun, .inr (.inl ⟨t, .inr (hexpects.id_eq ▸ hplace)⟩)⟩
  | ended =>
      rw [hplace] at hstatus
      obtain ⟨b', k, hbirth', hrun, hend⟩ := hstatus
      obtain rfl := Option.some.inj (hbirth'.symm.trans hbirth)
      exact ⟨k, hrun, .inr (.inr hend)⟩

theorem runs_prefix_schedule (h : (system κ).Reachable s) (hbirth : s.births id = some b) :
    s.runs id <+: b.schedule s.wheel.curTick := by
  obtain ⟨place, hplaced⟩ := exists_placed h
  obtain ⟨k, hrun, -⟩ := hplaced.record hbirth
  rw [hrun.runs]
  exact b.times_isPrefix_schedule hrun.past

/-- Between two ticks a timer that was not cancelled has had all its firings. -/
theorem runs_eq_schedule (h : (system κ).Reachable s) (hidle : s.Idle)
    (hbirth : s.births id = some b) (hcancelled : id ∉ s.cancelled) :
    s.runs id = b.schedule s.wheel.curTick := by
  obtain ⟨place, hplaced⟩ := exists_placed h
  obtain ⟨k, hrun, hahead | ⟨t, hdue | hran⟩ | hend⟩ := hplaced.record hbirth
  · rw [hrun.runs]
    exact b.times_eq_schedule hrun.past (.inl hahead)
  · exact absurd hdue (hplaced.not_due hidle t)
  · exact absurd hran (hplaced.not_ran hidle t)
  · rw [hrun.runs]
    exact b.times_eq_schedule hrun.past (.inr (hend.resolve_left hcancelled))

/-- Every callback that ran is the one that its timer was added with. -/
def CallbacksKept (s : Timers κ) : Prop :=
  ∀ f ∈ s.fired, ∃ b, s.births f.id = some b ∧ f.cb = b.cb

theorem CallbacksKept.step (h : s.CallbacksKept) (hplaced : Placed s place) {l : Label κ}
    {s' : Timers κ} (hstep : s.Step l s') : s'.CallbacksKept := by
  cases hstep with
  | allocate => exact h
  | @insert id hid delayMs periodic cb =>
      intro f hf
      obtain ⟨b, hbirth, hcb⟩ := h f hf
      have hstatus := hplaced.status id
      rw [(hplaced.allocated id).mp hid] at hstatus
      have hne : f.id ≠ id := by
        rintro rfl
        exact absurd (hbirth.symm.trans hstatus.1) (Option.some_ne_none b)
      exact ⟨b, (Function.update_of_ne hne ..).trans hbirth, hcb⟩
  | cancel id => exact h
  | tick hidle => exact h
  | @run t rest hleft hran =>
      intro f hf
      obtain hold | hnew := List.mem_append.mp hf
      · exact h f hold
      · obtain rfl := List.mem_singleton.mp hnew
        have hstatus := hplaced.status t.id
        rw [(hplaced.left t).mp (hleft ▸ List.mem_cons_self)] at hstatus
        obtain ⟨b, k, hexpects, -⟩ := hstatus
        exact ⟨b, hexpects.birth, congrArg Timer.cb hexpects.timer⟩
  | reinsert hran => exact h

theorem callbacksKept_of_reachable (h : (system κ).Reachable s) : s.CallbacksKept := by
  induction h with
  | init hinit =>
      obtain rfl := hinit
      exact fun f hf => absurd hf List.not_mem_nil
  | step hreach henabled ih =>
      obtain ⟨place, hplaced⟩ := exists_placed hreach
      exact ih.step hplaced (step_next henabled)

/-! ### Cancelled timers -/

/-- The timer is cancelled and the tick in progress will not run it. -/
def Stopped (s : Timers κ) (id : Nat) : Prop := id ∈ s.cancelled ∧ ∀ t ∈ s.left, t.id ≠ id

theorem Stopped.step (hstopped : s.Stopped id) (hplaced : Placed s place) {l : Label κ}
    {s' : Timers κ} (hstep : s.Step l s') : s'.Stopped id ∧ s'.runs id = s.runs id := by
  obtain ⟨hcancelled, hleft⟩ := hstopped
  cases hstep with
  | allocate => exact ⟨⟨hcancelled, hleft⟩, rfl⟩
  | insert hid delayMs periodic cb => exact ⟨⟨hcancelled, hleft⟩, rfl⟩
  | cancel other => exact ⟨⟨Finset.mem_insert_of_mem hcancelled, hleft⟩, rfl⟩
  | tick hidle =>
      refine ⟨⟨hcancelled, ?_⟩, rfl⟩
      rintro t hmem rfl
      obtain ⟨hstored, -, hnot⟩ :=
        (TimerWheel.mem_extract_due (hplaced.slots_nodup _)).mp hmem
      have hplace := ((hplaced.stored _ t).mp hstored).1
      obtain hended | hnoted := hplaced.noted t.id hcancelled
      · rw [hplace] at hended
        cases hended
      · exact hnot hnoted
  | @run t rest hcons hran =>
      rw [hcons] at hleft
      refine ⟨⟨hcancelled, fun u hu => hleft u (List.mem_cons_of_mem t hu)⟩, ?_⟩
      exact (runs_fire ..).trans (if_neg (hleft t List.mem_cons_self))
  | reinsert hran => exact ⟨⟨hcancelled, hleft⟩, rfl⟩

/-- Nothing runs the timer again. -/
theorem Stopped.exec (h : (system κ).Reachable s) (hstopped : s.Stopped id)
    {labels : List (Label κ)} (hadmits : (system κ).Admits s labels) :
    ((system κ).exec s labels).runs id = s.runs id := by
  induction labels generalizing s with
  | nil => rfl
  | cons l rest ih =>
      obtain ⟨henabled, hrest⟩ := hadmits
      obtain ⟨place, hplaced⟩ := exists_placed h
      obtain ⟨hnext, hruns⟩ := hstopped.step hplaced (step_next henabled)
      exact (ih (h.step henabled) hnext hrest).trans hruns

/-- While the tick in progress still has the timer to run, the step is not a tick. -/
theorem Step.of_waiting {t : Timer κ} {l : Label κ} {s' : Timers κ} (hstep : s.Step l s')
    (hplaced : Placed s place) (hmem : t ∈ s.left) (hcancelled : t.id ∈ s.cancelled) :
    s'.wheel.curTick = s.wheel.curTick ∧
      ((t ∈ s'.left ∧ t.id ∈ s'.cancelled ∧ s'.runs t.id = s.runs t.id) ∨
        s'.Stopped t.id ∧ s'.runs t.id = s.runs t.id ++ [s.wheel.curTick]) := by
  cases hstep with
  | allocate => exact ⟨rfl, .inl ⟨hmem, hcancelled, rfl⟩⟩
  | insert hid delayMs periodic cb => exact ⟨rfl, .inl ⟨hmem, hcancelled, rfl⟩⟩
  | cancel other => exact ⟨rfl, .inl ⟨hmem, Finset.mem_insert_of_mem hcancelled, rfl⟩⟩
  | tick hidle =>
      rw [hidle.1] at hmem
      cases hmem
  | @run u rest hleft hran =>
      have hnodup := hplaced.left_nodup
      rw [hleft] at hmem hnodup
      obtain ⟨hhead, -⟩ := List.nodup_cons.mp hnodup
      refine ⟨rfl, ?_⟩
      obtain rfl | hrest := List.mem_cons.mp hmem
      · refine .inr ⟨⟨hcancelled, fun v hv heq => ?_⟩, (runs_fire ..).trans (if_pos rfl)⟩
        exact hhead (heq ▸ List.mem_map_of_mem hv)
      · have hne : u.id ≠ t.id := fun heq => hhead (heq ▸ List.mem_map_of_mem hrest)
        exact .inl ⟨hrest, hcancelled, (runs_fire ..).trans (if_neg hne)⟩
  | @reinsert u hran =>
      refine ⟨?_, .inl ⟨hmem, hcancelled, rfl⟩⟩
      rw [settle, TimerWheel.reinsert]
      split <;> rfl

/-- A cancelled timer runs at most once more, and only in the tick in progress. -/
theorem runs_exec_of_cancelled (h : (system κ).Reachable s) (hcancelled : id ∈ s.cancelled)
    {labels : List (Label κ)} (hadmits : (system κ).Admits s labels) :
    ((system κ).exec s labels).runs id = s.runs id ∨
      ((system κ).exec s labels).runs id = s.runs id ++ [s.wheel.curTick] := by
  induction labels generalizing s with
  | nil => exact .inl rfl
  | cons l rest ih =>
      by_cases hwaiting : ∃ t ∈ s.left, t.id = id
      · obtain ⟨t, hmem, rfl⟩ := hwaiting
        obtain ⟨henabled, hrest⟩ := hadmits
        obtain ⟨place, hplaced⟩ := exists_placed h
        obtain ⟨htick, ⟨_, hcancelled', hruns⟩ | ⟨hstopped, hruns⟩⟩ :=
          (step_next henabled).of_waiting hplaced hmem hcancelled
        · rw [← hruns, ← htick]
          exact ih (h.step henabled) hcancelled' hrest
        · exact .inr ((hstopped.exec (h.step henabled) hrest).trans hruns)
      · have hstopped : s.Stopped id := ⟨hcancelled, fun t hmem heq => hwaiting ⟨t, hmem, heq⟩⟩
        exact .inl (hstopped.exec h hadmits)

/-! ### The schedule of every run -/

/-- What the wheel promises of a state and of every way to go on from it. -/
structure OnSchedule (s : Timers κ) : Prop where
  stored : ∀ i, ∀ t ∈ s.wheel.slots i, slot t.fireTick = i ∧ s.wheel.curTick < t.fireTick
  callback : ∀ f ∈ s.fired, ∃ b, s.births f.id = some b ∧ f.cb = b.cb
  started : ∀ id b, s.births id = some b → s.runs id <+: b.schedule s.wheel.curTick
  complete : s.Idle → ∀ id b, s.births id = some b → id ∉ s.cancelled →
    s.runs id = b.schedule s.wheel.curTick
  stopped : ∀ id ∈ s.cancelled, (∀ t ∈ s.left, t.id ≠ id) → ∀ labels,
    (system κ).Admits s labels → ((system κ).exec s labels).runs id = s.runs id
  at_most_once_more : ∀ id ∈ s.cancelled, ∀ labels, (system κ).Admits s labels →
    ((system κ).exec s labels).runs id = s.runs id ∨
      ((system κ).exec s labels).runs id = s.runs id ++ [s.wheel.curTick]

theorem onSchedule_of_reachable (h : (system κ).Reachable s) : s.OnSchedule := by
  obtain ⟨place, hplaced⟩ := exists_placed h
  refine ⟨fun i t hmem => ?_, callbacksKept_of_reachable h, fun id b => runs_prefix_schedule h,
    fun hidle id b => runs_eq_schedule h hidle, fun id hcancelled hleft labels hadmits => ?_,
    fun id hcancelled labels => runs_exec_of_cancelled h hcancelled⟩
  · obtain ⟨hplace, hslot⟩ := (hplaced.stored i t).mp hmem
    exact ⟨hslot, hplaced.stored_due hplace⟩
  · exact Stopped.exec h ⟨hcancelled, hleft⟩ hadmits

/-- A timer for every tick, cancelled in its second callback. -/
def twice : List (Label Unit) :=
  [.allocate, .insert 1 10 true (), .tick, .run, .reinsert, .tick, .run, .cancel 1, .reinsert]

theorem onSchedule_twice : ((system Unit).exec {} twice).OnSchedule := by
  have hinit : (system Unit).Reachable {} := .init rfl
  exact onSchedule_of_reachable (hinit.exec (by decide))

/-! ### Delays -/

/-- A timer that is added now is not due, and does not run, before its delay has passed. -/
structure NeverEarly (w : TimerWheel κ) (delayMs : UInt32) : Prop where
  fireTick : w.curTick + exactTicks delayMs ≤ w.fireTick delayMs
  callback : ∀ s : Timers κ, (system κ).Reachable s → ∀ id b, s.births id = some b →
    b.tick = w.curTick → b.delayMs = delayMs →
      ∀ tick ∈ s.runs id, w.curTick + exactTicks delayMs ≤ tick

theorem due_le_of_mem_runs (h : (system κ).Reachable s) (hbirth : s.births id = some b)
    {tick : Nat} (hmem : tick ∈ s.runs id) : b.due 0 ≤ tick := by
  obtain ⟨k, -, rfl⟩ := List.mem_map.mp ((runs_prefix_schedule h hbirth).subset hmem)
  exact b.due_mono (Nat.zero_le k)

theorem neverEarly_iff (w : TimerWheel κ) (delayMs : UInt32) :
    NeverEarly w delayMs ↔ delayMs ≤ 4294967286 := by
  rw [← TimerWheel.exactTicks_le_ticks_iff]
  constructor
  · intro h
    exact Nat.le_of_add_le_add_left h.fireTick
  · intro hticks
    refine ⟨Nat.add_le_add_left hticks _, fun s hreach id b hbirth htick hdelay tick hmem => ?_⟩
    have hdue := due_le_of_mem_runs hreach hbirth hmem
    rw [Birth.due, htick, hdelay, Nat.zero_add, Nat.one_mul] at hdue
    omega

/-- The longest delay of all has passed after one tick. -/
theorem neverEarly_longest : ¬∀ (w : TimerWheel Unit) (delayMs : UInt32), NeverEarly w delayMs := by
  intro hclaim
  exact absurd (hclaim {} 0xFFFFFFFF).fireTick (by decide)

end Timers

end EmbedMq

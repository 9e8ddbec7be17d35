import EmbedMq.Util.Timers

/-!
# Where a timer is

At every moment an id has not been handed out, belongs to a timer that is about to be put into its
slot, stands in a slot, waits for its callback, is running it, or is done with. `Placed` says that a
map from ids to places describes a state, and that the record of an id fits its place. Every step
changes the map at one id, but for the extraction step, which changes it for the ids that are due.
-/

namespace EmbedMq

variable {κ : Type*}

inductive Place (κ : Type*) where
  | unborn
  | allocated
  | stored (t : Timer κ)
  | due (t : Timer κ)
  | ran (t : Timer κ)
  | ended

namespace Place

/-- Where the extraction step of the tick `now` leaves a timer. -/
def extracted (now : Nat) (cancelled : Bool) : Place κ → Place κ
  | .stored t => if now < t.fireTick then .stored t else if cancelled then .ended else .due t
  | p => p

theorem extracted_eq_stored_iff {now : Nat} {cancelled : Bool} {p : Place κ} {t : Timer κ} :
    p.extracted now cancelled = .stored t ↔ p = .stored t ∧ now < t.fireTick := by
  cases p <;> grind [extracted]

theorem extracted_eq_due_iff {now : Nat} {cancelled : Bool} {p : Place κ} {t : Timer κ} :
    p.extracted now cancelled = .due t ↔
      p = .due t ∨ p = .stored t ∧ ¬now < t.fireTick ∧ cancelled = false := by
  cases p <;> grind [extracted]

theorem extracted_eq_ran_iff {now : Nat} {cancelled : Bool} {p : Place κ} {t : Timer κ} :
    p.extracted now cancelled = .ran t ↔ p = .ran t := by
  cases p <;> grind [extracted]

theorem extracted_eq_allocated_iff {now : Nat} {cancelled : Bool} {p : Place κ} :
    p.extracted now cancelled = .allocated ↔ p = .allocated := by
  cases p <;> grind [extracted]

end Place

namespace Timers

open TimerWheel (slot)

/-- The timer of `id` has its firing number `k` ahead or in progress. -/
structure Expects (s : Timers κ) (id : Nat) (b : Birth κ) (k : Nat) (t : Timer κ) : Prop where
  birth : s.births id = some b
  timer : t = b.timer id k
  repeats : b.Repeats ∨ k = 0

/-- The timer has had its first `k` firings, at ticks that have come. -/
structure HasRun (s : Timers κ) (id : Nat) (b : Birth κ) (k : Nat) : Prop where
  runs : s.runs id = b.times k
  past : ∀ j < k, b.due j ≤ s.wheel.curTick ∧ (b.Repeats ∨ j = 0)

/-- The record of an id fits its place. -/
def Status (s : Timers κ) (id : Nat) : Place κ → Prop
  | .unborn => s.births id = none ∧ s.runs id = []
  | .allocated => s.births id = none ∧ s.runs id = []
  | .stored t => ∃ b k, s.Expects id b k t ∧ s.HasRun id b k ∧ s.wheel.curTick < t.fireTick
  | .due t => ∃ b k, s.Expects id b k t ∧ s.HasRun id b k ∧ s.wheel.curTick = t.fireTick
  | .ran t => ∃ b k, s.Expects id b k t ∧ s.HasRun id b (k + 1) ∧ s.wheel.curTick = t.fireTick
  | .ended =>
      ∃ b k, s.births id = some b ∧ s.HasRun id b k ∧ (id ∈ s.cancelled ∨ ¬b.Repeats ∧ k ≠ 0)

structure Placed (s : Timers κ) (place : Nat → Place κ) : Prop where
  stored : ∀ i t, t ∈ s.wheel.slots i ↔ place t.id = .stored t ∧ slot t.fireTick = i
  slots_nodup : ∀ i, ((s.wheel.slots i).map Timer.id).Nodup
  left : ∀ t, t ∈ s.left ↔ place t.id = .due t
  left_nodup : (s.left.map Timer.id).Nodup
  ran : ∀ t, s.ran = some t ↔ place t.id = .ran t
  allocated : ∀ id, id ∈ s.allocated ↔ place id = .allocated
  fresh : ∀ id, s.wheel.nextId ≤ id → place id = .unborn
  noted : ∀ id ∈ s.cancelled, place id = .ended ∨ id ∈ s.wheel.cancelSet
  notes : ∀ id ∈ s.wheel.cancelSet, id ∈ s.cancelled
  status : ∀ id, s.Status id (place id)

theorem Expects.id_eq {s : Timers κ} {id k : Nat} {b : Birth κ} {t : Timer κ}
    (h : s.Expects id b k t) : t.id = id := congrArg Timer.id h.timer

theorem Expects.fireTick_eq {s : Timers κ} {id k : Nat} {b : Birth κ} {t : Timer κ}
    (h : s.Expects id b k t) : t.fireTick = b.due k := congrArg Timer.fireTick h.timer

theorem Expects.frame {s s' : Timers κ} {id k : Nat} {b : Birth κ} {t : Timer κ}
    (h : s.Expects id b k t) (hbirths : s'.births id = s.births id) : s'.Expects id b k t :=
  ⟨hbirths.trans h.birth, h.timer, h.repeats⟩

theorem HasRun.frame {s s' : Timers κ} {id k : Nat} {b : Birth κ} (h : s.HasRun id b k)
    (hruns : s'.runs id = s.runs id) (htick : s.wheel.curTick ≤ s'.wheel.curTick) :
    s'.HasRun id b k :=
  ⟨hruns.trans h.runs, fun j hj => ⟨Nat.le_trans (h.past j hj).1 htick, (h.past j hj).2⟩⟩

/-- One firing more, at the current tick. -/
theorem HasRun.succ {s s' : Timers κ} {id k : Nat} {b : Birth κ} {t : Timer κ}
    (h : s.HasRun id b k) (hexpects : s.Expects id b k t) (htick : s.wheel.curTick = t.fireTick)
    (hruns : s'.runs id = s.runs id ++ [s.wheel.curTick])
    (hnow : s'.wheel.curTick = s.wheel.curTick) : s'.HasRun id b (k + 1) := by
  have hdue : s.wheel.curTick = b.due k := htick.trans hexpects.fireTick_eq
  refine ⟨?_, fun j hj => ?_⟩
  · rw [hruns, h.runs, b.times_succ, hdue]
  · rw [hnow, hdue]
    exact ⟨b.due_mono (Nat.le_of_lt_succ hj), hexpects.repeats.imp_right (by omega)⟩

/-- The record of an id fits its place as long as neither the record nor the tick changes. -/
theorem Status.frame {s s' : Timers κ} {id : Nat} {p : Place κ} (h : s.Status id p)
    (hbirths : s'.births id = s.births id) (hruns : s'.runs id = s.runs id)
    (htick : s'.wheel.curTick = s.wheel.curTick)
    (hcancelled : id ∈ s.cancelled → id ∈ s'.cancelled) : s'.Status id p := by
  have hle : s.wheel.curTick ≤ s'.wheel.curTick := Nat.le_of_eq htick.symm
  cases p with
  | unborn => exact ⟨hbirths.trans h.1, hruns.trans h.2⟩
  | allocated => exact ⟨hbirths.trans h.1, hruns.trans h.2⟩
  | stored t =>
      obtain ⟨b, k, hexpects, hrun, hlt⟩ := h
      exact ⟨b, k, hexpects.frame hbirths, hrun.frame hruns hle, htick ▸ hlt⟩
  | due t =>
      obtain ⟨b, k, hexpects, hrun, heq⟩ := h
      exact ⟨b, k, hexpects.frame hbirths, hrun.frame hruns hle, htick.trans heq⟩
  | ran t =>
      obtain ⟨b, k, hexpects, hrun, heq⟩ := h
      exact ⟨b, k, hexpects.frame hbirths, hrun.frame hruns hle, htick.trans heq⟩
  | ended =>
      obtain ⟨b, k, hbirth, hrun, hend⟩ := h
      exact ⟨b, k, hbirths.trans hbirth, hrun.frame hruns hle, hend.imp_left hcancelled⟩

variable {s : Timers κ} {place : Nat → Place κ}

theorem placed_init : Placed ({} : Timers κ) fun _ => .unborn := by
  constructor <;> simp [Status, runs]

theorem Placed.allocate (h : Placed s place) :
    Placed s.allocate (Function.update place s.wheel.nextId .allocated) := by
  have hfresh := h.fresh s.wheel.nextId (Nat.le_refl _)
  have hne : ∀ id p, place id = p → p ≠ .unborn → id ≠ s.wheel.nextId := by
    rintro id p hp hunborn rfl
    exact hunborn (hp.symm.trans hfresh)
  refine ⟨fun i t => ?_, h.slots_nodup, fun t => ?_, h.left_nodup, fun t => ?_, fun id => ?_,
    fun id hid => ?_, fun id hid => ?_, h.notes, Function.forall_update_iff place _ |>.mpr ⟨?_, ?_⟩⟩
  · change t ∈ s.wheel.slots i ↔ _
    rw [h.stored]
    grind [Function.update_apply]
  · change t ∈ s.left ↔ _
    rw [h.left]
    grind [Function.update_apply]
  · change s.ran = some t ↔ _
    rw [h.ran]
    grind [Function.update_apply]
  · change id ∈ insert s.wheel.nextId s.allocated ↔ _
    rw [Finset.mem_insert, h.allocated]
    grind [Function.update_apply]
  · change s.wheel.nextId + 1 ≤ id at hid
    rw [Function.update_of_ne (by omega)]
    exact h.fresh id (by omega)
  · obtain hover | hnoted := h.noted id hid
    · left
      rw [Function.update_of_ne (hne id _ hover (by simp))]
      exact hover
    · exact .inr hnoted
  · have hstatus := h.status s.wheel.nextId
    rw [hfresh] at hstatus
    exact hstatus
  · intro id _
    exact (h.status id).frame rfl rfl rfl fun h => h

theorem Placed.cancel (h : Placed s place) (id : Nat) : Placed (s.cancel id) place := by
  refine ⟨h.stored, h.slots_nodup, h.left, h.left_nodup, h.ran, h.allocated, h.fresh,
    fun other hother => ?_, fun other hother => ?_, fun other => ?_⟩
  · obtain rfl | hold := Finset.mem_insert.mp hother
    · exact .inr (Finset.mem_insert_self _ _)
    · exact (h.noted other hold).imp_right (Finset.mem_insert_of_mem ·)
  · obtain rfl | hold := Finset.mem_insert.mp hother
    · exact Finset.mem_insert_self _ _
    · exact Finset.mem_insert_of_mem (h.notes other hold)
  · exact (h.status other).frame rfl rfl rfl (Finset.mem_insert_of_mem ·)

/-- The id of a timer in a slot is not about to be put there. -/
theorem Placed.ne_of_stored (h : Placed s place) {id : Nat}
    (hid : ∀ t, place id ≠ .stored t) (i : Fin TimerWheel.slotCount) :
    ∀ t ∈ s.wheel.slots i, t.id ≠ id := by
  rintro t hmem rfl
  exact hid t ((h.stored i t).mp hmem).1

theorem Placed.add (h : Placed s place) {id : Nat} (hid : id ∈ s.allocated) (delayMs : UInt32)
    (periodic : Bool) (cb : κ) :
    Placed (s.add id delayMs periodic cb) (Function.update place id
      (.stored ((⟨s.wheel.curTick, delayMs, periodic, cb⟩ : Birth κ).timer id 0))) := by
  have hplace := (h.allocated id).mp hid
  have hstatus := h.status id
  rw [hplace] at hstatus
  have hfire : s.wheel.fireTick delayMs =
      (⟨s.wheel.curTick, delayMs, periodic, cb⟩ : Birth κ).due 0 := by
    rw [Birth.due, Nat.zero_add, Nat.one_mul, TimerWheel.fireTick]
  refine ⟨fun i t => ?_, ?_, fun t => ?_, h.left_nodup, fun t => ?_, fun other => ?_,
    fun other hother => ?_, fun other hother => ?_, h.notes,
    Function.forall_update_iff place _ |>.mpr ⟨?_, fun other hother => ?_⟩⟩
  · rw [Timers.add, TimerWheel.mem_slots_addTimerLocked, h.stored, hfire, Birth.timer]
    grind [Function.update_apply]
  · exact TimerWheel.nodup_slots_addTimerLocked h.slots_nodup
      (h.ne_of_stored (by simp [hplace]))
  · change t ∈ s.left ↔ _
    rw [h.left]
    grind [Function.update_apply]
  · change s.ran = some t ↔ _
    rw [h.ran]
    grind [Function.update_apply]
  · change other ∈ s.allocated.erase id ↔ _
    rw [Finset.mem_erase, h.allocated]
    grind [Function.update_apply]
  · have hunborn := h.fresh other hother
    rw [Function.update_of_ne]
    · exact hunborn
    · rintro rfl
      rw [hplace] at hunborn
      cases hunborn
  · obtain hover | hnoted := h.noted other hother
    · left
      rw [Function.update_of_ne]
      · exact hover
      · rintro rfl
        rw [hplace] at hover
        cases hover
    · exact .inr hnoted
  · refine ⟨_, 0, ⟨Function.update_self .., rfl, .inr rfl⟩,
      ⟨hstatus.2, fun j hj => absurd hj (Nat.not_lt_zero j)⟩, ?_⟩
    change s.wheel.curTick < Birth.due _ 0
    rw [← hfire]
    exact Nat.lt_add_of_pos_right (TimerWheel.ticks_pos delayMs)
  · exact (h.status other).frame (Function.update_of_ne hother ..) rfl rfl fun h => h

/-- The head of `left` runs its callback. -/
theorem Placed.fire (h : Placed s place) {t : Timer κ} {rest : List (Timer κ)}
    (hleft : s.left = t :: rest) (hran : s.ran = none) :
    Placed (s.fire t rest) (Function.update place t.id (.ran t)) := by
  have hplace := (h.left t).mp (hleft ▸ List.mem_cons_self)
  have hstatus := h.status t.id
  rw [hplace] at hstatus
  obtain ⟨hhead, hrest⟩ := List.nodup_cons.mp (hleft ▸ h.left_nodup : ((t :: rest).map _).Nodup)
  have hrest_ne : ∀ u ∈ rest, u.id ≠ t.id := fun u hu heq =>
    hhead (heq ▸ List.mem_map_of_mem hu)
  have hleft' := h.left
  rw [hleft] at hleft'
  have hnone : ∀ u, place u.id ≠ .ran u := fun u hu => by
    rw [(h.ran u).mpr hu] at hran
    cases hran
  refine ⟨fun i u => ?_, h.slots_nodup, fun u => ?_, hrest, fun u => ?_, fun other => ?_,
    fun other hother => ?_, fun other hother => ?_, h.notes,
    Function.forall_update_iff place _ |>.mpr ⟨?_, fun other hother => ?_⟩⟩
  · change u ∈ s.wheel.slots i ↔ _
    rw [h.stored]
    grind [Function.update_apply]
  · change u ∈ rest ↔ _
    have hu := hleft' u
    grind [Function.update_apply]
  · change some t = some u ↔ _
    have hu := hnone u
    grind [Function.update_apply]
  · change other ∈ s.allocated ↔ _
    rw [h.allocated]
    grind [Function.update_apply]
  · have hunborn := h.fresh other hother
    grind [Function.update_apply]
  · have hnoted := h.noted other hother
    change _ ∨ other ∈ s.wheel.cancelSet
    grind [Function.update_apply]
  · obtain ⟨b, k, hexpects, hrun, htick⟩ := hstatus
    have hruns : (s.fire t rest).runs t.id = s.runs t.id ++ [s.wheel.curTick] :=
      (runs_fire ..).trans (if_pos rfl)
    exact ⟨b, k, hexpects.frame rfl, hrun.succ hexpects htick hruns rfl, htick⟩
  · exact (h.status other).frame rfl ((runs_fire ..).trans (if_neg fun heq => hother heq.symm))
      rfl fun h => h

section Settle

variable {t : Timer κ}

/-- When a callback is over, only the place of its timer changes. -/
theorem Placed.settle_of (h : Placed s place) (hran : s.ran = some t) {p : Place κ}
    (hp : p = .ended ∨ ∃ u, p = .stored u)
    (hstored : ∀ i u, u ∈ (s.settle t).wheel.slots i ↔
      Function.update place t.id p u.id = .stored u ∧ slot u.fireTick = i)
    (hnodup : ∀ i, (((s.settle t).wheel.slots i).map Timer.id).Nodup)
    (hframe : ∃ slots, (s.settle t).wheel = { s.wheel with slots })
    (hstatus : (s.settle t).Status t.id p) :
    Placed (s.settle t) (Function.update place t.id p) := by
  obtain ⟨slots, hwheel⟩ := hframe
  have hplace := (h.ran t).mp hran
  have hother_ran : ∀ u, place u.id = .ran u → u = t := fun u hu =>
    Option.some.inj (((h.ran u).mpr hu).symm.trans hran)
  refine ⟨hstored, hnodup, fun u => ?_, h.left_nodup, fun u => ?_, fun other => ?_,
    fun other hother => ?_, fun other hother => ?_, ?_,
    Function.forall_update_iff place _ |>.mpr ⟨hstatus, fun other _ => ?_⟩⟩
  · change u ∈ s.left ↔ _
    rw [h.left]
    grind [Function.update_apply]
  · change none = some u ↔ _
    have hu := hother_ran u
    grind [Function.update_apply]
  · change other ∈ s.allocated ↔ _
    rw [h.allocated]
    grind [Function.update_apply]
  · rw [hwheel] at hother
    have hunborn := h.fresh other hother
    grind [Function.update_apply]
  · have hnoted := h.noted other hother
    rw [hwheel]
    grind [Function.update_apply]
  · rw [hwheel]
    exact h.notes
  · have htick : (s.settle t).wheel.curTick = s.wheel.curTick := by rw [hwheel]
    exact (h.status other).frame rfl rfl htick fun h => h

/-- A callback is over and its timer goes back. -/
theorem Placed.settle_again (h : Placed s place) (hran : s.ran = some t)
    (hagain : 0 < t.intervalMs ∧ t.id ∉ s.wheel.cancelSet) :
    Placed (s.settle t) (Function.update place t.id
      (.stored { t with fireTick := s.wheel.fireTick t.intervalMs })) := by
  have hplace := (h.ran t).mp hran
  have hstatus := h.status t.id
  rw [hplace] at hstatus
  have hwheel : (s.settle t).wheel =
      s.wheel.addTimerLocked t.id t.intervalMs t.intervalMs t.cb := if_pos hagain
  refine h.settle_of hran (.inr ⟨_, rfl⟩) (fun i u => ?_) ?_ ⟨_, hwheel⟩ ?_
  · rw [hwheel, TimerWheel.mem_slots_addTimerLocked, h.stored]
    grind [Function.update_apply]
  · rw [hwheel]
    exact TimerWheel.nodup_slots_addTimerLocked h.slots_nodup
      (h.ne_of_stored (by simp [hplace]))
  · obtain ⟨b, k, hexpects, hrun, htick⟩ := hstatus
    have htimer := hexpects.timer
    have hinterval : t.intervalMs = b.intervalMs := congrArg Timer.intervalMs htimer
    have hrepeats : b.Repeats := by
      rw [Birth.Repeats, ← hinterval]
      exact hagain.1
    have hdue : s.wheel.fireTick t.intervalMs = b.due (k + 1) := by
      rw [TimerWheel.fireTick, htick, hinterval, Birth.intervalMs_eq hrepeats, b.due_succ, htimer]
      rfl
    have hnow : (s.settle t).wheel.curTick = s.wheel.curTick := by
      rw [hwheel]
      rfl
    refine ⟨b, k + 1, ⟨hexpects.birth, ?_, .inl hrepeats⟩, hrun.frame rfl hnow.ge, ?_⟩
    · rw [hdue, htimer]
      rfl
    · rw [hnow]
      exact Nat.lt_add_of_pos_right (TimerWheel.ticks_pos _)

/-- A callback is over and its timer is done with. -/
theorem Placed.settle_over (h : Placed s place) (hran : s.ran = some t)
    (hover : ¬(0 < t.intervalMs ∧ t.id ∉ s.wheel.cancelSet)) :
    Placed (s.settle t) (Function.update place t.id .ended) := by
  have hplace := (h.ran t).mp hran
  have hstatus := h.status t.id
  rw [hplace] at hstatus
  have hwheel : (s.settle t).wheel = s.wheel := if_neg hover
  refine h.settle_of hran (.inl rfl) (fun i u => ?_) ?_ ⟨_, hwheel⟩ ?_
  · rw [hwheel, h.stored]
    grind [Function.update_apply]
  · rw [hwheel]
    exact h.slots_nodup
  · obtain ⟨b, k, hexpects, hrun, htick⟩ := hstatus
    have hnow : (s.settle t).wheel.curTick = s.wheel.curTick := by rw [hwheel]
    refine ⟨b, k + 1, hexpects.birth, hrun.frame rfl hnow.ge, ?_⟩
    rw [not_and_or, not_not] at hover
    obtain honce | hcancelled := hover
    · refine .inr ⟨?_, Nat.succ_ne_zero k⟩
      rw [hexpects.timer] at honce
      exact honce
    · exact .inl (h.notes _ hcancelled)

end Settle

/-- A timer in a slot is due at the next tick or later. -/
theorem Placed.stored_due (h : Placed s place) {id : Nat} {t : Timer κ}
    (hplace : place id = .stored t) : s.wheel.curTick < t.fireTick := by
  have hstatus := h.status id
  rw [hplace] at hstatus
  obtain ⟨b, k, -, -, hlt⟩ := hstatus
  exact hlt

theorem Placed.not_due (h : Placed s place) (hidle : s.Idle) (t : Timer κ) :
    place t.id ≠ .due t := by
  intro hplace
  have hmem := (h.left t).mpr hplace
  rw [hidle.1] at hmem
  cases hmem

theorem Placed.not_ran (h : Placed s place) (hidle : s.Idle) (t : Timer κ) :
    place t.id ≠ .ran t := by
  intro hplace
  have hran := (h.ran t).mpr hplace
  rw [hidle.2] at hran
  cases hran

/-- The record of an id fits its place after the extraction step. -/
theorem Placed.status_tick (h : Placed s place) (hidle : s.Idle) (id : Nat) :
    s.tick.Status id
      ((place id).extracted (s.wheel.curTick + 1) (decide (id ∈ s.wheel.cancelSet))) := by
  have hstatus := h.status id
  cases hplace : place id with
  | unborn =>
      rw [hplace] at hstatus
      exact hstatus
  | allocated =>
      rw [hplace] at hstatus
      exact hstatus
  | stored t =>
      rw [hplace] at hstatus
      obtain ⟨b, k, hexpects, hrun, hlt⟩ := hstatus
      have hrun' : s.tick.HasRun id b k := hrun.frame rfl (Nat.le_succ _)
      rw [Place.extracted]
      split
      · rename_i hahead
        exact ⟨b, k, hexpects.frame rfl, hrun', hahead⟩
      · have hnow : s.wheel.curTick + 1 = t.fireTick := by omega
        split
        · rename_i hcancelled
          exact ⟨b, k, hexpects.birth, hrun', .inl (h.notes id (of_decide_eq_true hcancelled))⟩
        · exact ⟨b, k, hexpects.frame rfl, hrun', hnow⟩
  | due t =>
      rw [hplace] at hstatus
      obtain ⟨b, k, hexpects, -⟩ := hstatus
      exact absurd (hexpects.id_eq ▸ hplace) (h.not_due hidle t)
  | ran t =>
      rw [hplace] at hstatus
      obtain ⟨b, k, hexpects, -⟩ := hstatus
      exact absurd (hexpects.id_eq ▸ hplace) (h.not_ran hidle t)
  | ended =>
      rw [hplace] at hstatus
      obtain ⟨b, k, hbirth, hrun, hend⟩ := hstatus
      exact ⟨b, k, hbirth, hrun.frame rfl (Nat.le_succ _), hend⟩

/-- The extraction step takes out exactly the timers whose tick has come. -/
theorem Placed.tick (h : Placed s place) (hidle : s.Idle) :
    Placed s.tick fun id =>
      (place id).extracted (s.wheel.curTick + 1) (decide (id ∈ s.wheel.cancelSet)) := by
  refine ⟨fun i t => ?_, TimerWheel.nodup_slots_advance h.slots_nodup, fun t => ?_, ?_,
    fun t => ?_, fun id => ?_, fun id hid => ?_, fun id hid => ?_, fun id hid => ?_,
    h.status_tick hidle⟩
  · rw [Timers.tick, TimerWheel.mem_slots_advance, h.stored, Place.extracted_eq_stored_iff]
    constructor
    · rintro ⟨⟨hplace, rfl⟩, hahead⟩
      have hlt := h.stored_due hplace
      refine ⟨⟨hplace, ?_⟩, rfl⟩
      by_cases hnow : t.fireTick = s.wheel.curTick + 1
      · exact hahead (congrArg slot hnow)
      · omega
    · rintro ⟨⟨hplace, hahead⟩, hslot⟩
      exact ⟨⟨hplace, hslot⟩, fun _ => hahead⟩
  · rw [Timers.tick, TimerWheel.extraction, TimerWheel.mem_extract_due (h.slots_nodup _),
      h.stored, Place.extracted_eq_due_iff, decide_eq_false_iff_not]
    constructor
    · rintro ⟨⟨hplace, -⟩, hdue, hcancelled⟩
      exact .inr ⟨hplace, Nat.not_lt.mpr hdue, hcancelled⟩
    · rintro (hplace | ⟨hplace, hdue, hcancelled⟩)
      · exact absurd hplace (h.not_due hidle t)
      · have hlt := h.stored_due hplace
        have hnow : t.fireTick = s.wheel.curTick + 1 := by omega
        exact ⟨⟨hplace, congrArg slot hnow⟩, Nat.le_of_eq hnow, hcancelled⟩
  · exact (h.slots_nodup _).sublist (TimerWheel.extract_due_sublist.map _)
  · rw [Place.extracted_eq_ran_iff]
    exact h.ran t
  · rw [Place.extracted_eq_allocated_iff]
    exact h.allocated id
  · have hunborn := h.fresh id hid
    rw [hunborn]
    rfl
  · change _ ∨ id ∈ s.wheel.advance.cancelSet
    rw [TimerWheel.advance, TimerWheel.extraction, TimerWheel.mem_extract_cancelSet]
    obtain hover | hnoted := h.noted id hid
    · left
      rw [hover]
      rfl
    · by_cases htaken : ∀ t ∈ s.wheel.slots (slot (s.wheel.curTick + 1)),
          t.fireTick ≤ s.wheel.curTick + 1 → t.id ≠ id
      · exact .inr ⟨hnoted, htaken⟩
      · push Not at htaken
        obtain ⟨t, hmem, hdue, rfl⟩ := htaken
        left
        rw [((h.stored _ t).mp hmem).1, Place.extracted, if_neg (Nat.not_lt.mpr hdue),
          if_pos (decide_eq_true hnoted)]
  · change id ∈ s.wheel.advance.cancelSet at hid
    rw [TimerWheel.advance, TimerWheel.extraction, TimerWheel.mem_extract_cancelSet] at hid
    exact h.notes id hid.1

/-- Every step that may be taken keeps the places. -/
theorem Placed.step (h : Placed s place) {l : Label κ} {s' : Timers κ} (hstep : s.Step l s') :
    ∃ place', Placed s' place' := by
  cases hstep with
  | allocate => exact ⟨_, h.allocate⟩
  | insert hid delayMs periodic cb => exact ⟨_, h.add hid delayMs periodic cb⟩
  | cancel id => exact ⟨_, h.cancel id⟩
  | tick hidle => exact ⟨_, h.tick hidle⟩
  | run hleft hran => exact ⟨_, h.fire hleft hran⟩
  | @reinsert t hran =>
      by_cases hagain : 0 < t.intervalMs ∧ t.id ∉ s.wheel.cancelSet
      · exact ⟨_, h.settle_again hran hagain⟩
      · exact ⟨_, h.settle_over hran hagain⟩

/-- Every reachable state has places. -/
theorem exists_placed (h : (system κ).Reachable s) : ∃ place, Placed s place := by
  induction h with
  | init hinit =>
      obtain rfl := hinit
      exact ⟨_, placed_init⟩
  | step _ henabled ih =>
      obtain ⟨place, hplaced⟩ := ih
      exact hplaced.step (step_next henabled)

end Timers

end EmbedMq
